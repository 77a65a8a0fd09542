import Scaffold.Proofs.Template.Matching

/-! Templates as trees of blocks. A template whose directives all find their partners is the
text of such a tree, and what is visible of it is given by recursion over the tree. -/

namespace Scaffold.Template

/-- What stands between two directives of a block, or outside all blocks. Where `late` holds, a
further `[else]` stands idle: outside all blocks, and behind the `[else]` of a block. -/
inductive Nest : (late : Bool) → Type where
  | done {late : Bool} : Nest late
  | text {late : Bool} (c : Char) (next : Nest late) : Nest late
  | block {late : Bool} (condition : String) (opening : Text) (body : Nest false)
      (closing : Text) (next : Nest late) : Nest late
  | choice {late : Bool} (condition : String) (opening : Text) (body : Nest false)
      (turning : Text) (other : Nest true) (closing : Text) (next : Nest late) : Nest late
  | idle (source : Text) (next : Nest true) : Nest true

namespace Nest

def pieces {late : Bool} : Nest late → List Piece
  | done => []
  | text c next => .plain c :: next.pieces
  | block condition opening body closing next =>
    .directive (.ifHolds condition) opening ::
      (body.pieces ++ .directive .endIf closing :: next.pieces)
  | choice condition opening body turning other closing next =>
    .directive (.ifHolds condition) opening ::
      (body.pieces ++ .directive .elseBranch turning ::
        (other.pieces ++ .directive .endIf closing :: next.pieces))
  | idle source next => .directive .elseBranch source :: next.pieces

/-- The text that is left when of every block the branch is taken that its condition tells. -/
def taken {late : Bool} (flags : FlagSet) : Nest late → Text
  | done => []
  | text c next => c :: next.taken flags
  | block condition _ body _ next =>
    (if (Condition.evaluate flags condition).value then body.taken flags else []) ++
      next.taken flags
  | choice condition _ body _ other _ next =>
    (if (Condition.evaluate flags condition).value then body.taken flags
      else other.taken flags) ++ next.taken flags
  | idle _ next => next.taken flags

end Nest

def closesAll : (depth : Nat) → List Piece → Bool
  | depth, [] => depth == 0
  | depth, .directive (.ifHolds _) _ :: rest => closesAll (depth + 1) rest
  | 0, .directive .endIf _ :: _ => false
  | depth + 1, .directive .endIf _ :: rest => closesAll depth rest
  | depth, .directive .elseBranch _ :: rest => closesAll depth rest
  | depth, .plain _ :: rest => closesAll depth rest

inductive Ending (late : Bool) (depth : Nat) : List Piece → Prop where
  | endIf (source : Text) (rest : List Piece) (closes : closesAll depth rest = true) :
      Ending late depth (.directive .endIf source :: rest)
  | elseBranch (source : Text) (rest : List Piece) (early : late = false)
      (closes : closesAll (depth + 1) rest = true) :
      Ending late depth (.directive .elseBranch source :: rest)

end Scaffold.Template
