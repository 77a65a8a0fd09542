import Scaffold.Text

/-!
Directives in template text: `[if CONDITION]`, `[else]` and `[endif]`, in any ASCII case and
with blank space inside the brackets. A directive ends at the first closing bracket, which may
be on a later line; a bracket that starts no directive is plain text. The pieces of a text are
its directives and the plain characters between them.
-/

namespace Scaffold.Template

inductive Directive where
  | ifHolds (condition : String)
  | elseBranch
  | endIf
  deriving DecidableEq

namespace Directive

/-- The directive that the text between two brackets is. -/
def ofInner? (inner : Text) : Option Directive :=
  if inner.sameLetters "else" then some .elseBranch
  else if inner.sameLetters "endif" then some .endIf
  else if Text.sameLetters (inner.take 2) "if" then
    match inner.drop 2 with
    | [] => none
    | c :: rest => if Text.isBlank c then some (.ifHolds (String.ofList (Text.trim rest))) else none
  else none

def isClosing (c : Char) : Bool := c == ']'

/-- The directive behind an opening bracket and the text after its closing one. -/
def read? (afterBracket : Text) : Option (Directive × Text) :=
  match afterBracket.dropWhile (fun c => !isClosing c) with
  | [] => none
  | _ :: rest =>
    (ofInner? (Text.trim (afterBracket.takeWhile fun c => !isClosing c))).map fun d => (d, rest)

/-- The brackets of a directive and all between them. -/
def source (afterBracket : Text) : Text :=
  '[' :: afterBracket.takeWhile (fun c => !isClosing c) ++ [']']

theorem length_of_read? {cs rest : Text} {d : Directive} (h : read? cs = some (d, rest)) :
    rest.length < cs.length := by
  rw [read?] at h
  have whole := (List.dropWhile_suffix (l := cs) (fun c => !isClosing c)).length_le
  revert h whole
  cases cs.dropWhile (fun c => !isClosing c) with
  | nil => intro h; exact nomatch h
  | cons c tail =>
    intro h whole
    obtain ⟨_, _, same⟩ := Option.map_eq_some_iff.1 h
    cases same
    exact whole

end Directive

inductive Piece where
  | directive (directive : Directive) (source : Text)
  | plain (c : Char)
  deriving DecidableEq

/-- The text that a piece was read from. -/
def Piece.source : Piece → Text
  | .directive _ source => source
  | .plain c => [c]

def pieces (cs : Text) : List Piece :=
  match cs with
  | [] => []
  | c :: rest =>
    if c = '[' then
      match _h : Directive.read? rest with
      | some (d, after) => .directive d (Directive.source rest) :: pieces after
      | none => .plain c :: pieces rest
    else .plain c :: pieces rest
termination_by cs.length
decreasing_by
  · have := Directive.length_of_read? _h
    simp only [List.length_cons]
    omega
  · exact Nat.lt_succ_self _
  · exact Nat.lt_succ_self _

/-- The conditions of all directives that start at some bracket of the text. -/
def conditions : Text → List String
  | [] => []
  | c :: rest =>
    if c = '[' then
      match Directive.read? rest with
      | some (.ifHolds condition, _) => condition :: conditions rest
      | _ => conditions rest
    else conditions rest

end Scaffold.Template
