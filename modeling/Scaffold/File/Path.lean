import Scaffold.File.Bytes

/-!
Paths as they are written: bytes with slashes between the names. A dot names the directory it
stands in and counts only at the start; repeated slashes count as one.
-/

namespace Scaffold

abbrev Path := Bytes

namespace Path

def slash : UInt8 := 0x2f

def dot : UInt8 := 0x2e

def ofString (s : String) : Path := Bytes.ofString s

def display (p : Path) : String := Bytes.display p

/-- The pieces between slashes, at least one. -/
def pieces : Path → List Bytes
  | [] => [[]]
  | b :: bs =>
    if b = slash then [] :: pieces bs
    else
      match pieces bs with
      | [] => [[b]]
      | piece :: rest => (b :: piece) :: rest

def ofPieces : List Bytes → Path
  | [] => []
  | [piece] => piece
  | piece :: rest => piece ++ slash :: ofPieces rest

/-- Whether a piece behind a slash names nothing. -/
def isIdle (piece : Bytes) : Bool := piece = [] || piece = [dot]

def isAbsolute (p : Path) : Bool := p.head? = some slash

inductive Component where
  | root
  | current
  | parent
  | name (name : Bytes)
  deriving DecidableEq

def componentOf (piece : Bytes) : Component :=
  if piece = [dot, dot] then .parent else .name piece

/-- The first piece is empty when the path is absolute. -/
def firstComponent (p : Path) (piece : Bytes) : List Component :=
  if piece = [] then (if p.isAbsolute then [.root] else [])
  else if piece = [dot] then [.current]
  else [componentOf piece]

def components (p : Path) : List Component :=
  match p.pieces with
  | [] => []
  | first :: rest =>
    firstComponent p first ++ (rest.filter fun piece => !isIdle piece).map componentOf

/-- The second path, seen from the first. -/
def join (p q : Path) : Path :=
  if q.isAbsolute then q
  else if p = [] || p.getLast? = some slash then p ++ q
  else p ++ slash :: q

/-- The path that is left of `first` and the pieces behind it, the last one first. -/
def remaining (first : Bytes) (behind : List Bytes) : Path :=
  match behind.dropWhile isIdle with
  | [] => if first = [] then [slash] else first
  | kept => ofPieces (first :: kept.reverse)

/-- The paths of the directories around, the nearest first. -/
def outerOf (first : Bytes) : List Bytes → List Path
  | [] => if first = [] then [] else [[]]
  | piece :: behind =>
    if isIdle piece then outerOf first behind
    else remaining first behind :: outerOf first behind

def outer (p : Path) : List Path :=
  match p.pieces with
  | [] => []
  | first :: rest => outerOf first rest.reverse

def parent? (p : Path) : Option Path := p.outer.head?

/-- The components that are left of `cs` behind `start`. -/
def behind? : (start cs : List Component) → Option (List Component)
  | [], cs => some cs
  | _ :: _, [] => none
  | s :: start, c :: cs => if s = c then behind? start cs else none

def nameText? : Component → Option String
  | .name name => Bytes.text? name
  | _ => none

/-- The path below a directory as text, if it leads straight down. -/
def below? (directory p : Path) : Option String := do
  let rest ← behind? directory.components p.components
  let names ← rest.mapM nameText?
  some ("/".intercalate names)

end Path

end Scaffold
