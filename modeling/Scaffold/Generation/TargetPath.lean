import Scaffold.Text

/-!
The path of a target below the output directory, before it is joined with it: parts between
slashes, of which none is blank or leads upwards.
-/

namespace Scaffold.TargetPath

/-- The parts between slashes, at least one. -/
def parts : Text → List Text
  | [] => [[]]
  | c :: cs =>
    if c = '/' then [] :: parts cs
    else
      match parts cs with
      | [] => [[c]]
      | part :: rest => (c :: part) :: rest

def isValidPart (part : Text) : Bool := !part.isAllBlank && part != ['.', '.']

def isValid (path : String) : Bool := (parts path.toList).all isValidPart

end Scaffold.TargetPath
