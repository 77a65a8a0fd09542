import Scaffold.Error
import Scaffold.Text

/-!
Project names: an ASCII letter or digit, then ASCII letters, digits, dots, underscores and
hyphens. A name is read without the blank characters around it.
-/

namespace Scaffold.ProjectName

def isFirstChar (c : Char) : Bool := c.isAlphanum

def isLaterChar (c : Char) : Bool := c.isAlphanum || c == '.' || c == '_' || c == '-'

def isValid : Text → Bool
  | [] => false
  | c :: rest => isFirstChar c && rest.all isLaterChar

def read (text : String) : Except Error String :=
  let name := trimmed text
  if name = "" then .error .nameMissing
  else if isValid name.toList then .ok name
  else .error (.nameInvalid name)

end Scaffold.ProjectName
