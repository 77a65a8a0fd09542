import Scaffold.File.Tree
import Scaffold.Journal
import Scaffold.Questionnaire.Read

/-!
The questionnaire of a template: the first of its configuration files that is there, or the
standard one.
-/

namespace Scaffold.Questionnaire

def fileNames : List String := ["msgen.json", "msgen.yml", "msgen.yaml"]

/-- The text of the first of some files. -/
def firstText (t : FileTree) (template : Path) (tried : List String) :
    List String → Recorded (Except Error (Option String))
  | [] => do
    note (.configurationAbsent tried)
    pure (.ok none)
  | name :: rest =>
    let path := template.join (Path.ofString name)
    if t.isFile path then do
      note (.configurationFound path.display)
      match t.readText path with
      | .ok text => pure (.ok (some text))
      | .error fault => pure (.error (.io fault))
    else firstText t template tried rest

def load (t : FileTree) (template : Path) : Recorded (Except Error Questionnaire) := do
  match ← firstText t template fileNames fileNames with
  | .error e => pure (.error e)
  | .ok none => pure (.ok standard)
  | .ok (some text) => pure (read text)

end Scaffold.Questionnaire
