import Scaffold.Questionnaire.FromJson
import Scaffold.Questionnaire.FromYaml

/-!
Reading a questionnaire: as JSON if it is that, else as YAML. What comes of it is checked.
-/

namespace Scaffold.Questionnaire

def decode? (content : String) : Option Questionnaire :=
  ((Json.Written.parse? content).bind ofJson?).or ((Yaml.Document.read? content).bind ofYaml?)

def read (content : String) : Except Error Questionnaire :=
  match decode? content with
  | none => .error .badYaml
  | some q => q.check

end Scaffold.Questionnaire
