import Scaffold.Answers.Basic
import Scaffold.Error
import Scaffold.Journal
import Scaffold.Json.Written
import Scaffold.Questionnaire.Basic
import Scaffold.YesNo

/-!
Answers that are given beforehand. Overrides come from the command line and win over the
preloaded answers, a JSON object. A preloaded flag is a boolean or a word for yes or no; any
other value is reported and does not count.
-/

namespace Scaffold

structure Overrides where
  name : Option String
  enable : List String
  disable : List String
  deriving DecidableEq

namespace Overrides

def flag? (o : Overrides) (key : String) : Option Bool :=
  if o.enable.contains key then some true
  else if o.disable.contains key then some false
  else none

def keys (o : Overrides) : List String := o.enable ++ o.disable

/-- A flag that is enabled and disabled at once. -/
def conflict? (o : Overrides) : Option String := o.enable.find? o.disable.contains

end Overrides

namespace Preloaded

/-- A blank text holds no answers. -/
def read (content : String) : Except Error Json :=
  if Text.isAllBlank content.toList then .ok .null
  else
    match Json.parse? content with
    | none => .error .badJson
    | some value => if value.isObject then .ok value else .error .answersNotObject

def name? (preloaded : Json) : Option String :=
  (preloaded.member? Answers.nameKey).bind Json.string?

def flagKeys (preloaded : Json) : List String :=
  (preloaded.members.map Prod.fst).filter (· ≠ Answers.nameKey)

def flag? (preloaded : Json) (key : String) : Recorded (Option Bool) :=
  match preloaded.member? key with
  | none => pure none
  | some (.bool value) => pure (some value)
  | some (.string answer) =>
    match yesNo? answer with
    | some value => pure (some value)
    | none => do
      note (.answerNotYesNo answer key)
      pure none
  | some other => do
    note (.answerNotBoolean other.display key)
    pure none

end Preloaded

/-- All that is given beforehand. -/
structure Given where
  overrides : Overrides
  preloaded : Json

namespace Given

def name? (g : Given) : Option String := g.overrides.name.or (Preloaded.name? g.preloaded)

def flag? (g : Given) (key : String) : Recorded (Option Bool) :=
  match g.overrides.flag? key with
  | some value => pure (some value)
  | none => Preloaded.flag? g.preloaded key

/-- The flags that are given and not declared, each where it is given first. -/
def undeclaredKeys (g : Given) (q : Questionnaire) : List String :=
  (g.overrides.keys ++ Preloaded.flagKeys g.preloaded).eraseDups.filter fun key =>
    !q.declares key

/-- A notice for every mention of an undeclared flag. -/
def noteUndeclared (g : Given) (q : Questionnaire) : Recorded Unit :=
  let flags := g.overrides.keys.filter fun key => !q.declares key
  let answers := (Preloaded.flagKeys g.preloaded).filter fun key => !q.declares key
  ⟨(), flags.map (fun key => .notice (.flagUndeclared key)) ++
    answers.map (fun key => .notice (.answerUndeclared key))⟩

end Given

end Scaffold
