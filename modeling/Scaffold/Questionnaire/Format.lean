import Scaffold.Questionnaire.Basic

/-!
How a questionnaire is written, in any format of data. A field that is left out has its standard
value, a known field occurs once, and unknown fields do not count.
-/

namespace Scaffold.Questionnaire

/-- The readings of written values that a questionnaire consists of. -/
structure Format (α : Type) where
  /-- The fields of a record, of which these names are known. -/
  fields? : List String → α → Option (List (String × α))
  /-- The entries of a table with any names. -/
  entries? : α → Option (List (String × α))
  items? : α → Option (List α)
  text? : α → Option String
  optionalText? : α → Option (Option String)
  bool? : α → Option Bool

/-- Reads the field of that name. -/
def field? {α β : Type} (fields : List (String × α)) (name : String) (read? : α → Option β)
    (standard : β) : Option β :=
  match fields.filter (fun field => field.1 = name) with
  | [] => some standard
  | [field] => read? field.2
  | _ => none

namespace Format

variable {α : Type}

def nameQuestion? (f : Format α) (written : α) : Option NameQuestion := do
  let fields ← f.fields? ["help", "default"] written
  let help ← field? fields "help" f.text? NameQuestion.standard.help
  let offered ← field? fields "default" f.optionalText? NameQuestion.standard.offered
  some ⟨help, offered⟩

def flagQuestion? (f : Format α) (written : α) : Option FlagQuestion := do
  let fields ← f.fields? ["help", "default"] written
  let help ← field? fields "help" f.text? FlagQuestion.standard.help
  let offered ← field? fields "default" f.bool? FlagQuestion.standard.offered
  some ⟨help, offered⟩

def flags? (f : Format α) (written : α) : Option (Table FlagQuestion) := do
  let entries ← f.entries? written
  let questions ← entries.mapM fun entry =>
    (f.flagQuestion? entry.2).map fun question => (entry.1, question)
  some (.ofList questions)

def texts? (f : Format α) (written : α) : Option (List String) := do
  let items ← f.items? written
  items.mapM f.text?

def questionnaire? (f : Format α) (written : α) : Option Questionnaire := do
  let fields ← f.fields? ["name", "placeholders", "flags"] written
  let name ← field? fields "name" f.nameQuestion? .standard
  let placeholders ← field? fields "placeholders" f.texts? standardPlaceholders
  let flags ← field? fields "flags" f.flags? .empty
  some ⟨name, placeholders, flags⟩

end Format

end Scaffold.Questionnaire
