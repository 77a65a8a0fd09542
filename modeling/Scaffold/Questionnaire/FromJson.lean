import Scaffold.Json.Written
import Scaffold.Questionnaire.Format

/-!
A questionnaire as JSON. A record is an object, or the array of its fields in order. Names of
fields are decoded always, the value of an unknown one never.
-/

namespace Scaffold.Questionnaire

open Json (Written Unit16)

namespace FromJson

def entries? : Written → Option (List (String × Written))
  | .object members => members.mapM fun member =>
    (Unit16.string? member.1).map fun name => (name, member.2)
  | _ => none

def items? : Written → Option (List Written)
  | .array items => some items
  | _ => none

def fields? (names : List String) : Written → Option (List (String × Written))
  | .array items => if items.length ≤ names.length then some (names.zip items) else none
  | written => entries? written

def text? : Written → Option String
  | .string units => Unit16.string? units
  | _ => none

def optionalText? : Written → Option (Option String)
  | .null => some none
  | written => (text? written).map some

def bool? : Written → Option Bool
  | .bool value => some value
  | _ => none

def format : Format Written where
  fields? := fields?
  entries? := entries?
  items? := items?
  text? := text?
  optionalText? := optionalText?
  bool? := bool?

end FromJson

def ofJson? (written : Written) : Option Questionnaire := FromJson.format.questionnaire? written

end Scaffold.Questionnaire
