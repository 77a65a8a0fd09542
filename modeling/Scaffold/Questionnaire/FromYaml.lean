import Scaffold.Questionnaire.Format
import Scaffold.Yaml.Node

/-!
A questionnaire as YAML. A record is a mapping with scalar keys. Any scalar is text as it is
written; nothing at all stands for an empty mapping and for an empty sequence. Tags of mappings
and sequences do not count.
-/

namespace Scaffold.Questionnaire

open Yaml (Document Node)

namespace FromYaml

def isNothing : Node → Bool
  | .scalar style _ text => style = .plain && text = ""
  | _ => false

def text? (d : Document) (node : Node) : Option String :=
  match d.resolve? node with
  | some (.scalar _ _ text) => some text
  | _ => none

def entries? (d : Document) (node : Node) : Option (List (String × Node)) :=
  match d.resolve? node with
  | some (.mapping pairs) =>
    pairs.mapM fun pair => (text? d pair.1).map fun key => (key, pair.2)
  | some other => if isNothing other then some [] else none
  | none => none

def items? (d : Document) (node : Node) : Option (List Node) :=
  match d.resolve? node with
  | some (.sequence items) => some items
  | some other => if isNothing other then some [] else none
  | none => none

def isNull (text : String) : Bool := ["null", "Null", "NULL", "~"].contains text

def nullTag : Text := "tag:yaml.org,2002:null".toList

/-- Nothing and null are no text, unless they are quoted or have a tag of another kind. -/
def optionalText? (d : Document) (node : Node) : Option (Option String) :=
  match d.resolve? node with
  | some (.scalar style tag text) =>
    if style ≠ .plain then some (some text)
    else
      match tag with
      | none => some (if text = "" || isNull text then none else some text)
      | some tag =>
        if tag ≠ nullTag then some (some text) else if isNull text then some none else none
  | _ => none

def truth? (text : String) : Option Bool :=
  if ["true", "True", "TRUE"].contains text then some true
  else if ["false", "False", "FALSE"].contains text then some false
  else none

def boolTag : Text := "tag:yaml.org,2002:bool".toList

/-- A truth value is plain, or a literal block with its tag. -/
def bool? (d : Document) (node : Node) : Option Bool :=
  match d.resolve? node with
  | some (.scalar style tag text) =>
    if style = .plain || (style = .literal && tag = some boolTag) then truth? text else none
  | _ => none

def format (d : Document) : Format Node where
  fields? := fun _ => entries? d
  entries? := entries? d
  items? := items? d
  text? := text? d
  optionalText? := optionalText? d
  bool? := bool? d

end FromYaml

def ofYaml? (d : Document) : Option Questionnaire := (FromYaml.format d).questionnaire? d.root

end Scaffold.Questionnaire
