import Scaffold.FlagSet
import Scaffold.Json.Double

/-!
JSON values. The members of an object are sorted by name, and a name occurs once.
-/

namespace Scaffold

inductive Json.Number where
  | whole (value : Int)
  | double (value : Json.Double)
  deriving DecidableEq

inductive Json where
  | null
  | bool (value : Bool)
  | number (value : Json.Number)
  | string (value : String)
  | array (items : List Json)
  | object (members : List (String × Json))

namespace Json

/-- Adds a member in the order of names; one of that name is replaced. -/
def insertMember (name : String) (value : Json) :
    List (String × Json) → List (String × Json)
  | [] => [(name, value)]
  | member :: rest =>
    if name < member.1 then (name, value) :: member :: rest
    else if name = member.1 then (name, value) :: rest
    else member :: insertMember name value rest

def ofMembers (members : List (String × Json)) : Json :=
  .object (members.foldl (fun sorted member => insertMember member.1 member.2 sorted) [])

def members : Json → List (String × Json)
  | .object members => members
  | _ => []

def member? (value : Json) (name : String) : Option Json := value.members.lookup name

def isObject : Json → Bool
  | .object _ => true
  | _ => false

def string? : Json → Option String
  | .string value => some value
  | _ => none

/-- The flags of an object are on where its value is `true`. -/
def flagSet (value : Json) : FlagSet := fun name =>
  match value.member? name with
  | some (.bool on) => on
  | _ => false

end Json

end Scaffold
