import Scaffold.Json.Printer
import Scaffold.Table

/-!
Answers: the project name and the flags, with their overview for the user and their form as
a JSON object.
-/

namespace Scaffold

structure Answers where
  name : String
  flags : Table Bool
  deriving DecidableEq

namespace Answers

/-- The project name travels under this key among the flags. -/
def nameKey : String := "project_name"

def flagSet (a : Answers) : FlagSet := .ofTable a.flags

def summary (a : Answers) : String :=
  a.flags.entries.foldl
    (fun text entry => text ++ entry.1 ++ ": " ++ (if entry.2 then "Yes" else "No") ++ "\n")
    ("Project name: " ++ a.name ++ "\n")

def toJson (a : Answers) : Json :=
  .ofMembers ((nameKey, .string a.name) :: a.flags.entries.map fun entry =>
    (entry.1, .bool entry.2))

end Answers

end Scaffold
