import Scaffold.Error
import Scaffold.Table
import Scaffold.Text

/-!
What a template asks for: the project name, the placeholders that stand for it, and flags. A
flag is declared under a name that a condition can mention: not empty, no keyword, without
blank characters and parentheses.
-/

namespace Scaffold

structure NameQuestion where
  help : String
  offered : Option String
  deriving DecidableEq

structure FlagQuestion where
  help : String
  offered : Bool
  deriving DecidableEq

structure Questionnaire where
  name : NameQuestion
  placeholders : List String
  flags : Table FlagQuestion
  deriving DecidableEq

namespace NameQuestion

def standard : NameQuestion := ⟨"Enter project name", none⟩

end NameQuestion

namespace FlagQuestion

def standard : FlagQuestion := ⟨"", false⟩

/-- The question put to the user; a blank help text says nothing about the flag. -/
def prompt (q : FlagQuestion) (key : String) : String :=
  if Text.isAllBlank q.help.toList then "Include " ++ key ++ "?" else q.help

end FlagQuestion

namespace Questionnaire

def standardPlaceholders : List String := ["<CHARTNAME>", "project_name"]

/-- The questions of a template that comes without its own. -/
def standard : Questionnaire where
  name := .standard
  placeholders := standardPlaceholders
  flags := .ofList [
    ("UseREST", ⟨"Include REST?", false⟩),
    ("UseGRPC", ⟨"Include gRPC?", false⟩),
    ("UseGraphQL", ⟨"Include GraphQL?", false⟩),
    ("UsePostgresMig", ⟨"Include PostgreSQL migrations?", false⟩),
    ("UseMongoMig", ⟨"Include MongoDB migrations?", false⟩),
    ("UseCronJobs", ⟨"Include cron jobs?", false⟩),
    ("UseWorkers", ⟨"Include workers?", false⟩)]

def isKeyword (key : String) : Bool := ["and", "or", "not"].any (Text.sameLetters key.toList)

def separates (c : Char) : Bool := Text.isBlank c || c == '(' || c == ')'

def isFlagName (key : String) : Bool :=
  key != "" && !isKeyword key && !key.toList.any separates

/-- The first flag with a bad name is reported before any empty placeholder. -/
def check (q : Questionnaire) : Except Error Questionnaire :=
  match q.flags.keys.find? (fun key => !isFlagName key) with
  | some key => .error (.badFlagName key)
  | none => if q.placeholders.contains "" then .error .emptyPlaceholder else .ok q

def declares (q : Questionnaire) (key : String) : Bool := q.flags.contains key

end Questionnaire

end Scaffold
