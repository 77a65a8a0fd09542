import Scaffold.Answers.Interview
import Scaffold.CommandLine
import Scaffold.Generation.Directories
import Scaffold.Generation.Walk
import Scaffold.Questionnaire.Load

/-!
The whole program: from the words of the command line, the standard input and the files to the
files afterwards and all that is written. Nothing is changed before the template, its questions,
the answers, the output directory and the ignore list are all found to be good.
-/

namespace Scaffold.Program

/-- What a run is given besides its arguments. -/
structure Surroundings where
  tree : FileTree
  input : ByteArray
  /-- Replies to questions; a run without a terminal has none. -/
  replies : List Reply
  spent : PromptFault

def print (text : String) : Recorded Unit := record (.printed text)

def preloaded (a : Arguments) (input : ByteArray) : Except Error Json :=
  if a.stdin then
    match String.fromUTF8? input with
    | some text => Preloaded.read text
    | none => .error (.io .notText)
  else .ok .null

def answers (a : Arguments) (s : Surroundings) (q : Questionnaire) (given : Json) :
    Recorded (Except Error Answers) := do
  let interview : Interview :=
    { questionnaire := q
      given := ⟨a.overrides, given⟩
      interactive := !a.yes
      spent := s.spent }
  let outcome ← interview.run s.replies
  pure outcome.result

/-- The project is generated under its own name unless another directory is given. -/
def outputPath (a : Arguments) (answers : Answers) : Path :=
  Path.ofString (a.output.getD answers.name)

/-- All that is settled before anything is written. -/
def prepare (a : Arguments) (s : Surroundings) : Recorded (Except Error Job) := do
  match templateDirectory s.tree (Path.ofString a.template) with
  | .error e => pure (.error e)
  | .ok template =>
    match ← Questionnaire.load s.tree template with
    | .error e => pure (.error e)
    | .ok q =>
      match preloaded a s.input with
      | .error e => pure (.error e)
      | .ok given =>
        match ← answers a s q given with
        | .error e => pure (.error e)
        | .ok answers =>
          match outputDirectory s.tree (outputPath a answers) a.force with
          | .error e => pure (.error e)
          | .ok output =>
            match ← IgnoreList.ofTemplate s.tree template with
            | .error e => pure (.error e)
            | .ok ignored => pure (.ok ⟨template, output, answers, q.placeholders, ignored⟩)

def printGenerated : List Generated → Recorded Unit
  | [] => pure ()
  | g :: rest => do
    print (g.action ++ ": '" ++ g.target.display ++ "'\n")
    printGenerated rest

structure Outcome where
  tree : FileTree
  failure : Option Error

def execute (a : Arguments) (s : Surroundings) : Recorded Outcome := do
  match ← prepare a s with
  | .error e => pure ⟨s.tree, some e⟩
  | .ok job =>
    print ("Generating project " ++ job.answers.name ++ "...\n")
    let walk ← job.generate s.tree
    match walk.failure with
    | some e => pure ⟨walk.tree, some e⟩
    | none =>
      printGenerated walk.generated
      print ("Project " ++ job.answers.name ++ " generated successfully in " ++
        job.output.display ++ ".\n")
      pure ⟨walk.tree, none⟩

def helpText : String :=
  "msgen: microservice scaffolding from conditional templates\n\n" ++
  "Usage: msgen [OPTIONS] --template-path <DIR> [OUTPUT_DIR]\n\n" ++
  "Arguments:\n" ++
  "  [OUTPUT_DIR]  Directory where the generated project will be created " ++
  "(defaults to the project name in the current directory)\n\n" ++
  "Options:\n" ++
  "  -t, --template-path <DIR>  Path to the template directory\n" ++
  "  -n, --name <NAME>          Project name; skips the name prompt\n" ++
  "  -e, --enable <FLAG>        Turn a flag on; may be repeated\n" ++
  "  -d, --disable <FLAG>       Turn a flag off; may be repeated\n" ++
  "  -s, --stdin                Read answers as a JSON object from stdin\n" ++
  "  -y, --yes                  Do not ask anything: unanswered questions take their defaults " ++
  "and the final confirmation is skipped\n" ++
  "  -f, --force                Generate into an existing output directory\n" ++
  "  -v, --verbose              Enable verbose logging output\n" ++
  "  -h, --help                 Print help\n" ++
  "  -V, --version              Print version\n"

def versionText : String := "msgen 0.3.1\n"

/-- How a run ends. -/
structure Ending where
  tree : FileTree
  exitCode : Nat
  out : String
  err : String

def levelTag : Level → String
  | .error => "ERROR"
  | .warn => "WARN "
  | .debug => "DEBUG"
  | .trace => "TRACE"

/-- Further lines of a log entry are indented. -/
def indented (text : String) : String :=
  String.ofList (text.toList.flatMap fun c => if c = '\n' then "\n    ".toList else [c])

def logLine (n : Notice) : String :=
  "[" ++ levelTag n.level ++ " " ++ n.part.target ++ "] " ++ indented n.text ++ "\n"

def outText : Event → String
  | .printed text => text
  | _ => ""

/-- The log up to a level and the complaints. -/
def errText (most : Level) : Event → String
  | .notice n => if n.level.rank ≤ most.rank then logLine n else ""
  | .complained text => text
  | _ => ""

def logLevel (a : Arguments) : Level := if a.verbose then .debug else .warn

def refuse (t : FileTree) : CommandLine.Fault → Ending
  | .help => ⟨t, 0, helpText, ""⟩
  | .version => ⟨t, 0, versionText, ""⟩
  | .missing => ⟨t, 1, helpText, ""⟩
  | _ => ⟨t, 2, "", ""⟩

def run (words : List String) (s : Surroundings) : Ending :=
  match CommandLine.parse words with
  | .error fault => refuse s.tree fault
  | .ok a =>
    let done := execute a s
    let out := String.join (done.events.map outText)
    let err := String.join (done.events.map (errText (logLevel a)))
    match done.value.failure with
    | none => ⟨done.value.tree, 0, out, err⟩
    | some e => ⟨done.value.tree, 1, out, err ++ e.message ++ "\n"⟩

end Scaffold.Program
