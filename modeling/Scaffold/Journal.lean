/-!
The journal of a run: the flags that were looked up, the log, the questions that were asked
and the text that was written, in the order in which it happened. A recorded value is a value
together with the journal of its making.
-/

namespace Scaffold

inductive Level where
  | error
  | warn
  | debug
  | trace
  deriving DecidableEq

/-- Greater is more detailed. -/
def Level.rank : Level → Nat
  | .error => 0
  | .warn => 1
  | .debug => 2
  | .trace => 3

/-- The part of the program that a log entry comes from. -/
inductive Part where
  | condition
  | template
  | questionnaire
  | interview
  | ignoreList
  | generation
  deriving DecidableEq

/-- The name of a part in the log. -/
def Part.target : Part → String
  | .condition => "msgen::expr"
  | .template => "msgen::directive"
  | .questionnaire => "msgen::config"
  | .interview => "msgen::answers"
  | .ignoreList => "msgen::ignore"
  | .generation => "msgen::processor"

inductive Notice where
  | parenthesisClosedAtEnd
  | conditionReadAsName (condition fault : String)
  | conditionDecided (condition : String) (value : Bool) (line : Nat)
  | strayElse (line : Nat)
  | strayEndIf (line : Nat)
  | neverClosed (condition : String)
  | configurationFound (path : String)
  | configurationAbsent (tried : List String)
  | answerNotYesNo (answer key : String)
  | answerNotBoolean (answer key : String)
  | flagUndeclared (key : String)
  | answerUndeclared (key : String)
  | answersCollected (answers : String)
  | ignoreFileAbsent
  | conditionUnreadable (source condition : String)
  | lookupUndeclared (source name : String)
  | entryIgnored (entry : String)
  | entryPathBroken (entry rendered : String)
  | entryStarted (entry target : String)
  | entryNotText (entry : String)
  | templateStarted (path : String)
  | entrySkipped (message : String)
  | entryFailed (message : String)
  deriving DecidableEq

namespace Notice

def level : Notice → Level
  | .conditionDecided _ _ _ => .trace
  | .answerNotYesNo _ _ | .answerNotBoolean _ _ | .flagUndeclared _ | .answerUndeclared _ => .warn
  | .conditionUnreadable _ _ | .lookupUndeclared _ _ | .entrySkipped _ => .warn
  | .entryFailed _ => .error
  | _ => .debug

def part : Notice → Part
  | .parenthesisClosedAtEnd | .conditionReadAsName _ _ => .condition
  | .conditionDecided _ _ _ | .strayElse _ | .strayEndIf _ | .neverClosed _ => .template
  | .configurationFound _ | .configurationAbsent _ => .questionnaire
  | .answerNotYesNo _ _ | .answerNotBoolean _ _ | .flagUndeclared _ | .answerUndeclared _
  | .answersCollected _ => .interview
  | .ignoreFileAbsent => .ignoreList
  | _ => .generation

def truth (value : Bool) : String := if value then "true" else "false"

def text : Notice → String
  | .parenthesisClosedAtEnd => "Closing unbalanced '(' at end of condition"
  | .conditionReadAsName condition fault =>
    "Condition '" ++ condition ++ "' is looked up as a flag name: " ++ fault
  | .conditionDecided condition value line =>
    "[if " ++ condition ++ "] is " ++ truth value ++ " on line " ++ line.repr
  | .strayElse line => "Ignoring [else] without [if] on line " ++ line.repr
  | .strayEndIf line => "Ignoring [endif] without [if] on line " ++ line.repr
  | .neverClosed condition => "[if " ++ condition ++ "] is never closed"
  | .configurationFound path => "Loading configuration from " ++ path
  | .configurationAbsent tried =>
    "No configuration file found (tried: " ++ ", ".intercalate tried ++ ")"
  | .answerNotYesNo answer key =>
    "Ignoring preloaded answer '" ++ answer ++ "' for '" ++ key ++ "': expected yes or no"
  | .answerNotBoolean answer key =>
    "Ignoring preloaded answer " ++ answer ++ " for '" ++ key ++ "': expected a boolean"
  | .flagUndeclared key => "Flag '" ++ key ++ "' is not declared by the template"
  | .answerUndeclared key => "Preloaded answer '" ++ key ++ "' is not declared by the template"
  | .answersCollected answers => "Collected answers: " ++ answers
  | .ignoreFileAbsent => ".msgenignore does not exist"
  | .conditionUnreadable source condition =>
    source ++ ": condition '" ++ condition ++ "' cannot be parsed and is read as one flag name"
  | .lookupUndeclared source name =>
    source ++ ": flag '" ++ name ++ "' is not declared and is false"
  | .entryIgnored entry => "Skipping '" ++ entry ++ "': ignored"
  | .entryPathBroken entry rendered =>
    "Skipping '" ++ entry ++ "': rendered path '" ++ rendered ++ "' is empty or invalid"
  | .entryStarted entry target => "Processing '" ++ entry ++ "' into '" ++ target ++ "'"
  | .entryNotText entry => "'" ++ entry ++ "' is not UTF-8 text, copying as is"
  | .templateStarted path => "Processing template '" ++ path ++ "'"
  | .entrySkipped message | .entryFailed message => message

end Notice

/-- A question together with the answer it offers. -/
inductive Prompt where
  | text (question offered : String)
  | confirm (question : String) (offered : Bool)
  deriving DecidableEq

inductive Event where
  | lookup (name : String) (value : Bool)
  | notice (notice : Notice)
  | asked (prompt : Prompt)
  | printed (text : String)
  | complained (text : String)
  deriving DecidableEq

structure Recorded (α : Type) where
  value : α
  events : List Event

namespace Recorded

instance : Monad Recorded where
  pure a := ⟨a, []⟩
  bind x f :=
    let y := f x.value
    ⟨y.value, x.events ++ y.events⟩

variable {α β : Type}

@[simp] theorem value_pure (a : α) : (pure a : Recorded α).value = a := rfl

@[simp] theorem events_pure (a : α) : (pure a : Recorded α).events = [] := rfl

@[simp] theorem value_bind (x : Recorded α) (f : α → Recorded β) :
    (x >>= f).value = (f x.value).value := rfl

@[simp] theorem events_bind (x : Recorded α) (f : α → Recorded β) :
    (x >>= f).events = x.events ++ (f x.value).events := rfl

instance : LawfulMonad Recorded := LawfulMonad.mk' Recorded
  (by intro α x; cases x; simp [Functor.map])
  (by intro α β x f; simp [Bind.bind, Pure.pure])
  (by intro α β γ x f g; simp [Bind.bind, List.append_assoc])

end Recorded

def record (event : Event) : Recorded Unit := ⟨(), [event]⟩

def note (notice : Notice) : Recorded Unit := record (.notice notice)

end Scaffold
