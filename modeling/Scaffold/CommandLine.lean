import Scaffold.Answers.Given

/-!
The command line. An option takes the rest of its word as its value, or else the next word if
that does not start with a hyphen. A value is checked when the following option, switch or
plain word is met, or the end; the first problem in the order of the words counts, and the
missing template comes last.
-/

namespace Scaffold

/-- The arguments of a run. -/
structure Arguments where
  template : String
  output : Option String
  overrides : Overrides
  stdin : Bool
  yes : Bool
  force : Bool
  verbose : Bool
  deriving DecidableEq

namespace CommandLine

/-- Why the words are no arguments of a run. -/
inductive Fault where
  | badValue
  | unknown
  | repeated
  | unexpectedValue
  | missing
  | help
  | version
  deriving DecidableEq

/-- What takes a value; a plain word is the value of the output directory. -/
inductive Slot where
  | template
  | output
  | name
  | enable
  | disable
  deriving DecidableEq

inductive Switch where
  | stdin
  | yes
  | force
  | verbose
  | help
  | version
  deriving DecidableEq

inductive Flag where
  | slot (slot : Slot)
  | switch (switch : Switch)

def flags : List (Char × String × Flag) :=
  [('t', "template-path", .slot .template),
    ('n', "name", .slot .name),
    ('e', "enable", .slot .enable),
    ('d', "disable", .slot .disable),
    ('s', "stdin", .switch .stdin),
    ('y', "yes", .switch .yes),
    ('f', "force", .switch .force),
    ('v', "verbose", .switch .verbose),
    ('h', "help", .switch .help),
    ('V', "version", .switch .version)]

def short? (letter : Char) : Option Flag :=
  (flags.find? fun entry => entry.1 == letter).map fun entry => entry.2.2

def long? (word : Text) : Option Flag :=
  (flags.find? fun entry => entry.2.1.toList == word).map fun entry => entry.2.2

/-- The words read so far. A slot waits for its value, or has one that is not checked yet. -/
structure State where
  values : List (Slot × String)
  switches : List Switch
  pending : Option (Slot × Option String)
  /-- All words are plain behind a double hyphen. -/
  plainOnly : Bool

namespace State

def start : State := ⟨[], [], none, false⟩

def has (s : State) (slot : Slot) : Bool := s.values.any fun entry => entry.1 = slot

def isList : Slot → Bool
  | .enable | .disable => true
  | _ => false

def isPath : Slot → Bool
  | .template | .output => true
  | _ => false

def store (s : State) (slot : Slot) (value : String) : Except Fault State :=
  if s.has slot && !isList slot then .error .repeated
  else if isPath slot && value = "" then .error .badValue
  else .ok { s with values := s.values ++ [(slot, value)] }

/-- Checks the pending value. -/
def settle (s : State) : Except Fault State :=
  match s.pending with
  | none => .ok s
  | some (_, none) => .error .badValue
  | some (slot, some value) => { s with pending := none }.store slot value

def turnOn (s : State) (switch : Switch) : Except Fault State := do
  let s ← s.settle
  match switch with
  | .help => .error .help
  | .version => .error .version
  | _ =>
    if s.switches.contains switch then .error .repeated
    else .ok { s with switches := switch :: s.switches }

def await (s : State) (slot : Slot) (value : Option String) : Except Fault State := do
  let s ← s.settle
  .ok { s with pending := some (slot, value) }

/-- A value that is written in the word of its option is checked at once. -/
def assign (s : State) (slot : Slot) (value : String) : Except Fault State := do
  let s ← s.settle
  s.store slot value

def long (s : State) (word : Text) : Except Fault State :=
  let name := word.takeWhile (· ≠ '=')
  let value := word.dropWhile (· ≠ '=')
  match long? name, value with
  | none, _ => .error .unknown
  | some (.slot slot), [] => s.await slot none
  | some (.slot slot), _ :: value => s.assign slot (String.ofList value)
  | some (.switch switch), [] => s.turnOn switch
  | some (.switch _), _ :: _ => .error .unexpectedValue

/-- Switches may share a word; an option ends it. -/
def short (s : State) : Text → Except Fault State
  | [] => .ok s
  | letter :: rest =>
    match short? letter with
    | none => .error .unknown
    | some (.switch switch) =>
      match s.turnOn switch with
      | .error fault => .error fault
      | .ok s => short s rest
    | some (.slot slot) =>
      match rest with
      | [] => s.await slot none
      | '=' :: value => s.assign slot (String.ofList value)
      | value => s.assign slot (String.ofList value)

/-- The slot that takes the next plain word. -/
def waiting? (s : State) : Option Slot :=
  match s.pending with
  | some (slot, none) => if s.plainOnly then none else some slot
  | _ => none

def hasOutput (s : State) : Bool := s.has .output || s.pending.any fun entry => entry.1 = .output

def plain (s : State) (word : String) : Except Fault State :=
  match s.waiting? with
  | some slot => .ok { s with pending := some (slot, some word) }
  | none => if s.hasOutput then .error .unknown else s.await .output (some word)

def read (s : State) (word : String) : Except Fault State :=
  if s.plainOnly then s.plain word
  else
    match word.toList with
    | ['-', '-'] => .ok { s with plainOnly := true }
    | '-' :: '-' :: rest => s.long rest
    | ['-'] => s.plain word
    | '-' :: rest => s.short rest
    | _ => s.plain word

def lookup (s : State) (slot : Slot) : Option String := s.values.lookup slot

def all (s : State) (slot : Slot) : List String :=
  (s.values.filter fun entry => entry.1 = slot).map Prod.snd

def finish (s : State) : Except Fault Arguments := do
  let s ← s.settle
  match s.lookup .template with
  | none => .error .missing
  | some template =>
    .ok {
      template := template
      output := s.lookup .output
      overrides := ⟨s.lookup .name, s.all .enable, s.all .disable⟩
      stdin := s.switches.contains .stdin
      yes := s.switches.contains .yes
      force := s.switches.contains .force
      verbose := s.switches.contains .verbose }

end State

def parse (words : List String) : Except Fault Arguments := do
  let s ← words.foldlM State.read .start
  s.finish

end CommandLine

end Scaffold
