import Scaffold.Answers.Given
import Scaffold.ProjectName

/-!
The interview. What is given beforehand is not asked. A round asks for the name until the
reply is one, then for every open flag in the order of declaration, and at last whether all is
right; if it is not, the next round offers the answers of this one. Replies are taken from a
finite list, and a question that finds it empty fails.
-/

namespace Scaffold

inductive Reply where
  | text (value : String)
  | bool (value : Bool)
  | cancel
  | unusable
  deriving DecidableEq

namespace Reply

def truth : Reply → Except Error Bool
  | .bool value => .ok value
  | .cancel => .error .cancelled
  | _ => .error (.prompt .notBoolean)

def words : Reply → Except Error String
  | .text value => .ok value
  | .cancel => .error .cancelled
  | _ => .error (.prompt .notText)

end Reply

/-- What came of some questions, and the replies that are left. -/
structure Outcome (replies : List Reply) (α : Type) where
  result : Except Error α
  left : List Reply
  shorter : left.length ≤ replies.length

namespace Outcome

variable {α β : Type} {replies fewer : List Reply}

def of (replies : List Reply) (result : Except Error α) : Outcome replies α :=
  ⟨result, replies, Nat.le_refl _⟩

/-- The outcome after one reply was taken. -/
def taking (reply : Reply) (rest : List Reply) (result : Except Error α) :
    Outcome (reply :: rest) α :=
  ⟨result, rest, Nat.le_succ _⟩

def map (f : α → β) (o : Outcome replies α) : Outcome replies β :=
  ⟨o.result.map f, o.left, o.shorter⟩

/-- The same replies are taken, but to no avail. -/
def failed (o : Outcome replies α) (e : Error) : Outcome replies β :=
  ⟨.error e, o.left, o.shorter⟩

def within (o : Outcome fewer α) (h : fewer.length ≤ replies.length) : Outcome replies α :=
  ⟨o.result, o.left, Nat.le_trans o.shorter h⟩

end Outcome

/-- What is settled before the first question. -/
structure Interview where
  questionnaire : Questionnaire
  given : Given
  interactive : Bool
  /-- Why a question fails when no reply is left. -/
  spent : PromptFault

namespace Interview

def confirm (spent : PromptFault) (question : String) (offered : Bool) :
    (replies : List Reply) → Recorded (Outcome replies Bool)
  | [] => do
    record (.asked (.confirm question offered))
    pure (.of [] (.error (.prompt spent)))
  | reply :: rest => do
    record (.asked (.confirm question offered))
    pure (.taking reply rest reply.truth)

/-- Asks until the reply is a project name. -/
def askName (spent : PromptFault) (question offered : String) :
    (replies : List Reply) → Recorded (Outcome replies String)
  | [] => do
    record (.asked (.text question offered))
    pure (.of [] (.error (.prompt spent)))
  | reply :: rest => do
    record (.asked (.text question offered))
    match reply.words with
    | .error e => pure (.taking reply rest (.error e))
    | .ok value =>
      match ProjectName.read value with
      | .ok name => pure (.taking reply rest (.ok name))
      | .error e =>
        record (.complained (e.message ++ "\n"))
        let outcome ← askName spent question offered rest
        pure (outcome.within (Nat.le_succ _))

/-- A value together with whether anything had to be asked for it. -/
structure Collected (α : Type) where
  value : α
  asked : Bool

def collectName (i : Interview) (offered : String) (replies : List Reply) :
    Recorded (Outcome replies (Collected String)) :=
  match i.given.name? with
  | some name => pure (.of replies ((ProjectName.read name).map fun name => ⟨name, false⟩))
  | none =>
    if i.interactive then do
      let outcome ← askName i.spent i.questionnaire.name.help offered replies
      pure (outcome.map fun name => ⟨name, true⟩)
    else pure (.of replies ((ProjectName.read offered).map fun name => ⟨name, false⟩))

/-- Adds a flag in front of those collected behind it. -/
def addFlag (key : String) (value asked : Bool) (more : Collected (List (String × Bool))) :
    Collected (List (String × Bool)) :=
  ⟨(key, value) :: more.value, asked || more.asked⟩

def collectFlags (i : Interview) (offers : Table Bool) :
    List (String × FlagQuestion) → (replies : List Reply) →
      Recorded (Outcome replies (Collected (List (String × Bool))))
  | [], replies => pure (.of replies (.ok ⟨[], false⟩))
  | (key, question) :: rest, replies => do
    let offered := (offers.get? key).getD false
    match ← i.given.flag? key with
    | some value =>
      let more ← collectFlags i offers rest replies
      pure (more.map (addFlag key value false))
    | none =>
      if i.interactive then
        let answer ← confirm i.spent (question.prompt key) offered replies
        match answer.result with
        | .error e => pure (answer.failed e)
        | .ok value =>
          let more ← collectFlags i offers rest answer.left
          pure ((more.map (addFlag key value true)).within answer.shorter)
      else
        let more ← collectFlags i offers rest replies
        pure (more.map (addFlag key offered false))

/-- The flags that are given without being declared. -/
def undeclaredFlags (g : Given) : List String → Recorded (List (String × Bool))
  | [] => pure []
  | key :: rest => do
    let value ← g.flag? key
    let more ← undeclaredFlags g rest
    pure (value.toList.map (fun value => (key, value)) ++ more)

def collect (i : Interview) (offeredName : String) (offers : Table Bool)
    (replies : List Reply) : Recorded (Outcome replies (Collected Answers)) := do
  let name ← i.collectName offeredName replies
  match name.result with
  | .error e => pure (name.failed e)
  | .ok chosen =>
    let flags ← i.collectFlags offers i.questionnaire.flags.entries name.left
    match flags.result with
    | .error e => pure ((flags.failed e).within name.shorter)
    | .ok declared =>
      let more ← undeclaredFlags i.given (i.given.undeclaredKeys i.questionnaire)
      let answers : Answers := ⟨chosen.value, .ofList (declared.value ++ more)⟩
      note (.answersCollected answers.toJson.display)
      let outcome : Outcome flags.left (Collected Answers) :=
        .of flags.left (.ok ⟨answers, chosen.asked || declared.asked⟩)
      pure ((outcome.within flags.shorter).within name.shorter)

def confirmation : String := "All filled correctly?"

/-- Rounds until one is confirmed or nothing had to be asked. -/
def rounds (i : Interview) (offeredName : String) (offers : Table Bool)
    (replies : List Reply) : Recorded (Outcome replies Answers) := do
  let ⟨result, left, shorter⟩ ← i.collect offeredName offers replies
  match result with
  | .error e => pure ⟨.error e, left, shorter⟩
  | .ok ⟨answers, false⟩ => pure ⟨.ok answers, left, shorter⟩
  | .ok ⟨answers, true⟩ =>
    record (.printed ("\n" ++ answers.summary ++ "\n"))
    record (.asked (.confirm confirmation true))
    match left, shorter with
    | [], shorter => pure ⟨.error (.prompt i.spent), [], shorter⟩
    | reply :: rest, shorter =>
      have fewer : rest.length < replies.length := shorter
      match reply.truth with
      | .error e => pure ⟨.error e, rest, Nat.le_of_lt fewer⟩
      | .ok true => pure ⟨.ok answers, rest, Nat.le_of_lt fewer⟩
      | .ok false =>
        let next ← i.rounds answers.name (offers.extend answers.flags) rest
        pure (next.within (Nat.le_of_lt fewer))
termination_by replies.length

/-- The flags as the questionnaire offers them. -/
def firstOffers (q : Questionnaire) : Table Bool :=
  .ofList (q.flags.entries.map fun entry => (entry.1, entry.2.offered))

def run (i : Interview) (replies : List Reply) : Recorded (Outcome replies Answers) :=
  match i.given.overrides.conflict? with
  | some key => pure (.of replies (.error (.flagConflict key)))
  | none => do
    i.given.noteUndeclared i.questionnaire
    i.rounds (i.questionnaire.name.offered.getD "") (firstOffers i.questionnaire) replies

end Interview

end Scaffold
