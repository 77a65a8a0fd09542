import Scaffold.Condition.Basic
import Scaffold.Condition.Lexeme

/-!
Reading a condition. `NOT` binds closer than `AND`, `AND` closer than `OR`, and both joins
associate to the left. Adjacent words are one flag, an operand may be left out, and a
parenthesis may stay open at the end of the text. Nothing else may follow a complete
condition, and parentheses and `NOT`s nest 128 deep at most.
-/

namespace Scaffold.Condition

inductive ParseError where
  | empty
  | trailing (token : Token)
  | tooDeep
  deriving DecidableEq

def ParseError.message : ParseError → String
  | .empty => "empty condition"
  | .trailing token => "unexpected '" ++ token.display ++ "' after a complete condition"
  | .tooDeep => "condition is nested too deeply"

def maxDepth : Nat := 128

/-- What is to be read next: a condition, or what may still follow a left side. -/
inductive Goal where
  | disjunction
  | moreDisjuncts (lhs : Condition)
  | conjunction
  | moreConjuncts (lhs : Condition)
  | operand

def Goal.rank : Goal → Nat
  | .disjunction => 4
  | .moreDisjuncts _ => 3
  | .conjunction => 2
  | .moreConjuncts _ => 1
  | .operand => 0

/-- A condition read from the front of `input` and the lexemes behind it. -/
structure Parsed (input : List Lexeme) where
  tree : Condition
  rest : List Lexeme
  shorter : rest.length ≤ input.length

def Parsed.within {inner outer : List Lexeme} (p : Parsed inner)
    (h : inner.length ≤ outer.length) : Parsed outer :=
  ⟨p.tree, p.rest, Nat.le_trans p.shorter h⟩

/-- The name of a flag that is written as a run of words: their text with the gaps between. -/
def flagName : List Lexeme → String
  | [] => ""
  | first :: more => String.ofList (first.text ++ more.flatMap fun l => l.gap ++ l.text)

/-- Drops the parenthesis that closes the condition just read, if it stands there. -/
def afterClosing : List Lexeme → List Lexeme
  | [] => []
  | lexeme :: rest => if lexeme.token = .closing then rest else lexeme :: rest

theorem length_afterClosing_le (input : List Lexeme) :
    (afterClosing input).length ≤ input.length := by
  cases input with
  | nil => exact Nat.le_refl _
  | cons lexeme rest =>
    rw [afterClosing]
    split
    · exact Nat.le_succ _
    · exact Nat.le_refl _

def isWordLexeme (lexeme : Lexeme) : Bool := lexeme.token.isWord

/-- Reads `goal` inside `depth` enclosing parentheses and `NOT`s. -/
def parseGoal (goal : Goal) (depth : Nat) (input : List Lexeme) :
    Except ParseError (Parsed input) :=
  match goal with
  | .disjunction =>
    match parseGoal .conjunction depth input with
    | .error e => .error e
    | .ok lhs =>
      match parseGoal (.moreDisjuncts lhs.tree) depth lhs.rest with
      | .error e => .error e
      | .ok whole => .ok (whole.within lhs.shorter)
  | .moreDisjuncts lhs =>
    match input with
    | [] => .ok ⟨lhs, [], Nat.le_refl _⟩
    | lexeme :: rest =>
      if lexeme.token = .or then
        match parseGoal .conjunction depth rest with
        | .error e => .error e
        | .ok rhs =>
          match parseGoal (.moreDisjuncts (.or lhs rhs.tree)) depth rhs.rest with
          | .error e => .error e
          | .ok whole => .ok (whole.within (Nat.le_succ_of_le rhs.shorter))
      else .ok ⟨lhs, lexeme :: rest, Nat.le_refl _⟩
  | .conjunction =>
    match parseGoal .operand depth input with
    | .error e => .error e
    | .ok lhs =>
      match parseGoal (.moreConjuncts lhs.tree) depth lhs.rest with
      | .error e => .error e
      | .ok whole => .ok (whole.within lhs.shorter)
  | .moreConjuncts lhs =>
    match input with
    | [] => .ok ⟨lhs, [], Nat.le_refl _⟩
    | lexeme :: rest =>
      if lexeme.token = .and then
        match parseGoal .operand depth rest with
        | .error e => .error e
        | .ok rhs =>
          match parseGoal (.moreConjuncts (.and lhs rhs.tree)) depth rhs.rest with
          | .error e => .error e
          | .ok whole => .ok (whole.within (Nat.le_succ_of_le rhs.shorter))
      else .ok ⟨lhs, lexeme :: rest, Nat.le_refl _⟩
  | .operand =>
    match input with
    | [] => .ok ⟨.missing, [], Nat.le_refl _⟩
    | lexeme :: rest =>
      match lexeme.token with
      | .not =>
        if maxDepth ≤ depth then .error .tooDeep
        else
          match parseGoal .operand (depth + 1) rest with
          | .error e => .error e
          | .ok inner => .ok ⟨.not inner.tree, inner.rest, Nat.le_succ_of_le inner.shorter⟩
      | .opening =>
        if maxDepth ≤ depth then .error .tooDeep
        else
          match parseGoal .disjunction (depth + 1) rest with
          | .error e => .error e
          | .ok inner =>
            .ok ⟨inner.tree, afterClosing inner.rest,
              Nat.le_succ_of_le (Nat.le_trans (length_afterClosing_le _) inner.shorter)⟩
      | .word _ =>
        .ok ⟨.flag (flagName (lexeme :: rest.takeWhile isWordLexeme)),
          rest.dropWhile isWordLexeme,
          Nat.le_succ_of_le (length_dropWhile_le isWordLexeme rest)⟩
      | _ => .ok ⟨.missing, lexeme :: rest, Nat.le_refl _⟩
termination_by 5 * input.length + goal.rank
decreasing_by
  all_goals simp only [Goal.rank, List.length_cons]
  all_goals try have bound := (‹Parsed _›).shorter
  all_goals omega

def parseLexemes (input : List Lexeme) : Except ParseError Condition :=
  if input.isEmpty then .error .empty
  else
    match parseGoal .disjunction 0 input with
    | .error e => .error e
    | .ok whole =>
      match whole.rest with
      | [] => .ok whole.tree
      | lexeme :: _ => .error (.trailing lexeme.token)

def parse (text : String) : Except ParseError Condition := parseLexemes (lexemes text.toList)

/-- The parentheses that are still open at the end of a text that was read without error:
every closing one has its opening one then. -/
def openAtEnd (text : String) : Nat :=
  let tokens := (lexemes text.toList).map Lexeme.token
  tokens.count .opening - tokens.count .closing

/-- Reading a condition, with a notice for every parenthesis closed at the end. -/
def read (text : String) : Recorded (Except ParseError Condition) :=
  match parse text with
  | .error e => pure (.error e)
  | .ok c => ⟨.ok c, List.replicate (openAtEnd text) (.notice .parenthesisClosedAtEnd)⟩

/-- Decides the condition in `text`. An empty text does not hold; a text that is no condition
is the name of one flag. -/
def evaluate (flags : FlagSet) (text : String) : Recorded Bool := do
  match ← read text with
  | .ok c => c.decide flags
  | .error .empty => pure false
  | .error e =>
    note (.conditionReadAsName (trimmed text) e.message)
    flags.lookup (trimmed text)

end Scaffold.Condition
