import Scaffold.Text

/-!
The words of a condition. A lexeme is a parenthesis or a longest run of characters that are
neither blank nor a parenthesis, together with the blank gap before it; gaps and lexemes in
order are the whole text up to its last lexeme.
-/

namespace Scaffold.Condition

inductive Token where
  | and
  | or
  | not
  | opening
  | closing
  | word (text : String)
  deriving DecidableEq

namespace Token

/-- Keywords are whole words in any ASCII case. -/
def ofText (text : Text) : Token :=
  if text = ['('] then .opening
  else if text = [')'] then .closing
  else if text.sameLetters "and" then .and
  else if text.sameLetters "or" then .or
  else if text.sameLetters "not" then .not
  else .word (String.ofList text)

def display : Token → String
  | .and => "AND"
  | .or => "OR"
  | .not => "NOT"
  | .opening => "("
  | .closing => ")"
  | .word text => text

def isWord : Token → Bool
  | .word _ => true
  | _ => false

end Token

def isParenthesis (c : Char) : Bool := c == '(' || c == ')'

def isWordChar (c : Char) : Bool := !Text.isBlank c && !isParenthesis c

structure Lexeme where
  gap : Text
  text : Text
  deriving DecidableEq

def Lexeme.token (lexeme : Lexeme) : Token := Token.ofText lexeme.text

theorem length_dropWhile_le {α : Type} (p : α → Bool) (xs : List α) :
    (xs.dropWhile p).length ≤ xs.length :=
  (List.dropWhile_suffix p).length_le

def lexemes (cs : Text) : List Lexeme :=
  match _h : cs.dropWhile Text.isBlank with
  | [] => []
  | c :: rest =>
    let gap := cs.takeWhile Text.isBlank
    if isParenthesis c then ⟨gap, [c]⟩ :: lexemes rest
    else ⟨gap, c :: rest.takeWhile isWordChar⟩ :: lexemes (rest.dropWhile isWordChar)
termination_by cs.length
decreasing_by
  all_goals
    have whole := length_dropWhile_le Text.isBlank cs
    have tail := length_dropWhile_le isWordChar rest
    rw [_h] at whole
    simp only [List.length_cons] at whole
    omega

/-- A token and the bytes of the text it stands on. -/
structure Spanned where
  start : Nat
  stop : Nat
  token : Token
  deriving DecidableEq

/-- The lexemes of a text of which `start` bytes are read already, each with its place. -/
def placed (start : Nat) : List Lexeme → List Spanned
  | [] => []
  | lexeme :: rest =>
    let first := start + Text.width lexeme.gap
    let last := first + Text.width lexeme.text
    ⟨first, last, lexeme.token⟩ :: placed last rest

def tokens (text : String) : List Spanned := placed 0 (lexemes text.toList)

end Scaffold.Condition
