import Scaffold.Text

/-!
A place in YAML text. Line ends are unified before reading: a carriage return with or without
a line feed and the next-line character all become a line feed. What is left to end a line is
a line feed, a line separator or a paragraph separator.
-/

namespace Scaffold.Yaml

/-- Control characters do not occur in YAML, apart from tabs and line ends. -/
def isAllowed (c : Char) : Bool :=
  let n := c.toNat
  n == 0x09 || n == 0x0a || n == 0x0d || (0x20 ≤ n && n ≤ 0x7e) || n == 0x85 ||
    (0xa0 ≤ n && n ≤ 0xd7ff) || (0xe000 ≤ n && n ≤ 0xfffd) || 0x10000 ≤ n

def unifyLineEnds : Text → Text
  | [] => []
  | '\r' :: '\n' :: rest => '\n' :: unifyLineEnds rest
  | c :: rest => (if c == '\r' || c == '\x85' then '\n' else c) :: unifyLineEnds rest

def isBreak (c : Char) : Bool := c == '\n' || c == '\u2028' || c == '\u2029'

def isBlank (c : Char) : Bool := c == ' ' || c == '\t'

def isGap (c : Char) : Bool := isBlank c || isBreak c

/-- The characters of names in anchors, tags and directives. -/
def isNameChar (c : Char) : Bool := c.isAlphanum || c == '_' || c == '-'

def byteOrderMark : Char := '\ufeff'

/-- Whether the text ends here or goes on with a gap. -/
def atGap : Text → Bool
  | [] => true
  | c :: _ => isGap c

def atLineEnd : Text → Bool
  | [] => true
  | c :: _ => isBreak c

/-- `---` or `...` on its own, which at the start of a line bounds a document. -/
def atDocumentMark (cs : Text) : Bool :=
  (cs.take 3 == ['-', '-', '-'] || cs.take 3 == ['.', '.', '.']) && atGap (cs.drop 3)

structure Cursor where
  line : Nat
  column : Nat
  rest : Text
  deriving DecidableEq

namespace Cursor

def start (text : Text) : Cursor := ⟨0, 0, text⟩

/-- Moves over characters within the line. -/
def skip (c : Cursor) (count : Nat) : Cursor := ⟨c.line, c.column + count, c.rest.drop count⟩

/-- The characters of a class that excludes line ends, and the cursor behind them. -/
def span (c : Cursor) (p : Char → Bool) : Text × Cursor :=
  let found := c.rest.takeWhile p
  (found, c.skip found.length)

def skipBlanks (c : Cursor) : Cursor := (c.span isBlank).2

/-- Moves to the end of the line over blanks and a comment. -/
def skipComment? (c : Cursor) : Option Cursor :=
  let c := c.skipBlanks
  let c := if c.rest.head? = some '#' then (c.span fun x => !isBreak x).2 else c
  if atLineEnd c.rest then some c else none

/-- Moves over the line end, if there is one. -/
def skipBreak (c : Cursor) : Cursor :=
  match c.rest with
  | x :: rest => if isBreak x then ⟨c.line + 1, 0, rest⟩ else c
  | [] => c

end Cursor

end Scaffold.Yaml
