import Scaffold.Yaml.Cursor

/-!
Scalars: plain, quoted and block texts. A line end inside a plain or quoted scalar folds to a
space, or to the line ends that follow it. A block scalar keeps its line ends or folds those
between two lines that start without a blank.
-/

namespace Scaffold.Yaml

inductive Style where
  | plain
  | quoted
  | literal
  | folded
  deriving DecidableEq

/-- The blanks and line ends between two words of a scalar. -/
structure Gap where
  blanks : Text
  broken : Bool
  firstBreak : Text
  moreBreaks : Text
  deriving DecidableEq

namespace Gap

def empty : Gap := ⟨[], false, [], []⟩

/-- A line end that is escaped joins the lines without a space. -/
def escaped : Gap := ⟨[], true, [], []⟩

def isEmpty (g : Gap) : Bool := g.blanks.isEmpty && !g.broken

/-- Blanks count only as long as no line has ended. -/
def addBlank (g : Gap) (c : Char) : Gap :=
  if g.broken then g else { g with blanks := g.blanks ++ [c] }

def addBreak (g : Gap) (c : Char) : Gap :=
  if g.broken then { g with moreBreaks := g.moreBreaks ++ [c] }
  else { g with blanks := [], broken := true, firstBreak := [c] }

/-- What the gap is in the value of the scalar. -/
def folded (g : Gap) : Text :=
  if !g.broken then g.blanks
  else if g.firstBreak = ['\n'] then
    if g.moreBreaks.isEmpty then [' '] else g.moreBreaks
  else g.firstBreak ++ g.moreBreaks

end Gap

/-- The words of a scalar read so far, backwards, and the gap behind them. -/
structure Words where
  read : Text
  gap : Gap

namespace Words

def start : Words := ⟨[], .empty⟩

def push (w : Words) (c : Char) : Words := ⟨c :: (w.gap.folded.reverse ++ w.read), .empty⟩

def close (w : Words) : Text := (w.gap.folded.reverse ++ w.read).reverse

end Words

def hexNumber? (cs : Text) : Option Nat :=
  cs.foldlM (fun value c => (Text.hexDigit? c).map (value * 16 + ·)) 0

/-- The character that an escape of one letter stands for. -/
def escape? : Char → Option Char
  | '0' => some '\x00'
  | 'a' => some '\x07'
  | 'b' => some '\x08'
  | 't' => some '\t'
  | '\t' => some '\t'
  | 'n' => some '\n'
  | 'v' => some '\x0b'
  | 'f' => some '\x0c'
  | 'r' => some '\r'
  | 'e' => some '\x1b'
  | ' ' => some ' '
  | '"' => some '"'
  | '/' => some '/'
  | '\\' => some '\\'
  | 'N' => some '\x85'
  | '_' => some '\xa0'
  | 'L' => some '\u2028'
  | 'P' => some '\u2029'
  | _ => none

/-- The number of hexadecimal digits behind an escape letter. -/
def escapeWidth : Char → Nat
  | 'x' => 2
  | 'u' => 4
  | 'U' => 8
  | _ => 0

/-- The character with that code; surrogates have none. -/
def ofCode? (code : Nat) : Option Char :=
  if code.isValidChar then some (Char.ofNat code) else none

/-- The character that the text behind a backslash stands for, and the length of that text. -/
def escapedChar? : Text → Option (Char × Nat)
  | [] => none
  | letter :: rest =>
    let width := escapeWidth letter
    if width = 0 then (escape? letter).map fun c => (c, 1)
    else if rest.length < width then none
    else do
      let code ← hexNumber? (rest.take width)
      let c ← ofCode? code
      some (c, width + 1)

/-- Reads a double-quoted scalar behind its opening quote. -/
def doubleQuoted (w : Words) (line column : Nat) (cs : Text) : Option (Text × Cursor) :=
  match cs with
  | [] => none
  | c :: rest =>
    if column = 0 && atDocumentMark (c :: rest) then none
    else if isBlank c then doubleQuoted { w with gap := w.gap.addBlank c } line (column + 1) rest
    else if isBreak c then doubleQuoted { w with gap := w.gap.addBreak c } (line + 1) 0 rest
    else if c = '"' then some (w.close, ⟨line, column + 1, rest⟩)
    else if c = '\\' then
      if !rest.isEmpty && atLineEnd rest then
        doubleQuoted ⟨w.close.reverse, .escaped⟩ (line + 1) 0 (rest.drop 1)
      else
        match escapedChar? rest with
        | none => none
        | some (e, width) => doubleQuoted (w.push e) line (column + 1 + width) (rest.drop width)
    else doubleQuoted (w.push c) line (column + 1) rest
termination_by cs.length
decreasing_by all_goals simp only [List.length_cons, List.length_drop]; omega

/-- Reads a single-quoted scalar behind its opening quote; two quotes stand for one. -/
def singleQuoted (w : Words) (line column : Nat) : Text → Option (Text × Cursor)
  | [] => none
  | '\'' :: '\'' :: rest => singleQuoted (w.push '\'') line (column + 2) rest
  | c :: rest =>
    if column = 0 && atDocumentMark (c :: rest) then none
    else if isBlank c then singleQuoted { w with gap := w.gap.addBlank c } line (column + 1) rest
    else if isBreak c then singleQuoted { w with gap := w.gap.addBreak c } (line + 1) 0 rest
    else if c = '\'' then some (w.close, ⟨line, column + 1, rest⟩)
    else singleQuoted (w.push c) line (column + 1) rest

def isFlowMark (c : Char) : Bool :=
  c == ',' || c == '[' || c == ']' || c == '\x7b' || c == '\x7d'

/-- A plain scalar as far as it goes: its words, whether its last gap ends a line, and the
cursor behind that gap. -/
structure Plain where
  words : Text
  broken : Bool
  after : Cursor

def Words.plain (w : Words) (line column : Nat) (cs : Text) : Plain :=
  ⟨w.read.reverse, w.gap.broken, ⟨line, column, cs⟩⟩

/-- Reads a plain scalar whose lines are indented by `indent` columns at least. -/
def plain (inFlow : Bool) (indent : Nat) (w : Words) (line column : Nat) : Text → Option Plain
  | [] => some (w.plain line column [])
  | c :: rest =>
    let stop := some (w.plain line column (c :: rest))
    if isBlank c then
      if w.gap.broken && column < indent && c == '\t' then none
      else plain inFlow indent { w with gap := w.gap.addBlank c } line (column + 1) rest
    else if isBreak c then
      plain inFlow indent { w with gap := w.gap.addBreak c } (line + 1) 0 rest
    else if w.gap.broken && !inFlow && column < indent then stop
    else if !w.gap.isEmpty && (c == '#' || (column == 0 && atDocumentMark (c :: rest))) then stop
    else if c == ':' && atGap rest then stop
    else if inFlow && c == ':' && rest.head?.any (fun x => isFlowMark x || x == '?') then none
    else if inFlow && isFlowMark c then stop
    else plain inFlow indent (w.push c) line (column + 1) rest

/-- What happens to the line ends at the end of a block scalar. -/
inductive Chomping where
  | strip
  | clip
  | keep
  deriving DecidableEq

def chomping? : Char → Option Chomping
  | '-' => some .strip
  | '+' => some .keep
  | _ => none

def indentDigit? (c : Char) : Option Nat :=
  if c.isDigit then some (c.toNat - '0'.toNat) else none

/-- The chomping and the indentation digit behind `|` or `>`, in either order, and their
length; a zero digit is an error. -/
def blockHeader? (cs : Text) : Option (Chomping × Option Nat × Nat) :=
  let digit (c? : Option Char) : Option Nat := c?.bind indentDigit?
  let chomping (c? : Option Char) : Option Chomping := c?.bind chomping?
  let first := cs.head?
  let second := (cs.drop 1).head?
  let header :=
    match chomping first, digit first with
    | some chomp, _ =>
      match digit second with
      | some n => (chomp, some n, 2)
      | none => (chomp, none, 1)
    | none, some n =>
      match chomping second with
      | some chomp => (chomp, some n, 2)
      | none => (.clip, some n, 1)
    | none, none => (.clip, none, 0)
  if header.2.1 = some 0 then none else some header

/-- Line ends, the widest indentation before them or behind, and the cursor behind both. -/
structure Margin where
  breaks : Text
  widest : Nat
  after : Cursor

/-- Moves over empty lines and the indentation of the next line: `indent` columns, or all
spaces if the indentation is not known yet. -/
def margin? (indent : Option Nat) (breaks : Text) (widest line column : Nat) :
    Text → Option Margin
  | [] => some ⟨breaks, max widest column, ⟨line, column, []⟩⟩
  | c :: rest =>
    let inside := indent.all (column < ·)
    if c = ' ' && inside then margin? indent breaks widest line (column + 1) rest
    else if c = '\t' && inside then none
    else if isBreak c then
      margin? indent (breaks ++ [c]) (max widest column) (line + 1) 0 rest
    else some ⟨breaks, max widest column, ⟨line, column, c :: rest⟩⟩

/-- The value of a block scalar so far: the finished text, the line end behind it, and the
empty lines behind that. -/
structure Block where
  text : Text
  lineEnd : Text
  emptyLines : Text
  /-- The last line starts with a blank, which keeps the line ends around it. -/
  blankStart : Bool

namespace Block

/-- The line end before a line that starts as `next`. -/
def joint (b : Block) (style : Style) (next : Bool) : Text :=
  if style = .folded && b.lineEnd == ['\n'] && !b.blankStart && !next then
    if b.emptyLines.isEmpty then [' '] else []
  else b.lineEnd

/-- Reads lines while they stand at the given indentation. -/
def lines? (style : Style) (indent : Nat) : Nat → Block → Cursor → Option (Block × Cursor)
  | 0, b, c => some (b, c)
  | room + 1, b, c =>
    if c.column ≠ indent || c.rest.isEmpty then some (b, c)
    else do
      let blankStart := c.rest.head?.any isBlank
      let (content, afterLine) := c.span fun x => !isBreak x
      let text := b.text ++ b.joint style blankStart ++ b.emptyLines ++ content
      let next := afterLine.skipBreak
      let margin ← margin? (some indent) [] 0 next.line next.column next.rest
      lines? style indent room
        ⟨text, afterLine.rest.take 1, margin.breaks, blankStart⟩ margin.after

def chomp (b : Block) : Chomping → Text
  | .strip => b.text
  | .clip => b.text ++ b.lineEnd
  | .keep => b.text ++ b.lineEnd ++ b.emptyLines

end Block

/-- Reads a block scalar behind its `|` or `>`. The indentation around it is that of the
enclosing collection, which is negative outside of all. -/
def blockScalar? (style : Style) (around : Int) (c : Cursor) : Option (Text × Cursor) := do
  let (chomping, digit, width) ← blockHeader? c.rest
  let headerEnd ← (c.skip width).skipComment?
  let c := headerEnd.skipBreak
  let given := digit.map fun n => around.toNat + n
  let margin ← margin? given [] 0 c.line c.column c.rest
  let indent := given.getD (max margin.widest (max 1 (around + 1).toNat))
  let (block, after) ←
    Block.lines? style indent margin.after.rest.length ⟨[], [], margin.breaks, false⟩
      margin.after
  some (block.chomp chomping, after)

end Scaffold.Yaml
