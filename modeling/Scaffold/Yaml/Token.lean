import Scaffold.Yaml.Tag

/-!
The tokens of YAML text. Indentation opens and closes block collections. A token that may turn
out to be a key is remembered until the colon behind it is found: then the key mark, and the
start of a block mapping if one begins there, are put in front of it. Such a key stays within
its line and within 1024 columns.
-/

namespace Scaffold.Yaml

inductive Token where
  | directive (directive : Directive)
  | documentStart
  | documentEnd
  | streamEnd
  | blockSequenceStart
  | blockMappingStart
  | blockEnd
  | flowSequenceStart
  | flowSequenceEnd
  | flowMappingStart
  | flowMappingEnd
  | blockEntry
  | flowEntry
  | key
  | value
  | alias (name : String)
  | anchor (name : String)
  | tag (tag : WrittenTag)
  | scalar (style : Style) (text : Text)
  deriving DecidableEq

/-- A token that may be a key: its number among the tokens and its place. -/
structure KeyCandidate where
  number : Nat
  line : Nat
  column : Nat
  /-- At the indentation of its collection there has to be a key. -/
  required : Bool

def keyReach : Nat := 1024

/-- The tokens so far, the last one first, and what bears on the next. -/
structure Scanner where
  cursor : Cursor
  tokens : List Token
  /-- One for every open flow collection, innermost first, and one for the block context. -/
  candidates : List (Option KeyCandidate)
  indent : Int
  outerIndents : List Int
  keyAllowed : Bool

namespace Scanner

def start (text : Text) : Scanner where
  cursor := .start text
  tokens := []
  candidates := [none]
  indent := -1
  outerIndents := []
  keyAllowed := true

def inFlow (s : Scanner) : Bool := 1 < s.candidates.length

def emit (s : Scanner) (token : Token) : Scanner := { s with tokens := token :: s.tokens }

/-- Puts a token in front of the one with that number. -/
def insert (s : Scanner) (number : Nat) (token : Token) : Scanner :=
  let behind := s.tokens.length - number
  { s with tokens := s.tokens.take behind ++ token :: s.tokens.drop behind }

def moveTo (s : Scanner) (cursor : Cursor) : Scanner := { s with cursor := cursor }

/-- Moves over gaps and comments. A tab does not count as indentation where a key may stand. -/
def gapFrom (inFlow keyAllowed inComment : Bool) (line column : Nat) : Text → Bool × Cursor
  | [] => (keyAllowed, ⟨line, column, []⟩)
  | c :: rest =>
    if isBreak c then gapFrom inFlow (keyAllowed || !inFlow) false (line + 1) 0 rest
    else if inComment then gapFrom inFlow keyAllowed true line (column + 1) rest
    else if c = ' ' || (c = '\t' && (inFlow || !keyAllowed)) ||
        (c = byteOrderMark && column = 0) then
      gapFrom inFlow keyAllowed false line (column + 1) rest
    else if c = '#' then gapFrom inFlow keyAllowed true line (column + 1) rest
    else (keyAllowed, ⟨line, column, c :: rest⟩)

def skipGap (s : Scanner) : Scanner :=
  let (keyAllowed, cursor) :=
    gapFrom s.inFlow s.keyAllowed false s.cursor.line s.cursor.column s.cursor.rest
  { s with keyAllowed := keyAllowed, cursor := cursor }

def isStale (c : Cursor) (k : KeyCandidate) : Bool :=
  k.line < c.line || k.column + keyReach < c.column

/-- Drops a candidate that is out of reach; a required one is an error then. -/
def refresh? (c : Cursor) : Option KeyCandidate → Option (Option KeyCandidate)
  | none => some none
  | some k => if isStale c k then (if k.required then none else some none) else some (some k)

def dropStale? (s : Scanner) : Option Scanner := do
  let candidates ← s.candidates.mapM (refresh? s.cursor)
  some { s with candidates := candidates }

/-- Gives up the innermost candidate; a required one is an error. -/
def dropCandidate? (s : Scanner) : Option Scanner :=
  match s.candidates with
  | some k :: outer => if k.required then none else some { s with candidates := none :: outer }
  | _ => some s

/-- Remembers the token that comes next, where a key may stand. -/
def saveCandidate? (s : Scanner) : Option Scanner :=
  if !s.keyAllowed then some s
  else do
    let s ← s.dropCandidate?
    let k : KeyCandidate :=
      { number := s.tokens.length, line := s.cursor.line, column := s.cursor.column
        required := !s.inFlow && s.indent == s.cursor.column }
    some { s with candidates := some k :: s.candidates.drop 1 }

/-- Closes the block collections that are indented deeper. -/
def unroll (s : Scanner) (column : Int) : Scanner :=
  if s.inFlow then s
  else
    let rec go (indent : Int) (outer : List Int) (tokens : List Token) :
        Int × List Int × List Token :=
      match outer with
      | [] => (indent, [], tokens)
      | next :: rest =>
        if column < indent then go next rest (.blockEnd :: tokens) else (indent, outer, tokens)
    let (indent, outer, tokens) := go s.indent s.outerIndents s.tokens
    { s with indent := indent, outerIndents := outer, tokens := tokens }

/-- Opens a block collection in front of a token if it is indented deeper. -/
def roll (s : Scanner) (column number : Nat) (token : Token) : Scanner :=
  if s.inFlow || column ≤ s.indent then s
  else
    { s.insert number token with indent := column, outerIndents := s.indent :: s.outerIndents }

def rollHere (s : Scanner) (token : Token) : Scanner :=
  s.roll s.cursor.column s.tokens.length token

/-- Emits a token of so many characters. -/
def take (s : Scanner) (count : Nat) (token : Token) : Scanner :=
  (s.moveTo (s.cursor.skip count)).emit token

def allowKey (s : Scanner) (allowed : Bool) : Scanner := { s with keyAllowed := allowed }

def streamEnd? (s : Scanner) : Option Scanner := do
  let s ← (s.unroll (-1)).dropCandidate?
  some (s.emit .streamEnd)

def documentMark? (s : Scanner) (token : Token) : Option Scanner := do
  let s ← (s.unroll (-1)).dropCandidate?
  some ((s.allowKey false).take 3 token)

def directive? (s : Scanner) : Option Scanner := do
  let s ← (s.unroll (-1)).dropCandidate?
  let (directive, after) ← s.cursor.directive?
  some (((s.allowKey false).moveTo after).emit (.directive directive))

def openFlow? (s : Scanner) (token : Token) : Option Scanner := do
  let s ← s.saveCandidate?
  some ({ s with candidates := none :: s.candidates, keyAllowed := true }.take 1 token)

def closeFlow? (s : Scanner) (token : Token) : Option Scanner := do
  let s ← s.dropCandidate?
  let candidates := if s.inFlow then s.candidates.drop 1 else s.candidates
  some ({ s with candidates := candidates, keyAllowed := false }.take 1 token)

def flowEntry? (s : Scanner) : Option Scanner := do
  let s ← s.dropCandidate?
  some ((s.allowKey true).take 1 .flowEntry)

def blockEntry? (s : Scanner) : Option Scanner := do
  if !s.inFlow && !s.keyAllowed then none
  else
    let s ← (s.rollHere .blockSequenceStart).dropCandidate?
    some ((s.allowKey true).take 1 .blockEntry)

def key? (s : Scanner) : Option Scanner := do
  if !s.inFlow && !s.keyAllowed then none
  else
    let s ← (s.rollHere .blockMappingStart).dropCandidate?
    some ((s.allowKey !s.inFlow).take 1 .key)

def value? (s : Scanner) : Option Scanner :=
  match s.candidates with
  | some k :: outer =>
    let s := (s.insert k.number .key).roll k.column k.number .blockMappingStart
    some ({ s with candidates := none :: outer, keyAllowed := false }.take 1 .value)
  | _ =>
    if !s.inFlow && !s.keyAllowed then none
    else
      let s := s.rollHere .blockMappingStart
      some ((s.allowKey !s.inFlow).take 1 .value)

/-- Emits a token that may be a key. -/
def keyLike? (s : Scanner) (read? : Cursor → Option (Token × Cursor)) : Option Scanner := do
  let s ← s.saveCandidate?
  let (token, after) ← read? s.cursor
  some (((s.allowKey false).moveTo after).emit token)

def blockScalar? (s : Scanner) (style : Style) : Option Scanner := do
  let s ← s.dropCandidate?
  let (text, after) ← Yaml.blockScalar? style s.indent (s.cursor.skip 1)
  some (((s.allowKey true).moveTo after).emit (.scalar style text))

/-- A line end behind a plain scalar is read with it, so a key may follow. -/
def plainScalar? (s : Scanner) : Option Scanner := do
  let s ← s.saveCandidate?
  let found ← plain s.inFlow (s.indent + 1).toNat .start s.cursor.line s.cursor.column
    s.cursor.rest
  some (((s.allowKey found.broken).moveTo found.after).emit (.scalar .plain found.words))

def quotedToken? (read : Words → Nat → Nat → Text → Option (Text × Cursor)) (c : Cursor) :
    Option (Token × Cursor) :=
  (read .start c.line (c.column + 1) (c.rest.drop 1)).map fun (text, after) =>
    (.scalar .quoted text, after)

/-- Characters that begin no plain scalar on their own. -/
def isIndicator (c : Char) : Bool :=
  "-?:,[]\x7b\x7d#&*!|>'\"%@`".toList.contains c

def startsPlain (inFlow : Bool) (c : Char) (rest : Text) : Bool :=
  !(isGap c || isIndicator c) || (c == '-' && !rest.head?.any isBlank) ||
    (!inFlow && (c == '?' || c == ':') && !atGap rest)

/-- Reads the token at the cursor, which is at no gap. -/
def token? (s : Scanner) (c : Char) (rest : Text) : Option Scanner :=
  let column := s.cursor.column
  if column = 0 && c = '%' then s.directive?
  else if column = 0 && atDocumentMark (c :: rest) then
    s.documentMark? (if c = '-' then .documentStart else .documentEnd)
  else if c = '[' then s.openFlow? .flowSequenceStart
  else if c = '\x7b' then s.openFlow? .flowMappingStart
  else if c = ']' then s.closeFlow? .flowSequenceEnd
  else if c = '\x7d' then s.closeFlow? .flowMappingEnd
  else if c = ',' then s.flowEntry?
  else if c = '-' && atGap rest then s.blockEntry?
  else if c = '?' && (s.inFlow || atGap rest) then s.key?
  else if c = ':' && (s.inFlow || atGap rest) then s.value?
  else if c = '*' then
    s.keyLike? fun c => c.anchorName?.map fun (name, after) => (.alias name, after)
  else if c = '&' then
    s.keyLike? fun c => c.anchorName?.map fun (name, after) => (.anchor name, after)
  else if c = '!' then
    s.keyLike? fun c => (c.tag? s.inFlow).map fun (tag, after) => (.tag tag, after)
  else if c = '|' && !s.inFlow then s.blockScalar? .literal
  else if c = '>' && !s.inFlow then s.blockScalar? .folded
  else if c = '\'' then s.keyLike? (quotedToken? singleQuoted)
  else if c = '"' then s.keyLike? (quotedToken? doubleQuoted)
  else if startsPlain s.inFlow c rest then s.plainScalar?
  else none

/-- Reads on to the end of the text; every token takes a character at least. -/
def run? : Nat → Scanner → Option Scanner
  | room, s => do
    let s ← s.skipGap.dropStale?
    match s.cursor.rest with
    | [] => s.streamEnd?
    | c :: rest =>
      match room with
      | 0 => none
      | room + 1 =>
        let s ← (s.unroll s.cursor.column).token? c rest
        run? room s

end Scanner

/-- The tokens of a text, none if it is no YAML. -/
def tokens? (text : String) : Option (List Token) :=
  let cs := text.toList
  if cs.all isAllowed then do
    let s ← Scanner.run? cs.length (.start (unifyLineEnds cs))
    some s.tokens.reverse
  else none

end Scaffold.Yaml
