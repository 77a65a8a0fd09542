import Scaffold.Yaml.Scalar

/-!
Names of anchors, tags and directives. A tag is written with a handle, which a directive may
define, or in full between angle brackets. Octets that are escaped with a percent sign are
kept as the characters of the same code.
-/

namespace Scaffold.Yaml

/-- A tag as it is written: the handle and the rest. -/
structure WrittenTag where
  handle : Text
  suffix : Text
  deriving DecidableEq

inductive Directive where
  | version (major minor : Nat)
  | tag (handle start : Text)
  deriving DecidableEq

def isUriMark (c : Char) : Bool := ";/?:@&=+$.%!~*'()".toList.contains c

/-- Between angle brackets and in directives a comma and square brackets are allowed too. -/
def isUriChar (wide : Bool) (c : Char) : Bool :=
  isNameChar c || isUriMark c || (wide && (c == ',' || c == '[' || c == ']'))

/-- The number of octets of a character in UTF-8, by the first of them. -/
def octetCount? (octet : Nat) : Option Nat :=
  if octet < 0x80 then some 1
  else if 0xc0 ≤ octet && octet < 0xe0 then some 2
  else if 0xe0 ≤ octet && octet < 0xf0 then some 3
  else if 0xf0 ≤ octet && octet < 0xf8 then some 4
  else none

/-- Decodes escaped octets. Those of one character follow each other; `due` of them are to
come. -/
def unescapeUri? (due : Nat) : Text → Option Text
  | [] => if due = 0 then some [] else none
  | '%' :: high :: low :: rest => do
    let octet := (← Text.hexDigit? high) * 16 + (← Text.hexDigit? low)
    if due = 0 then do
      let count ← octetCount? octet
      let more ← unescapeUri? (count - 1) rest
      some (Char.ofNat octet :: more)
    else if 0x80 ≤ octet && octet < 0xc0 then do
      let more ← unescapeUri? (due - 1) rest
      some (Char.ofNat octet :: more)
    else none
  | c :: rest =>
    if due = 0 && c != '%' then (unescapeUri? 0 rest).map (c :: ·) else none

namespace Cursor

/-- Reads at least one character of a URI. -/
def uri? (c : Cursor) (wide : Bool) : Option (Text × Cursor) := do
  let (found, after) := c.span (isUriChar wide)
  if found.isEmpty then none
  else
    let decoded ← unescapeUri? 0 found
    some (decoded, after)

/-- Reads an exclamation mark, a name and perhaps another mark. -/
def tagHandle? (c : Cursor) : Option (Text × Cursor) :=
  if c.rest.head? = some '!' then
    let (name, after) := (c.skip 1).span isNameChar
    if after.rest.head? = some '!' then some ('!' :: name ++ ['!'], after.skip 1)
    else some ('!' :: name, after)
  else none

/-- A tag ends at a gap, inside flow collections also at a comma. -/
def endsTag (c : Cursor) (inFlow : Bool) : Bool :=
  atGap c.rest || (inFlow && c.rest.head? = some ',')

def fullTag? (c : Cursor) : Option (WrittenTag × Cursor) := do
  let (uri, after) ← (c.skip 2).uri? true
  if after.rest.head? = some '>' then some (⟨[], uri⟩, after.skip 1) else none

def shortTag? (c : Cursor) : Option (WrittenTag × Cursor) := do
  let (handle, after) ← c.tagHandle?
  if 2 ≤ handle.length && handle.getLast? = some '!' then
    let (suffix, after) ← after.uri? false
    some (⟨handle, suffix⟩, after)
  else
    let (found, after) := after.span (isUriChar false)
    let more ← unescapeUri? 0 found
    let suffix := handle.drop 1 ++ more
    some (if suffix.isEmpty then ⟨[], ['!']⟩ else ⟨['!'], suffix⟩, after)

def tag? (c : Cursor) (inFlow : Bool) : Option (WrittenTag × Cursor) := do
  let (tag, after) ← if (c.rest.drop 1).head? = some '<' then c.fullTag? else c.shortTag?
  if after.endsTag inFlow then some (tag, after) else none

/-- Reads the name of an anchor behind its sign. -/
def anchorName? (c : Cursor) : Option (String × Cursor) :=
  let (name, after) := (c.skip 1).span isNameChar
  let ends := atGap after.rest || after.rest.head?.any ("?:,]\x7d%@`".toList.contains ·)
  if name.isEmpty || !ends then none else some (String.ofList name, after)

/-- Reads a number of one to nine digits. -/
def versionNumber? (c : Cursor) : Option (Nat × Cursor) :=
  let (digits, after) := c.span Char.isDigit
  if digits.isEmpty || 9 < digits.length then none
  else some (digits.foldl (fun n d => n * 10 + (d.toNat - '0'.toNat)) 0, after)

def versionDirective? (c : Cursor) : Option (Directive × Cursor) := do
  let (major, after) ← c.skipBlanks.versionNumber?
  if after.rest.head? = some '.' then
    let (minor, after) ← (after.skip 1).versionNumber?
    some (.version major minor, after)
  else none

def tagDirective? (c : Cursor) : Option (Directive × Cursor) := do
  let (handle, after) ← c.skipBlanks.tagHandle?
  if handle.getLast? ≠ some '!' then none
  else if !after.rest.head?.any isBlank then none
  else
    let (start, after) ← after.skipBlanks.uri? true
    if atGap after.rest then some (.tag handle start, after) else none

/-- Reads a directive behind its percent sign, to the end of its line. -/
def directive? (c : Cursor) : Option (Directive × Cursor) := do
  let (name, after) := (c.skip 1).span isNameChar
  if !atGap after.rest then none
  else
    let (directive, after) ←
      if name = "YAML".toList then after.versionDirective?
      else if name = "TAG".toList then after.tagDirective?
      else none
    let lineEnd ← after.skipComment?
    some (directive, lineEnd.skipBreak)

end Cursor

end Scaffold.Yaml
