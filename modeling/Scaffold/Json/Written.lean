import Scaffold.Json.Basic
import Scaffold.Text

/-!
JSON as it is written, before its strings and numbers are given a meaning. A text can be well
formed and still have no value: a lone surrogate escape, a number too large for a double, or
values nested too deep.
-/

namespace Scaffold.Json

/-- A character of a string, or a code unit written as `\u` and four hexadecimal digits. -/
inductive Unit16 where
  | char (c : Char)
  | unit (value : Nat)
  deriving DecidableEq

structure Numeral where
  negative : Bool
  whole : Text
  fraction : Option Text
  exponent : Option (Bool × Text)
  deriving DecidableEq

inductive Written where
  | null
  | bool (value : Bool)
  | number (numeral : Numeral)
  | string (units : List Unit16)
  | array (items : List Written)
  | object (members : List (List Unit16 × Written))

namespace Written

def isSpace (c : Char) : Bool := c == ' ' || c == '\n' || c == '\t' || c == '\r'

def skipSpace (cs : Text) : Text := cs.dropWhile isSpace

/-- What a backslash and the character behind it stand for. -/
def escape? : Char → Option Char
  | '"' => some '"'
  | '\\' => some '\\'
  | '/' => some '/'
  | 'b' => some '\x08'
  | 'f' => some '\x0c'
  | 'n' => some '\n'
  | 'r' => some '\r'
  | 't' => some '\t'
  | _ => none

/-- The rest of a string whose opening quote is read. -/
def stringBody : Text → Option (List Unit16 × Text)
  | [] => none
  | '"' :: rest => some ([], rest)
  | '\\' :: 'u' :: a :: b :: c :: d :: rest => do
    let value := (((← Text.hexDigit? a) * 16 + (← Text.hexDigit? b)) * 16 + (← Text.hexDigit? c)) * 16 +
      (← Text.hexDigit? d)
    let (units, after) ← stringBody rest
    some (.unit value :: units, after)
  | '\\' :: e :: rest => do
    let c ← escape? e
    let (units, after) ← stringBody rest
    some (.char c :: units, after)
  | c :: rest =>
    if c.toNat < 0x20 || c == '\\' then none
    else do
      let (units, after) ← stringBody rest
      some (.char c :: units, after)

def digits (cs : Text) : Text × Text := (cs.takeWhile Char.isDigit, cs.dropWhile Char.isDigit)

/-- At least one digit. -/
def someDigits? (cs : Text) : Option (Text × Text) :=
  if (digits cs).1.isEmpty then none else some (digits cs)

/-- A zero begins no longer number. -/
def wholePart? : Text → Option (Text × Text)
  | '0' :: rest =>
    match rest with
    | c :: _ => if c.isDigit then none else some (['0'], rest)
    | [] => some (['0'], [])
  | cs => someDigits? cs

def fractionPart? : Text → Option (Option Text × Text)
  | '.' :: rest => do
    let (ds, after) ← someDigits? rest
    some (some ds, after)
  | cs => some (none, cs)

def exponentDigits? : Text → Option ((Bool × Text) × Text)
  | '-' :: rest => do
    let (ds, after) ← someDigits? rest
    some ((true, ds), after)
  | '+' :: rest => do
    let (ds, after) ← someDigits? rest
    some ((false, ds), after)
  | cs => do
    let (ds, after) ← someDigits? cs
    some ((false, ds), after)

def exponentPart? : Text → Option (Option (Bool × Text) × Text)
  | [] => some (none, [])
  | c :: rest =>
    if c == 'e' || c == 'E' then do
      let (exponent, after) ← exponentDigits? rest
      some (some exponent, after)
    else some (none, c :: rest)

def numeral? (negative : Bool) (cs : Text) : Option (Numeral × Text) := do
  let (whole, cs) ← wholePart? cs
  let (fraction, cs) ← fractionPart? cs
  let (exponent, cs) ← exponentPart? cs
  some (⟨negative, whole, fraction, exponent⟩, cs)

def keyword? (word : String) (value : Written) (cs : Text) : Option (Written × Text) :=
  if word.toList.isPrefixOf cs then some (value, cs.drop word.length) else none

mutual

/-- Reads one value; the first number bounds the nesting and the number of values. -/
def value? : Nat → Text → Option (Written × Text)
  | 0, _ => none
  | room + 1, cs =>
    match skipSpace cs with
    | [] => none
    | '"' :: rest => (stringBody rest).map fun (units, after) => (.string units, after)
    | '[' :: rest =>
      match skipSpace rest with
      | ']' :: after => some (.array [], after)
      | first => (items? room first).map fun (items, after) => (.array items, after)
    | '\x7b' :: rest =>
      match skipSpace rest with
      | '\x7d' :: after => some (.object [], after)
      | first => (members? room first).map fun (members, after) => (.object members, after)
    | '-' :: rest => (numeral? true rest).map fun (n, after) => (.number n, after)
    | c :: rest =>
      if c.isDigit then (numeral? false (c :: rest)).map fun (n, after) => (.number n, after)
      else
        (keyword? "null" .null (c :: rest)).or
          ((keyword? "true" (.bool true) (c :: rest)).or
            (keyword? "false" (.bool false) (c :: rest)))

def items? : Nat → Text → Option (List Written × Text)
  | 0, _ => none
  | room + 1, cs => do
    let (item, cs) ← value? room cs
    match skipSpace cs with
    | ',' :: rest => do
      let (items, after) ← items? room rest
      some (item :: items, after)
    | ']' :: after => some ([item], after)
    | _ => none

def members? : Nat → Text → Option (List (List Unit16 × Written) × Text)
  | 0, _ => none
  | room + 1, cs =>
    match skipSpace cs with
    | '"' :: rest => do
      let (name, cs) ← stringBody rest
      match skipSpace cs with
      | ':' :: cs => do
        let (value, cs) ← value? room cs
        match skipSpace cs with
        | ',' :: rest => do
          let (members, after) ← members? room rest
          some ((name, value) :: members, after)
        | '\x7d' :: after => some ([(name, value)], after)
        | _ => none
      | _ => none
    | _ => none

end

/-- Reads a text that holds one value and blank space. -/
def parse? (text : String) : Option Written :=
  match value? (2 * text.length + 2) text.toList with
  | some (value, rest) => if (skipSpace rest).isEmpty then some value else none
  | none => none

end Written

namespace Unit16

def isHigh (unit : Nat) : Bool := 0xd800 ≤ unit && unit < 0xdc00

def isLow (unit : Nat) : Bool := 0xdc00 ≤ unit && unit < 0xe000

/-- Two surrogate units next to each other are one character; a lone one has no meaning. -/
def decode? : List Unit16 → Option Text
  | [] => some []
  | .char c :: rest => (decode? rest).map (c :: ·)
  | .unit high :: .unit low :: rest =>
    if isHigh high then
      if isLow low then
        (decode? rest).map (Char.ofNat (0x10000 + (high - 0xd800) * 0x400 + (low - 0xdc00)) :: ·)
      else none
    else if isLow high then none
    else (decode? (.unit low :: rest)).map (Char.ofNat high :: ·)
  | .unit value :: rest =>
    if isHigh value || isLow value then none else (decode? rest).map (Char.ofNat value :: ·)

def string? (units : List Unit16) : Option String := (decode? units).map String.ofList

end Unit16

namespace Numeral

def greatestWhole : Nat := Nat.pow 2 64 - 1

def digit (c : Char) : Nat := c.toNat - '0'.toNat

/-- Collects digits as long as the number stays within 64 bits; the digits left over. -/
def collect (value : Nat) : Text → Nat × Text
  | [] => (value, [])
  | c :: rest =>
    if greatestWhole < value * 10 + digit c then (value, c :: rest)
    else collect (value * 10 + digit c) rest

def exponentValue (n : Numeral) : Int :=
  match n.exponent with
  | none => 0
  | some (negative, ds) =>
    let size := ds.foldl (fun value c => value * 10 + digit c) 0
    if negative then -(size : Int) else size

/-- The value as a double: digits past 64 bits only count as places. -/
def double? (n : Numeral) : Option Double :=
  let (whole, dropped) := collect 0 n.whole
  let fraction := n.fraction.getD []
  let (value, left) := collect whole fraction
  let places : Int := (dropped.length : Int) - ((fraction.length - left.length : Nat) : Int)
  Double.ofDecimal? n.negative value (places + n.exponentValue)

/-- Whole numbers of 64 bits stay whole; all others, and minus zero, are doubles. -/
def number? (n : Numeral) : Option Number :=
  let (size, dropped) := collect 0 n.whole
  if n.fraction.isSome || n.exponent.isSome || !dropped.isEmpty then n.double?.map .double
  else if !n.negative then some (.whole size)
  else if size = 0 || Nat.pow 2 63 < size then n.double?.map .double
  else some (.whole (-(size : Int)))

end Numeral

namespace Written

/-- The value that is meant, when it is nested at most `room` deep. -/
def toJson? (room : Nat) (written : Written) : Option Json :=
  match room, written with
  | _, .null => some .null
  | _, .bool value => some (.bool value)
  | _, .number n => n.number?.map .number
  | _, .string units => (Unit16.string? units).map .string
  | 0, .array _ => none
  | room + 1, .array items => do
    let values ← items.mapM (toJson? room)
    some (.array values)
  | 0, .object _ => none
  | room + 1, .object members => do
    let values ← members.mapM fun member => do
      let name ← Unit16.string? member.1
      let value ← toJson? room member.2
      some (name, value)
    some (ofMembers values)

end Written

/-- Arrays and objects nest 127 deep at most. -/
def maxDepth : Nat := 127

def parse? (text : String) : Option Json := (Written.parse? text).bind (Written.toJson? maxDepth)

end Scaffold.Json
