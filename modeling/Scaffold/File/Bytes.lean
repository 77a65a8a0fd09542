/-!
Byte strings as names of files, and their reading as UTF-8. Where the bytes are no UTF-8, every
longest beginning of a character, and every other stray byte, is shown as one replacement
character.
-/

namespace Scaffold

abbrev Bytes := List UInt8

namespace Bytes

def ofString (s : String) : Bytes := s.toUTF8.data.toList

def array (bs : Bytes) : ByteArray := ⟨bs.toArray⟩

/-- The text that the bytes are the UTF-8 of. -/
def text? (bs : Bytes) : Option String := String.fromUTF8? bs.array

def between (low high b : UInt8) : Bool := low ≤ b && b ≤ high

/-- The range of the second byte behind a first one, and the number of bytes behind that. -/
def continuation? (first : UInt8) : Option (UInt8 × UInt8 × Nat) :=
  if between 0xc2 0xdf first then some (0x80, 0xbf, 0)
  else if first = 0xe0 then some (0xa0, 0xbf, 1)
  else if first = 0xed then some (0x80, 0x9f, 1)
  else if between 0xe1 0xef first then some (0x80, 0xbf, 1)
  else if first = 0xf0 then some (0x90, 0xbf, 2)
  else if between 0xf1 0xf3 first then some (0x80, 0xbf, 2)
  else if first = 0xf4 then some (0x80, 0x8f, 2)
  else none

/-- Takes as many trailing bytes of a character as there are, up to `count`. -/
def trailing : Nat → Bytes → Bytes
  | 0, _ => []
  | _, [] => []
  | count + 1, b :: rest => if between 0x80 0xbf b then b :: trailing count rest else []

/-- The bytes of the first character, or of its beginning, behind the first byte. -/
def firstTail (first : UInt8) (rest : Bytes) : Bytes :=
  match continuation? first, rest with
  | some (low, high, more), b :: rest =>
    if between low high b then b :: trailing more rest else []
  | _, _ => []

def replacement : Char := '\ufffd'

def shownChar (bs : Bytes) : Char := ((bs.text?).bind fun s => s.toList.head?).getD replacement

/-- The characters of the bytes as they are shown. -/
def shown (bs : Bytes) : List Char :=
  match bs with
  | [] => []
  | first :: rest =>
    let tail := firstTail first rest
    shownChar (first :: tail) :: shown (rest.drop tail.length)
termination_by bs.length
decreasing_by simp only [List.length_cons, List.length_drop]; omega

def display (bs : Bytes) : String := String.ofList bs.shown

/-- The order of byte strings, byte by byte. -/
def isBefore : Bytes → Bytes → Bool
  | [], _ => true
  | _ :: _, [] => false
  | a :: as, b :: bs => if a = b then isBefore as bs else a < b

end Bytes

end Scaffold
