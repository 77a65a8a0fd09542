/-!
Text as a list of characters. A character is blank when it has the Unicode property
White_Space; trimming, blank lines and the words of a condition are all stated with it.
-/

namespace Scaffold

abbrev Text := List Char

namespace Text

/-- The Unicode property White_Space. -/
def isBlank (c : Char) : Bool :=
  (0x09 ≤ c.toNat && c.toNat ≤ 0x0d) || c.toNat == 0x20 || c.toNat == 0x85 || c.toNat == 0xa0 ||
    c.toNat == 0x1680 || (0x2000 ≤ c.toNat && c.toNat ≤ 0x200a) || c.toNat == 0x2028 ||
    c.toNat == 0x2029 || c.toNat == 0x202f || c.toNat == 0x205f || c.toNat == 0x3000

def trimStart (cs : Text) : Text := cs.dropWhile isBlank

def trimEnd (cs : Text) : Text := (cs.reverse.dropWhile isBlank).reverse

def trim (cs : Text) : Text := trimEnd (trimStart cs)

def isAllBlank (cs : Text) : Bool := cs.all isBlank

/-- Letters differ in case only within ASCII. -/
def sameLetters (cs : Text) (word : String) : Bool := cs.map Char.toLower == word.toList

/-- The number of bytes of the text in UTF-8. -/
def width : Text → Nat
  | [] => 0
  | c :: cs => c.utf8Size + width cs

/-- Every line keeps the newline that ends it; only the last may have none. -/
def lines : Text → List Text
  | [] => []
  | c :: cs =>
    if c = '\n' then [c] :: lines cs
    else
      match lines cs with
      | [] => [[c]]
      | line :: rest => (c :: line) :: rest

def hexDigit? (c : Char) : Option Nat :=
  if '0' ≤ c && c ≤ '9' then some (c.toNat - '0'.toNat)
  else if 'a' ≤ c && c ≤ 'f' then some (c.toNat - 'a'.toNat + 10)
  else if 'A' ≤ c && c ≤ 'F' then some (c.toNat - 'A'.toNat + 10)
  else none

/-- The lines together are the whole text. -/
theorem flatten_lines (cs : Text) : (lines cs).flatten = cs := by
  fun_induction lines cs with
  | case1 => rfl
  | case2 cs ih => simp [ih]
  | case3 c cs other empty ih => simp_all
  | case4 c cs other line rest split ih => simp_all

end Text

/-- A string without blank characters at its ends. -/
def trimmed (s : String) : String := String.ofList (Text.trim s.toList)

end Scaffold
