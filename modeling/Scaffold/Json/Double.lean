/-!
Doubles as exact fractions: a mantissa below 2^53 times a power of two. A decimal text becomes
a double by one rounding of its digits and one of the scaling; a double is written with the
fewest digits that lead back to it.
-/

namespace Scaffold.Json

/-- The value is `mantissa * 2 ^ exponent`, negated if `negative`. -/
structure Double where
  negative : Bool
  mantissa : Nat
  exponent : Int
  deriving DecidableEq

namespace Double

def leastExponent : Int := -1074

def greatestExponent : Int := 971

/-- `num / den / base ^ exponent` as a fraction. -/
def scaleDown (base num den : Nat) (exponent : Int) : Nat × Nat :=
  if 0 ≤ exponent then (num, den * base.pow exponent.toNat)
  else (num * base.pow (-exponent).toNat, den)

/-- The quotient rounded to the nearest whole number, a half to the even one. -/
def roundHalfEven (num den : Nat) : Nat :=
  let q := num / den
  let twice := 2 * (num % den)
  if twice < den then q
  else if den < twice then q + 1
  else q + q % 2

/-- The exponent at which the mantissa of `num / den` has 53 bits, if it is in range. -/
def exponentFor (num den : Nat) : Int :=
  let guess : Int := (Nat.log2 num : Int) - (Nat.log2 den : Int) - 52
  let (n, d) := scaleDown 2 num den guess
  let fitted := if n / d < Nat.pow 2 52 then guess - 1 else guess
  max fitted leastExponent

/-- The double nearest to a quotient; none when it is too large. -/
def ofQuotient? (negative : Bool) (num den : Nat) : Option Double :=
  if num = 0 then some ⟨negative, 0, leastExponent⟩
  else
    let exponent := exponentFor num den
    let (n, d) := scaleDown 2 num den exponent
    let mantissa := roundHalfEven n d
    let (mantissa, exponent) :=
      if mantissa = Nat.pow 2 53 then (Nat.pow 2 52, exponent + 1) else (mantissa, exponent)
    if greatestExponent < exponent then none else some ⟨negative, mantissa, exponent⟩

/-- The size of a double as a fraction. -/
def fraction (x : Double) : Nat × Nat :=
  if 0 ≤ x.exponent then (x.mantissa * Nat.pow 2 x.exponent.toNat, 1)
  else (x.mantissa, Nat.pow 2 (-x.exponent).toNat)

def mul? (x y : Double) : Option Double :=
  ofQuotient? (x.negative != y.negative)
    (x.fraction.1 * y.fraction.1) (x.fraction.2 * y.fraction.2)

def div? (x y : Double) : Option Double :=
  ofQuotient? (x.negative != y.negative)
    (x.fraction.1 * y.fraction.2) (x.fraction.2 * y.fraction.1)

/-- Ten to a power that a double can hold. -/
def powerOfTen? (n : Nat) : Option Double := ofQuotient? false (Nat.pow 10 n) 1

def greatestPower : Nat := 308

/-- The product with a power of ten that a double can hold. -/
def scaleWithin? (x : Double) (places : Int) : Option Double :=
  match powerOfTen? places.natAbs with
  | none => none
  | some power => if 0 ≤ places then x.mul? power else x.div? power

/-- Divides by the greatest power of ten of a double, as many times as asked. -/
def shrink? (x : Double) : Nat → Option Double
  | 0 => some x
  | n + 1 =>
    if x.mantissa = 0 then some x
    else (x.scaleWithin? (-greatestPower)).bind fun y => y.shrink? n

/-- Scales by a power of ten. What is too small for one division is divided in steps, each
of them rounded. -/
def scale? (x : Double) (places : Int) : Option Double :=
  if places.natAbs ≤ greatestPower then x.scaleWithin? places
  else if x.mantissa = 0 then some x
  else if 0 ≤ places then none
  else
    let steps := (places.natAbs - 1) / greatestPower
    (x.shrink? steps).bind fun y => y.scaleWithin? (places + steps * greatestPower)

def ofDecimal? (negative : Bool) (digits : Nat) (places : Int) : Option Double := do
  let x ← ofQuotient? negative digits 1
  x.scale? places

/-- The least `k` with `num / den < 10 ^ k`, for a quotient that is not zero. -/
def decimalPoint (num den : Nat) : Int :=
  if den ≤ num then ((Nat.toDigits 10 (num / den)).length : Int)
  else
    let zeros := (List.range 400).find? (fun j => den ≤ num * Nat.pow 10 (j + 1))
    Int.negOfNat (zeros.getD 0)

/-- Whether the decimal number `digits * 10 ^ places` is rounded to `x`. -/
def isReadFrom (x : Double) (digits : Nat) (places : Int) : Bool :=
  let (num, den) := scaleDown 10 digits 1 (-places)
  let (n, d) := scaleDown 2 num den (x.exponent - 2)
  let four := 4 * x.mantissa
  let below := if x.mantissa = Nat.pow 2 52 && leastExponent < x.exponent then four - 1 else four - 2
  let above := four + 2
  if x.mantissa % 2 = 0 then below * d ≤ n && n ≤ above * d
  else below * d < n && n < above * d

/-- The decimal number with `count` digits nearest to `x`, if it leads back to `x`. -/
def withDigits? (x : Double) (point : Int) (count : Nat) : Option (Nat × Int) :=
  let places := point - (count : Int)
  let (n, d) := scaleDown 10 x.fraction.1 x.fraction.2 places
  let low := n / d
  let nearest := roundHalfEven n d
  let other := if nearest = low then low + 1 else low
  if x.isReadFrom nearest places then some (nearest, places)
  else if x.isReadFrom other places then some (other, places)
  else none

/-- A single digit that is rounded up to ten is a one, one place further left. -/
def carried (found : Nat × Int) : Nat × Int :=
  if found.1 = 10 then (1, found.2 + 1) else found

/-- The fewest digits that lead back to `x`, with the power of ten they are scaled by. -/
def shortest (x : Double) : Nat × Int :=
  if x.mantissa = 0 then (0, 0)
  else
    let point := decimalPoint x.fraction.1 x.fraction.2
    let found := (List.range 17).findSome? fun count => x.withDigits? point (count + 1)
    carried (found.getD (0, 0))

/-- Numbers from 10^-5 up to 10^16 have a decimal point and no exponent. -/
def layout (digits : List Char) (places : Int) : List Char :=
  let count : Int := digits.length
  let point := places + count
  if 0 ≤ places && point ≤ 16 then digits ++ List.replicate places.toNat '0' ++ ['.', '0']
  else if 0 < point && point ≤ 16 then
    digits.take point.toNat ++ '.' :: digits.drop point.toNat
  else if -5 < point && point ≤ 0 then
    '0' :: '.' :: List.replicate (-point).toNat '0' ++ digits
  else
    let exponent := (toString (point - 1)).toList
    match digits with
    | [] => []
    | [d] => d :: 'e' :: exponent
    | d :: more => d :: '.' :: more ++ 'e' :: exponent

def display (x : Double) : String :=
  let (digits, places) := x.shortest
  let size := if x.mantissa = 0 then ['0', '.', '0'] else layout (Nat.toDigits 10 digits) places
  String.ofList (if x.negative then '-' :: size else size)

end Double

end Scaffold.Json
