import Scaffold.FlagSet

/-!
Conditions: flags joined by `AND`, `OR` and `NOT`. A missing operand is a condition of its
own, which never holds. Both joins decide their right side only when the left one leaves the
matter open.
-/

namespace Scaffold

inductive Condition where
  | or (lhs rhs : Condition)
  | and (lhs rhs : Condition)
  | not (inner : Condition)
  | flag (name : String)
  | missing
  deriving DecidableEq

namespace Condition

def holds (flags : FlagSet) : Condition → Bool
  | .or lhs rhs => lhs.holds flags || rhs.holds flags
  | .and lhs rhs => lhs.holds flags && rhs.holds flags
  | .not inner => !inner.holds flags
  | .flag name => flags name
  | .missing => false

def decide (flags : FlagSet) : Condition → Recorded Bool
  | .or lhs rhs => do
    if ← lhs.decide flags then pure true else rhs.decide flags
  | .and lhs rhs => do
    if ← lhs.decide flags then rhs.decide flags else pure false
  | .not inner => do
    let value ← inner.decide flags
    pure (!value)
  | .flag name => flags.lookup name
  | .missing => pure false

theorem value_decide (flags : FlagSet) (c : Condition) :
    (c.decide flags).value = c.holds flags := by
  induction c with
  | or lhs rhs left right =>
    rw [decide, Recorded.value_bind, left, holds]
    cases lhs.holds flags with
    | true => rfl
    | false => exact right
  | and lhs rhs left right =>
    rw [decide, Recorded.value_bind, left, holds]
    cases lhs.holds flags with
    | true => exact right
    | false => rfl
  | not inner ih => rw [decide, Recorded.value_bind, ih, holds]; rfl
  | flag name => rfl
  | missing => rfl

/-- The flags of a condition from left to right, repeated as they occur. -/
def flags : Condition → List String
  | .or lhs rhs | .and lhs rhs => lhs.flags ++ rhs.flags
  | .not inner => inner.flags
  | .flag name => [name]
  | .missing => []

/-- The flags of a condition, each where it occurs first. -/
def identifiers (c : Condition) : List String := c.flags.eraseDups

/-- The written form puts every join in parentheses. -/
def display : Condition → String
  | .or lhs rhs => "(" ++ lhs.display ++ " OR " ++ rhs.display ++ ")"
  | .and lhs rhs => "(" ++ lhs.display ++ " AND " ++ rhs.display ++ ")"
  | .not inner => "NOT " ++ inner.display
  | .flag name => name
  | .missing => "<missing>"

end Condition

end Scaffold
