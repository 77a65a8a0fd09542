import Mathlib.Data.List.TakeWhile
import Mathlib.Tactic.Common
import Scaffold.Proofs.Condition.Places

/-! The grammar of conditions, as the derivations of its symbols over placed tokens. A
derivation has the tokens it spans, the condition it stands for and the depth to which it
nests; `Fits` says that its tokens are of the right kinds before the tokens that follow. One
token decides between the productions of a symbol, so a fitting derivation is the only one. -/

namespace Scaffold.Condition

inductive Symbol where
  | disjunction
  | disjuncts
  | conjunction
  | conjuncts
  | negation
  | primary

/-- The productions. A repetition is a symbol of its own, `disjuncts` or `conjuncts`. -/
inductive Derivation : Symbol → Type where
  | disjunction (first : Derivation .conjunction) (more : Derivation .disjuncts) :
      Derivation .disjunction
  | noDisjunct : Derivation .disjuncts
  | disjunct (join : Spanned) (next : Derivation .conjunction) (more : Derivation .disjuncts) :
      Derivation .disjuncts
  | conjunction (first : Derivation .negation) (more : Derivation .conjuncts) :
      Derivation .conjunction
  | noConjunct : Derivation .conjuncts
  | conjunct (join : Spanned) (next : Derivation .negation) (more : Derivation .conjuncts) :
      Derivation .conjuncts
  | not (keyword : Spanned) (inner : Derivation .negation) : Derivation .negation
  | operand (inner : Derivation .primary) : Derivation .negation
  | parentheses (opening : Spanned) (inner : Derivation .disjunction)
      (closing : Option Spanned) : Derivation .primary
  | words (first : Spanned) (more : List Spanned) : Derivation .primary
  | nothing : Derivation .primary

def isWordToken (t : Spanned) : Bool := t.token.isWord

namespace Derivation

def yield : {s : Symbol} → Derivation s → List Spanned
  | _, .disjunction first more => first.yield ++ more.yield
  | _, .noDisjunct => []
  | _, .disjunct join next more => join :: (next.yield ++ more.yield)
  | _, .conjunction first more => first.yield ++ more.yield
  | _, .noConjunct => []
  | _, .conjunct join next more => join :: (next.yield ++ more.yield)
  | _, .not keyword inner => keyword :: inner.yield
  | _, .operand inner => inner.yield
  | _, .parentheses opening inner closing => opening :: (inner.yield ++ closing.toList)
  | _, .words first more => first :: more
  | _, .nothing => []

/-- The condition a derivation stands for. Further disjuncts and conjuncts are joined to the
left side `lhs`, the nearest first; the other symbols have no left side. -/
def treeFrom (source : Text) : {s : Symbol} → Condition → Derivation s → Condition
  | _, _, .disjunction first more => more.treeFrom source (first.treeFrom source .missing)
  | _, lhs, .noDisjunct => lhs
  | _, lhs, .disjunct _ next more =>
    more.treeFrom source (.or lhs (next.treeFrom source .missing))
  | _, _, .conjunction first more => more.treeFrom source (first.treeFrom source .missing)
  | _, lhs, .noConjunct => lhs
  | _, lhs, .conjunct _ next more =>
    more.treeFrom source (.and lhs (next.treeFrom source .missing))
  | _, _, .not _ inner => .not (inner.treeFrom source .missing)
  | _, _, .operand inner => inner.treeFrom source .missing
  | _, _, .parentheses _ inner _ => inner.treeFrom source .missing
  | _, _, .words first more => .flag (runName source (first :: more))
  | _, _, .nothing => .missing

def tree (source : Text) (d : Derivation .disjunction) : Condition := d.treeFrom source .missing

def nesting : {s : Symbol} → Derivation s → Nat
  | _, .disjunction first more => max first.nesting more.nesting
  | _, .noDisjunct => 0
  | _, .disjunct _ next more => max next.nesting more.nesting
  | _, .conjunction first more => max first.nesting more.nesting
  | _, .noConjunct => 0
  | _, .conjunct _ next more => max next.nesting more.nesting
  | _, .not _ inner => inner.nesting + 1
  | _, .operand inner => inner.nesting
  | _, .parentheses _ inner _ => inner.nesting + 1
  | _, .words _ _ => 0
  | _, .nothing => 0

/-- The derivation may stand before the tokens `after`: every token in it is of the kind its
production asks for, only the end of all tokens stands for a closing parenthesis, and no run
of words can be continued. -/
def Fits : {s : Symbol} → Derivation s → List Spanned → Prop
  | _, .disjunction first more, after => first.Fits (more.yield ++ after) ∧ more.Fits after
  | _, .noDisjunct, _ => True
  | _, .disjunct join next more, after =>
    join.token = .or ∧ next.Fits (more.yield ++ after) ∧ more.Fits after
  | _, .conjunction first more, after => first.Fits (more.yield ++ after) ∧ more.Fits after
  | _, .noConjunct, _ => True
  | _, .conjunct join next more, after =>
    join.token = .and ∧ next.Fits (more.yield ++ after) ∧ more.Fits after
  | _, .not keyword inner, after => keyword.token = .not ∧ inner.Fits after
  | _, .operand inner, after => inner.Fits after
  | _, .parentheses opening inner closing, after =>
    opening.token = .opening ∧ inner.Fits (closing.toList ++ after) ∧
      (∀ t ∈ closing, t.token = .closing) ∧ (closing = none → after = [])
  | _, .words first more, after =>
    isWordToken first = true ∧ (∀ t ∈ more, isWordToken t = true) ∧
      ∀ t ∈ after.head?, isWordToken t = false
  | _, .nothing, _ => True

end Derivation

/-- What may come behind a symbol inside a condition: the end, a closing parenthesis, or a join
that binds less. -/
def Symbol.Follows : Symbol → List Spanned → Prop
  | .disjunction, after | .disjuncts, after => ∀ t ∈ after.head?, t.token = .closing
  | .conjunction, after | .conjuncts, after =>
    ∀ t ∈ after.head?, t.token = .closing ∨ t.token = .or
  | .negation, after | .primary, after =>
    ∀ t ∈ after.head?, t.token = .closing ∨ t.token = .or ∨ t.token = .and

section Stop

variable {α : Type} {p : α → Bool} {front rest : List α}

theorem takeWhile_append_of_stop (all : ∀ x ∈ front, p x = true)
    (stops : ∀ x ∈ rest.head?, p x = false) : (front ++ rest).takeWhile p = front := by
  rw [List.takeWhile_append_of_pos all]
  cases rest with
  | nil => rw [List.takeWhile_nil, List.append_nil]
  | cons x rest => rw [List.takeWhile_cons_of_neg (by simp [stops x rfl]), List.append_nil]

theorem dropWhile_append_of_stop (all : ∀ x ∈ front, p x = true)
    (stops : ∀ x ∈ rest.head?, p x = false) : (front ++ rest).dropWhile p = rest := by
  rw [List.dropWhile_append_of_pos all]
  cases rest with
  | nil => rfl
  | cons x rest => rw [List.dropWhile_cons_of_neg (by simp [stops x rfl])]

end Stop

namespace Derivation

variable {after after' : List Spanned}

theorem follows_before_disjuncts (more : Derivation .disjuncts) (fits : more.Fits after)
    (follows : Symbol.disjuncts.Follows after) :
    Symbol.conjunction.Follows (more.yield ++ after) := by
  cases more with
  | noDisjunct => exact fun t first => .inl (follows t first)
  | disjunct join next more =>
    intro t first
    cases first
    exact .inr fits.1

theorem follows_before_conjuncts (more : Derivation .conjuncts) (fits : more.Fits after)
    (follows : Symbol.conjuncts.Follows after) :
    Symbol.negation.Follows (more.yield ++ after) := by
  cases more with
  | noConjunct => exact fun t first => (follows t first).imp_right .inl
  | conjunct join next more =>
    intro t first
    cases first
    exact .inr (.inr fits.1)

theorem follows_before_closing (closing : Option Spanned)
    (closes : ∀ t ∈ closing, t.token = .closing) (ends : closing = none → after = []) :
    Symbol.disjunction.Follows (closing.toList ++ after) := by
  cases closing with
  | none =>
    rw [ends rfl]
    exact fun t first => nomatch first
  | some closing =>
    intro t first
    cases first
    exact closes closing rfl

theorem run_unique {more more' : List Spanned} (same : more ++ after = more' ++ after')
    (words : ∀ t ∈ more, isWordToken t = true) (ends : ∀ t ∈ after.head?, isWordToken t = false)
    (words' : ∀ t ∈ more', isWordToken t = true)
    (ends' : ∀ t ∈ after'.head?, isWordToken t = false) : more = more' ∧ after = after' := by
  constructor
  · calc more = (more ++ after).takeWhile isWordToken := (takeWhile_append_of_stop words ends).symm
      _ = (more' ++ after').takeWhile isWordToken := by rw [same]
      _ = more' := takeWhile_append_of_stop words' ends'
  · calc after = (more ++ after).dropWhile isWordToken := (dropWhile_append_of_stop words ends).symm
      _ = (more' ++ after').dropWhile isWordToken := by rw [same]
      _ = after' := dropWhile_append_of_stop words' ends'

theorem closing_unique {closing closing' : Option Spanned}
    (same : closing.toList ++ after = closing'.toList ++ after')
    (ends : closing = none → after = []) (ends' : closing' = none → after' = []) :
    closing = closing' ∧ after = after' := by
  cases closing with
  | none =>
    obtain rfl := ends rfl
    cases closing' with
    | none => exact ⟨rfl, same⟩
    | some => exact nomatch same
  | some closing =>
    cases closing' with
    | none =>
      obtain rfl := ends' rfl
      exact nomatch same
    | some closing' =>
      obtain ⟨rfl, rfl⟩ := List.cons.inj same
      exact ⟨rfl, rfl⟩

theorem exists_word {t : Spanned} (isWord : isWordToken t = true) :
    ∃ text, t.token = .word text := by
  unfold isWordToken at isWord
  cases token : t.token with
  | word text => exact ⟨text, rfl⟩
  | and | or | not | opening | closing =>
    rw [token] at isWord
    exact nomatch isWord

def production : {s : Symbol} → Derivation s → Nat
  | _, .disjunct .. | _, .conjunct .. | _, .not .. | _, .words .. => 1
  | _, .parentheses .. => 2
  | _, _ => 0

def predicted : Symbol → Option Token → Nat
  | .disjuncts, some .or => 1
  | .conjuncts, some .and => 1
  | .negation, some .not => 1
  | .primary, some (.word _) => 1
  | .primary, some .opening => 2
  | _, _ => 0

theorem predicted_of_follows (s : Symbol) (follows : s.Follows after) :
    predicted s (after.head?.map Spanned.token) = 0 := by
  cases after with
  | nil => cases s <;> rfl
  | cons t rest =>
    rw [List.head?_cons, Option.map_some]
    cases s with
    | disjunction | conjunction => rfl
    | disjuncts => rw [follows t rfl]; rfl
    | conjuncts => rcases follows t rfl with token | token <;> rw [token] <;> rfl
    | negation | primary =>
      rcases follows t rfl with token | token | token <;> rw [token] <;> rfl

theorem predicted_eq_production {s : Symbol} (d : Derivation s) (fits : d.Fits after)
    (follows : s.Follows after) :
    predicted s ((d.yield ++ after).head?.map Spanned.token) = d.production := by
  cases d with
  | disjunction | conjunction => rfl
  | noDisjunct | noConjunct | nothing => exact predicted_of_follows _ follows
  | disjunct | conjunct | not | parentheses =>
    rw [yield, List.cons_append, List.head?_cons, Option.map_some, fits.1]
    rfl
  | words first more =>
    obtain ⟨text, word⟩ := exists_word fits.1
    rw [yield, List.cons_append, List.head?_cons, Option.map_some, word]
    rfl
  | operand inner =>
    -- The token a primary begins with is never `NOT`.
    cases inner with
    | nothing => exact predicted_of_follows .negation follows
    | parentheses opening inner closing =>
      have opens : opening.token = .opening := fits.1
      rw [yield, yield, List.cons_append, List.head?_cons, Option.map_some, opens]
      rfl
    | words first more =>
      obtain ⟨text, word⟩ := exists_word fits.1
      rw [yield, yield, List.cons_append, List.head?_cons, Option.map_some, word]
      rfl

theorem production_eq {s : Symbol} {d d' : Derivation s}
    (same : d.yield ++ after = d'.yield ++ after') (fits : d.Fits after)
    (fits' : d'.Fits after') (follows : s.Follows after) (follows' : s.Follows after') :
    d.production = d'.production := by
  rw [← predicted_eq_production d fits follows, same,
    predicted_eq_production d' fits' follows']

/-- Tokens are derived in one way, and so are those that follow. The induction is on the
derivation, and the next token excludes every other production. -/
theorem unique {s : Symbol} (d d' : Derivation s) {after after' : List Spanned}
    (same : d.yield ++ after = d'.yield ++ after') (fits : d.Fits after)
    (fits' : d'.Fits after') (follows : s.Follows after) (follows' : s.Follows after') :
    d = d' ∧ after = after' := by
  induction d generalizing after after' with
  | disjunction first more firstUnique moreUnique =>
    cases d' with | disjunction first' more' =>
    simp only [yield, List.append_assoc] at same
    obtain ⟨rfl, tails⟩ := firstUnique first' same fits.1 fits'.1
      (follows_before_disjuncts more fits.2 follows)
      (follows_before_disjuncts more' fits'.2 follows')
    obtain ⟨rfl, rfl⟩ := moreUnique more' tails fits.2 fits'.2 follows follows'
    exact ⟨rfl, rfl⟩
  | conjunction first more firstUnique moreUnique =>
    cases d' with | conjunction first' more' =>
    simp only [yield, List.append_assoc] at same
    obtain ⟨rfl, tails⟩ := firstUnique first' same fits.1 fits'.1
      (follows_before_conjuncts more fits.2 follows)
      (follows_before_conjuncts more' fits'.2 follows')
    obtain ⟨rfl, rfl⟩ := moreUnique more' tails fits.2 fits'.2 follows follows'
    exact ⟨rfl, rfl⟩
  | noDisjunct =>
    have agree := production_eq same fits fits' follows follows'
    cases d' with
    | noDisjunct => exact ⟨rfl, same⟩
    | disjunct => exact nomatch agree
  | noConjunct =>
    have agree := production_eq same fits fits' follows follows'
    cases d' with
    | noConjunct => exact ⟨rfl, same⟩
    | conjunct => exact nomatch agree
  | nothing =>
    have agree := production_eq same fits fits' follows follows'
    cases d' with
    | nothing => exact ⟨rfl, same⟩
    | parentheses | words => exact nomatch agree
  | disjunct join next more nextUnique moreUnique =>
    have agree := production_eq same fits fits' follows follows'
    cases d' with
    | noDisjunct => exact nomatch agree
    | disjunct join' next' more' =>
      simp only [yield, List.cons_append, List.append_assoc, List.cons.injEq] at same
      obtain ⟨rfl, same⟩ := same
      obtain ⟨rfl, tails⟩ := nextUnique next' same fits.2.1 fits'.2.1
        (follows_before_disjuncts more fits.2.2 follows)
        (follows_before_disjuncts more' fits'.2.2 follows')
      obtain ⟨rfl, rfl⟩ := moreUnique more' tails fits.2.2 fits'.2.2 follows follows'
      exact ⟨rfl, rfl⟩
  | conjunct join next more nextUnique moreUnique =>
    have agree := production_eq same fits fits' follows follows'
    cases d' with
    | noConjunct => exact nomatch agree
    | conjunct join' next' more' =>
      simp only [yield, List.cons_append, List.append_assoc, List.cons.injEq] at same
      obtain ⟨rfl, same⟩ := same
      obtain ⟨rfl, tails⟩ := nextUnique next' same fits.2.1 fits'.2.1
        (follows_before_conjuncts more fits.2.2 follows)
        (follows_before_conjuncts more' fits'.2.2 follows')
      obtain ⟨rfl, rfl⟩ := moreUnique more' tails fits.2.2 fits'.2.2 follows follows'
      exact ⟨rfl, rfl⟩
  | not keyword inner innerUnique =>
    have agree := production_eq same fits fits' follows follows'
    cases d' with
    | operand => exact nomatch agree
    | not keyword' inner' =>
      simp only [yield, List.cons_append, List.cons.injEq] at same
      obtain ⟨rfl, same⟩ := same
      obtain ⟨rfl, rfl⟩ := innerUnique inner' same fits.2 fits'.2 follows follows'
      exact ⟨rfl, rfl⟩
  | operand inner innerUnique =>
    have agree := production_eq same fits fits' follows follows'
    cases d' with
    | not => exact nomatch agree
    | operand inner' =>
      obtain ⟨rfl, rfl⟩ := innerUnique inner' same fits fits' follows follows'
      exact ⟨rfl, rfl⟩
  | parentheses opening inner closing innerUnique =>
    have agree := production_eq same fits fits' follows follows'
    cases d' with
    | words | nothing => exact nomatch agree
    | parentheses opening' inner' closing' =>
      simp only [yield, List.cons_append, List.append_assoc, List.cons.injEq] at same
      obtain ⟨rfl, same⟩ := same
      obtain ⟨_, within, closes, ends⟩ := fits
      obtain ⟨_, within', closes', ends'⟩ := fits'
      obtain ⟨rfl, tails⟩ := innerUnique inner' same within within'
        (follows_before_closing closing closes ends)
        (follows_before_closing closing' closes' ends')
      obtain ⟨rfl, rfl⟩ := closing_unique tails ends ends'
      exact ⟨rfl, rfl⟩
  | words first more =>
    have agree := production_eq same fits fits' follows follows'
    cases d' with
    | parentheses | nothing => exact nomatch agree
    | words first' more' =>
      simp only [yield, List.cons_append, List.cons.injEq] at same
      obtain ⟨rfl, same⟩ := same
      obtain ⟨_, words, ends⟩ := fits
      obtain ⟨_, words', ends'⟩ := fits'
      obtain ⟨rfl, rfl⟩ := run_unique same words ends words' ends'
      exact ⟨rfl, rfl⟩

end Derivation

end Scaffold.Condition
