import Mathlib.Tactic.Common
import Scaffold.Proofs.Template.Lookups

/-! The conditions at the brackets of a text, and those that a run decides. A run goes on behind
the bracket that closes a directive, so a bracket within a condition is nothing to it; the list of
conditions starts anew there. Apart from these both are the same. -/

namespace Scaffold.Template

/-- The conditions at the brackets within a condition. All of them end where it ends. -/
def nestedConditions (condition : String) : List String := conditions (condition.toList ++ [']'])

theorem conditions_cons_of_ne {c : Char} (other : c ≠ '[') (cs : Text) :
    conditions (c :: cs) = conditions cs := by
  rw [conditions, if_neg other]

theorem conditions_bracket (rest : Text) :
    conditions ('[' :: rest) =
      ((Directive.read? rest).bind fun found => Piece.condition? (.directive found.1 [])).toList ++
        conditions rest := by
  rw [conditions, if_pos rfl]
  cases Directive.read? rest with
  | none => rfl
  | some found =>
    obtain ⟨d, after⟩ := found
    cases d <;> rfl

theorem conditions_append_of_noBracket {front : Text} (noBracket : '[' ∉ front) (cs : Text) :
    conditions (front ++ cs) = conditions cs := by
  induction front with
  | nil => rfl
  | cons c front ih =>
    rw [List.mem_cons, not_or] at noBracket
    rw [List.cons_append, conditions_cons_of_ne (Ne.symm noBracket.1), ih noBracket.2]

theorem conditions_append {front : Text} (close : BracketsClose front) (back : Text) :
    conditions (front ++ back) = conditions front ++ conditions back := by
  induction front with
  | nil => rfl
  | cons c front ih =>
    have behind := ih close.tail
    by_cases bracket : c = '['
    · have closes : ']' ∈ front := close [] front (by rw [bracket]; rfl)
      rw [bracket, List.cons_append, conditions_bracket, conditions_bracket, behind,
        Directive.read?_append closes, List.append_assoc]
      cases Directive.read? front <;> rfl
    · rw [List.cons_append, conditions_cons_of_ne bracket, conditions_cons_of_ne bracket, behind]

theorem bracketsClose_closed (inner : Text) : BracketsClose (inner ++ [']']) := by
  intro before after split
  have last := congrArg List.getLast? split
  rw [List.getLast?_append_of_ne_nil _ (List.cons_ne_nil _ _),
    List.getLast?_append_of_ne_nil _ (List.cons_ne_nil _ _)] at last
  cases after with
  | nil => exact absurd last (by decide)
  | cons c after =>
    rw [List.getLast?_cons_cons] at last
    exact List.mem_of_getLast? last.symm

namespace Directive

theorem bracket_not_mem_of_sameLetters {cs : Text} {word : String}
    (same : Text.sameLetters cs word = true) (absent : '[' ∉ word.toList) : '[' ∉ cs := by
  intro member
  have mapped : Char.toLower '[' ∈ cs.map Char.toLower := List.mem_map_of_mem member
  rw [beq_iff_eq.1 same] at mapped
  exact absent mapped

end Directive

theorem conditions_gap {inner gap : Text} (unclosed : ']' ∉ inner)
    (blank : ∀ c ∈ gap, Text.isBlank c = true) :
    conditions (inner ++ (gap ++ [']'])) = conditions (inner ++ [']']) := by
  have noBracket : '[' ∉ gap := fun member => absurd (blank '[' member) (by decide)
  have noClosing : ']' ∉ gap := fun member => absurd (blank ']' member) (by decide)
  induction inner with
  | nil => exact conditions_append_of_noBracket noBracket [']']
  | cons c inner ih =>
    rw [List.mem_cons, not_or] at unclosed
    have behind := ih unclosed.2
    by_cases bracket : c = '['
    · have closed : ']' ∉ inner ++ gap := by simp [unclosed.2, noClosing]
      have read : Directive.read? (inner ++ (gap ++ [']'])) = Directive.read? (inner ++ [']']) := by
        rw [← List.append_assoc, Directive.read?_closed closed, Directive.read?_closed unclosed.2,
          Text.trim_append_blank blank]
      rw [bracket, List.cons_append, List.cons_append, conditions_bracket, conditions_bracket, read,
        behind]
    · rw [List.cons_append, List.cons_append, conditions_cons_of_ne bracket,
        conditions_cons_of_ne bracket, behind]

theorem conditions_trim {inner : Text} (unclosed : ']' ∉ inner) :
    conditions (Text.trim inner ++ [']']) = conditions (inner ++ [']']) := by
  obtain ⟨lead, leadBlank, whole⟩ := Text.exists_trimStart inner
  obtain ⟨gap, gapBlank, middle⟩ := Text.exists_trimEnd (Text.trimStart inner)
  have noBracket : '[' ∉ lead := fun member => absurd (leadBlank '[' member) (by decide)
  have closed : ']' ∉ Text.trim inner := fun member => unclosed (Text.trim_subset inner member)
  calc conditions (Text.trim inner ++ [']'])
      = conditions (Text.trim inner ++ (gap ++ [']'])) := (conditions_gap closed gapBlank).symm
    _ = conditions (Text.trimStart inner ++ [']']) := by
        rw [← List.append_assoc, Text.trim, ← middle]
    _ = conditions (lead ++ (Text.trimStart inner ++ [']'])) :=
        (conditions_append_of_noBracket noBracket _).symm
    _ = conditions (inner ++ [']']) := by rw [← List.append_assoc, ← whole]

/-- Within the brackets of a directive there are the conditions within its condition. -/
theorem conditions_inner {inner : Text} {d : Directive} (unclosed : ']' ∉ inner)
    (isDirective : Directive.ofInner? (Text.trim inner) = some d) :
    conditions (inner ++ [']']) =
      (Piece.condition? (.directive d [])).toList.flatMap nestedConditions := by
  have closed : ']' ∉ Text.trim inner := fun member => unclosed (Text.trim_subset inner member)
  have lone : conditions [']'] = [] := by decide
  rw [← conditions_trim unclosed]
  generalize Text.trim inner = body at closed isDirective
  rcases Directive.cases_of_ofInner? isDirective with
    ⟨isElse, rfl⟩ | ⟨isEnd, rfl⟩ | ⟨keyword, blank, rest, rfl, isIf, isBlank, rfl⟩
  · exact (conditions_append_of_noBracket
      (Directive.bracket_not_mem_of_sameLetters isElse (by decide)) [']']).trans lone
  · exact (conditions_append_of_noBracket
      (Directive.bracket_not_mem_of_sameLetters isEnd (by decide)) [']']).trans lone
  · have noBracket : '[' ∉ keyword := Directive.bracket_not_mem_of_sameLetters isIf (by decide)
    have other : blank ≠ '[' := by
      rintro rfl
      exact absurd isBlank (by decide)
    have closedRest : ']' ∉ rest := fun member =>
      closed (List.mem_append_right keyword (List.mem_cons_of_mem blank member))
    rw [List.append_assoc, conditions_append_of_noBracket noBracket, List.cons_append,
      conditions_cons_of_ne other, ← conditions_trim closedRest]
    simp [Piece.condition?, nestedConditions]

/-- At the brackets of a text there are the conditions that a run decides, in order, and behind
each of them those at the brackets within it. -/
theorem conditions_eq_flatMap (cs : Text) :
    conditions cs = (decided (pieces cs)).flatMap fun c => c :: nestedConditions c := by
  fun_induction pieces cs with
  | case1 => rfl
  | case2 rest d after found ih =>
    obtain ⟨inner, split, unclosed, isDirective⟩ := Directive.exists_closed_of_read? found
    have within : conditions rest =
        (Piece.condition? (.directive d [])).toList.flatMap nestedConditions ++
          conditions after := by
      rw [split, List.append_cons, conditions_append (bracketsClose_closed inner),
        conditions_inner unclosed isDirective]
    rw [conditions_bracket, found, decided_cons, List.flatMap_append, within, ih]
    cases d <;> simp [Piece.condition?]
  | case3 rest missing ih =>
    rw [conditions_bracket, missing, decided_cons, ih]
    rfl
  | case4 c rest other ih =>
    rw [conditions_cons_of_ne other, decided_cons, ih]
    rfl

theorem nestedConditions_of_noBracket {condition : String} (noBracket : '[' ∉ condition.toList) :
    nestedConditions condition = [] :=
  (conditions_append_of_noBracket noBracket [']']).trans (by decide)

end Scaffold.Template
