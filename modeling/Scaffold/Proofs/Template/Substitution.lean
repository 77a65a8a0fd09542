import Mathlib.Tactic.Common
import Scaffold.Template.Placeholder

/-! Placeholders on both sides of a character that none of them has. No occurrence reaches
across that character, so the text on each side is replaced as if it stood alone. -/

namespace Scaffold.Template

theorem isPrefixOf_append_cons {needle : Text} {c : Char} (absent : c ∉ needle)
    (front back : Text) :
    needle.isPrefixOf (front ++ c :: back) = needle.isPrefixOf front := by
  induction needle generalizing front with
  | nil => rw [List.isPrefixOf_nil_left, List.isPrefixOf_nil_left]
  | cons d needle ih =>
    rw [List.mem_cons, not_or] at absent
    cases front with
    | nil =>
      have other : (d == c) = false := by simpa using Ne.symm absent.1
      simp [List.isPrefixOf, other]
    | cons e front => simp [List.isPrefixOf, ih absent.2]

theorem replaceFound_append_cons {needle : Text} (nonempty : needle ≠ []) (value : Text) {c : Char}
    (absent : c ∉ needle) (front back : Text) :
    replaceFound needle value (front ++ c :: back) =
      replaceFound needle value front ++ c :: replaceFound needle value back := by
  fun_induction replaceFound needle value front with
  | case1 =>
    have never : needle.isPrefixOf (c :: back) = false := by
      have empty := isPrefixOf_append_cons absent [] back
      rw [List.nil_append] at empty
      rw [empty]
      cases needle with
      | nil => exact absurd rfl nonempty
      | cons d needle => rfl
    rw [List.nil_append, replaceFound, never]
    rfl
  | case2 d rest found ih =>
    have within : needle.length - 1 ≤ rest.length := by
      have bound := (List.isPrefixOf_iff_prefix.1 found).length_le
      rw [List.length_cons] at bound
      omega
    have also : needle.isPrefixOf (d :: (rest ++ c :: back)) = true := by
      rw [← List.cons_append, isPrefixOf_append_cons absent, found]
    rw [List.cons_append, replaceFound, if_pos also, List.drop_append_of_le_length within, ih,
      List.append_assoc]
  | case3 d rest missing ih =>
    have also : ¬ needle.isPrefixOf (d :: (rest ++ c :: back)) = true := by
      rw [← List.cons_append, isPrefixOf_append_cons absent]
      exact missing
    rw [List.cons_append, replaceFound, if_neg also, ih, List.cons_append]

def PlaceholdersAvoid (c : Char) (placeholders : List String) : Prop :=
  ∀ placeholder ∈ placeholders, placeholder ≠ "" ∧ c ∉ placeholder.toList

theorem substitute_append_cons {placeholders : List String} {c : Char}
    (avoid : PlaceholdersAvoid c placeholders) (value : String) (front back : Text) :
    (substitute placeholders value (String.ofList (front ++ c :: back))).toList =
      (substitute placeholders value (String.ofList front)).toList ++
        c :: (substitute placeholders value (String.ofList back)).toList := by
  induction placeholders generalizing front back with
  | nil => simp [substitute]
  | cons placeholder placeholders ih =>
    have first := avoid placeholder List.mem_cons_self
    have nonempty : placeholder.toList ≠ [] := by simpa using first.1
    have rest : PlaceholdersAvoid c placeholders := fun next member =>
      avoid next (List.mem_cons_of_mem placeholder member)
    have behind := ih rest (replaceFound placeholder.toList value.toList front)
      (replaceFound placeholder.toList value.toList back)
    unfold substitute at behind ⊢
    simp only [List.foldl_cons, String.toList_ofList, replaceAll, if_neg nonempty]
    rw [replaceFound_append_cons nonempty value.toList first.2]
    exact behind

end Scaffold.Template
