import Mathlib.Data.List.TakeWhile
import Scaffold.Text

/-! Trimmed text neither begins nor ends with a blank character, and text that does not is left
as it is. -/

namespace Scaffold

namespace Text

variable {cs : Text} {c : Char}

theorem trimStart_of_head (solid : ∀ c ∈ cs.head?, isBlank c = false) : trimStart cs = cs := by
  cases cs with
  | nil => rfl
  | cons c cs =>
    have first : isBlank c = false := solid c rfl
    rw [trimStart, List.dropWhile_cons_of_neg (Bool.eq_false_iff.1 first)]

theorem trimEnd_of_last (solid : ∀ c ∈ cs.getLast?, isBlank c = false) : trimEnd cs = cs := by
  have reversed : trimStart cs.reverse = cs.reverse :=
    trimStart_of_head (by rwa [List.head?_reverse])
  show (trimStart cs.reverse).reverse = cs
  rw [reversed, List.reverse_reverse]

theorem trim_of_solid (first : ∀ c ∈ cs.head?, isBlank c = false)
    (last : ∀ c ∈ cs.getLast?, isBlank c = false) : trim cs = cs := by
  rw [trim, trimStart_of_head first, trimEnd_of_last last]

theorem head_trimStart (first : c ∈ (trimStart cs).head?) : isBlank c = false := by
  have stop := List.head?_dropWhile_not isBlank cs
  rw [trimStart] at first
  rw [Option.mem_def.1 first] at stop
  exact stop

theorem last_trimEnd (last : c ∈ (trimEnd cs).getLast?) : isBlank c = false := by
  have first : c ∈ (trimStart cs.reverse).head? := by
    rwa [trimEnd, List.getLast?_reverse] at last
  exact head_trimStart first

theorem trimEnd_prefix (cs : Text) : trimEnd cs <+: cs := by
  rw [← List.reverse_suffix, trimEnd, List.reverse_reverse]
  exact List.dropWhile_suffix isBlank

theorem trim_subset (cs : Text) : trim cs ⊆ cs := by
  have front := trimEnd_prefix (trimStart cs)
  exact fun _ member => (List.dropWhile_suffix isBlank).subset (front.subset member)

theorem head_trim (first : c ∈ (trim cs).head?) : isBlank c = false := by
  obtain ⟨back, whole⟩ := trimEnd_prefix (trimStart cs)
  have also : c ∈ (trimStart cs).head? := by
    rw [← whole, List.head?_append, ← trim, Option.mem_def.1 first]
    rfl
  exact head_trimStart also

theorem exists_trimStart (cs : Text) :
    ∃ lead : Text, (∀ c ∈ lead, isBlank c = true) ∧ cs = lead ++ trimStart cs :=
  ⟨cs.takeWhile isBlank, List.all_eq_true.1 List.all_takeWhile,
    List.takeWhile_append_dropWhile.symm⟩

theorem exists_trimEnd (cs : Text) :
    ∃ gap : Text, (∀ c ∈ gap, isBlank c = true) ∧ cs = trimEnd cs ++ gap := by
  obtain ⟨lead, blank, whole⟩ := exists_trimStart cs.reverse
  refine ⟨lead.reverse, fun c member => blank c (List.mem_reverse.1 member), ?_⟩
  calc cs = cs.reverse.reverse := (List.reverse_reverse cs).symm
    _ = (lead ++ trimStart cs.reverse).reverse := congrArg List.reverse whole
    _ = trimEnd cs ++ lead.reverse := List.reverse_append

theorem trim_append_blank {gap : Text} (blank : ∀ c ∈ gap, isBlank c = true) (cs : Text) :
    trim (cs ++ gap) = trim cs := by
  have atEnd : ∀ front : Text, trimEnd (front ++ gap) = trimEnd front := by
    intro front
    rw [trimEnd, List.reverse_append, List.dropWhile_append_of_pos, ← trimEnd]
    exact fun c member => blank c (List.mem_reverse.1 member)
  rw [trim, trim, trimStart, List.dropWhile_append, ← trimStart]
  by_cases empty : trimStart cs = []
  · have gone : gap.dropWhile isBlank = [] := List.dropWhile_eq_nil_iff.2 blank
    rw [empty, gone]
    rfl
  · rw [if_neg (by simpa using empty), atEnd]

theorem trim_trim (cs : Text) : trim (trim cs) = trim cs :=
  trim_of_solid (fun _ => head_trim) fun _ => last_trimEnd

end Text

theorem trimmed_ofList_trim (cs : Text) :
    trimmed (String.ofList (Text.trim cs)) = String.ofList (Text.trim cs) := by
  rw [trimmed, String.toList_ofList, Text.trim_trim]

end Scaffold
