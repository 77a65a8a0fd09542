import Mathlib.Data.List.Infix
import Mathlib.Tactic.Common
import Scaffold.Text

/-! A text in which placeholders are replaced, in segments: characters that are kept and
placeholders for which the value is shown. Marking looks for a placeholder in text that has been
kept so far, so it never finds one in a value, and leaves none in what is kept. -/

namespace Scaffold.Template

inductive Segment where
  | kept (c : Char)
  | replaced (placeholder : String)
  deriving DecidableEq

namespace Segment

def source : Segment → Text
  | .kept c => [c]
  | .replaced placeholder => placeholder.toList

def shown (value : String) : Segment → Text
  | .kept c => [c]
  | .replaced _ => value.toList

end Segment

def keptText (cs : Text) : List Segment := cs.map .kept

/-- In the text `before`, some of the placeholders, none of which overlap, are replaced by the value,
and all else is kept. -/
structure Replaces (placeholders : List String) (value before after : String)
    (segments : List Segment) : Prop where
  before : segments.flatMap Segment.source = before.toList
  after : segments.flatMap (Segment.shown value) = after.toList
  among : ∀ placeholder, .replaced placeholder ∈ segments → placeholder ∈ placeholders

def Exhausts (placeholders : List String) (segments : List Segment) : Prop :=
  ∀ placeholder ∈ placeholders, ¬keptText placeholder.toList <:+: segments

def mark (placeholder : String) (segments : List Segment) : List Segment :=
  match segments with
  | [] => []
  | segment :: rest =>
    if (keptText placeholder.toList).isPrefixOf (segment :: rest) then
      .replaced placeholder :: mark placeholder (rest.drop (placeholder.length - 1))
    else segment :: mark placeholder rest
termination_by segments.length
decreasing_by
  · simp only [List.length_drop, List.length_cons]
    omega
  · exact Nat.lt_succ_self _

def marked (placeholders : List String) (segments : List Segment) : List Segment :=
  placeholders.foldl (fun segments placeholder => mark placeholder segments) segments

theorem flatMap_keptText {read : Segment → Text} (same : ∀ c, read (.kept c) = [c]) (cs : Text) :
    (keptText cs).flatMap read = cs := by
  induction cs with
  | nil => rfl
  | cons c cs ih =>
    rw [keptText, List.map_cons, List.flatMap_cons, same, ← keptText, ih, List.singleton_append]

theorem flatMap_source_keptText (cs : Text) : (keptText cs).flatMap Segment.source = cs :=
  flatMap_keptText (fun _ => rfl) cs

theorem flatMap_shown_keptText (value : String) (cs : Text) :
    (keptText cs).flatMap (Segment.shown value) = cs :=
  flatMap_keptText (fun _ => rfl) cs

section Mark

variable {placeholder : String} {segments : List Segment}

theorem exists_found (nonempty : placeholder ≠ "") {segment : Segment} {rest : List Segment}
    (found : (keptText placeholder.toList).isPrefixOf (segment :: rest) = true) :
    segment :: rest =
      keptText placeholder.toList ++ rest.drop (placeholder.length - 1) := by
  obtain ⟨behind, whole⟩ := List.isPrefixOf_iff_prefix.1 found
  have length : (keptText placeholder.toList).length = placeholder.length := by
    rw [keptText, List.length_map, String.length_toList]
  have positive : placeholder.length ≠ 0 := by simpa using nonempty
  have tail : rest.drop (placeholder.length - 1) = behind := by
    calc rest.drop (placeholder.length - 1)
        = (segment :: rest).drop (placeholder.length - 1 + 1) := rfl
      _ = (keptText placeholder.toList ++ behind).drop (keptText placeholder.toList).length := by
          rw [whole, length, Nat.sub_add_cancel (Nat.one_le_iff_ne_zero.2 positive)]
      _ = behind := List.drop_left
  rw [tail, whole]

theorem flatMap_source_mark (nonempty : placeholder ≠ "") (segments : List Segment) :
    (mark placeholder segments).flatMap Segment.source = segments.flatMap Segment.source := by
  fun_induction mark placeholder segments with
  | case1 => rfl
  | case2 segment rest found ih =>
    rw [exists_found nonempty found, List.flatMap_cons, ih, List.flatMap_append,
      flatMap_source_keptText]
    rfl
  | case3 segment rest missing ih => rw [List.flatMap_cons, ih, List.flatMap_cons]

theorem among_mark {other : String}
    (member : .replaced other ∈ mark placeholder segments) :
    other = placeholder ∨ .replaced other ∈ segments := by
  fun_induction mark placeholder segments with
  | case1 => exact .inr member
  | case2 segment rest found ih =>
    rcases List.mem_cons.1 member with same | behind
    · cases same
      exact .inl rfl
    · exact (ih behind).imp_right fun inside =>
        List.mem_cons_of_mem segment (List.mem_of_mem_drop inside)
  | case3 segment rest missing ih =>
    rcases List.mem_cons.1 member with same | behind
    · rw [same]
      exact .inr List.mem_cons_self
    · exact (ih behind).imp_right (List.mem_cons_of_mem segment)

theorem prefix_of_mark {cs : Text} (begins : keptText cs <+: mark placeholder segments) :
    keptText cs <+: segments := by
  fun_induction mark placeholder segments generalizing cs with
  | case1 => exact begins
  | case2 segment rest found ih =>
    cases cs with
    | nil => exact List.nil_prefix
    | cons c cs => cases (List.cons_prefix_cons.1 begins).1
  | case3 segment rest missing ih =>
    cases cs with
    | nil => exact List.nil_prefix
    | cons c cs =>
      obtain ⟨same, behind⟩ := List.cons_prefix_cons.1 begins
      exact List.cons_prefix_cons.2 ⟨same, ih behind⟩

/-- Marking keeps no text that was not kept before. -/
theorem infix_of_mark {cs : Text} (within : keptText cs <:+: mark placeholder segments) :
    keptText cs <:+: segments := by
  fun_induction mark placeholder segments with
  | case1 => exact within
  | case2 segment rest found ih =>
    rcases List.infix_cons_iff.1 within with begins | behind
    · cases cs with
      | nil => exact List.nil_infix
      | cons c cs => cases (List.cons_prefix_cons.1 begins).1
    · exact List.infix_cons ((ih behind).trans (List.drop_suffix _ rest).isInfix)
  | case3 segment rest missing ih =>
    rcases List.infix_cons_iff.1 within with begins | behind
    · cases cs with
      | nil => exact List.nil_infix
      | cons c cs =>
        obtain ⟨same, inside⟩ := List.cons_prefix_cons.1 begins
        exact (List.cons_prefix_cons.2 ⟨same, prefix_of_mark inside⟩).isInfix
    · exact List.infix_cons (ih behind)

theorem not_infix_mark (nonempty : placeholder ≠ "") (segments : List Segment) :
    ¬keptText placeholder.toList <:+: mark placeholder segments := by
  obtain ⟨c, cs, whole⟩ := List.exists_cons_of_ne_nil (mt String.toList_eq_nil_iff.1 nonempty)
  fun_induction mark placeholder segments with
  | case1 =>
    rw [whole]
    exact fun within => absurd (List.infix_nil.1 within) (List.cons_ne_nil _ _)
  | case2 segment rest found ih =>
    intro within
    rcases List.infix_cons_iff.1 within with begins | behind
    · rw [whole] at begins
      cases (List.cons_prefix_cons.1 begins).1
    · exact ih behind
  | case3 segment rest missing ih =>
    intro within
    rcases List.infix_cons_iff.1 within with begins | behind
    · refine missing (List.isPrefixOf_iff_prefix.2 ?_)
      rw [whole] at begins ⊢
      obtain ⟨same, inside⟩ := List.cons_prefix_cons.1 begins
      exact List.cons_prefix_cons.2 ⟨same, prefix_of_mark inside⟩
    · exact ih behind

end Mark

section Marked

variable {placeholders : List String}

theorem flatMap_source_marked (nonempty : ∀ p ∈ placeholders, p ≠ "") (segments : List Segment) :
    (marked placeholders segments).flatMap Segment.source = segments.flatMap Segment.source := by
  induction placeholders generalizing segments with
  | nil => rfl
  | cons first rest ih =>
    rw [marked, List.foldl_cons, ← marked,
      ih fun p member => nonempty p (List.mem_cons_of_mem first member),
      flatMap_source_mark (nonempty first List.mem_cons_self)]

theorem among_marked {segments : List Segment} {other : String}
    (member : .replaced other ∈ marked placeholders segments) :
    other ∈ placeholders ∨ .replaced other ∈ segments := by
  induction placeholders generalizing segments with
  | nil => exact .inr member
  | cons first rest ih =>
    rcases ih member with later | marked
    · exact .inl (List.mem_cons_of_mem first later)
    · rcases among_mark marked with rfl | before
      · exact .inl List.mem_cons_self
      · exact .inr before

theorem infix_of_marked {segments : List Segment} {cs : Text}
    (within : keptText cs <:+: marked placeholders segments) : keptText cs <:+: segments := by
  induction placeholders generalizing segments with
  | nil => exact within
  | cons first rest ih => exact infix_of_mark (ih within)

theorem exhausts_marked (nonempty : ∀ p ∈ placeholders, p ≠ "") (segments : List Segment) :
    Exhausts placeholders (marked placeholders segments) := by
  induction placeholders generalizing segments with
  | nil => exact fun p member => absurd member List.not_mem_nil
  | cons first rest ih =>
    intro placeholder member
    rcases List.mem_cons.1 member with rfl | behind
    · intro within
      exact not_infix_mark (nonempty placeholder List.mem_cons_self) segments
        (infix_of_marked within)
    · exact ih (fun p later => nonempty p (List.mem_cons_of_mem first later)) _ placeholder behind

end Marked

end Scaffold.Template
