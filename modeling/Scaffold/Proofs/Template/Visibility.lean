import Mathlib.Tactic.Common
import Scaffold.Proofs.Template.Nesting
import Scaffold.Proofs.Template.Output

/-! Where a template is visible: a character is, iff it lies in the branch that was taken of
each block that is open around it. For templates whose directives all find their partners this
is the text that recursion over the tree of blocks gives. -/

namespace Scaffold.Template.Matching

structure WellNested (ps : List Piece) : Prop where
  closing : ∀ j, EndIfAt ps j → ∃ i, Closes ps i j
  closed : ∀ i condition, IfAt ps i condition → ∃ j, Closes ps i j

theorem Closes.lt_length {ps : List Piece} {i j : Nat} (closes : Closes ps i j) :
    j < ps.length := by
  obtain ⟨source, here⟩ := ((closes_iff ps i j).1 closes).1
  exact (List.getElem?_eq_some_iff.1 here).1

namespace Tracks

variable {flags : FlagSet} {ps : List Piece} {n : Nat} {blocks next : List (Nat × Block)}

theorem closing_iff (tracks : Tracks flags ps n blocks) (ends : EndIfAt ps n) :
    (∃ i, Closes ps i n) ↔ blocks ≠ [] := by
  cases blocks with
  | nil => simp [closes_iff, tracks.not_innermost]
  | cons entry outer => simp [closes_iff, tracks.innermost_cons, ends]

theorem closed_iff (tracks : Tracks flags ps ps.length blocks) :
    (∀ i condition, IfAt ps i condition → ∃ j, Closes ps i j) ↔ blocks = [] := by
  constructor
  · intro closed
    cases blocks with
    | nil => rfl
    | cons entry outer =>
      obtain ⟨⟨condition, isIf⟩, _, unclosed⟩ := (tracks.isOpen entry.1).1 (by simp)
      obtain ⟨j, closes⟩ := closed entry.1 condition isIf
      exact absurd closes (unclosed j closes.lt_length)
  · rintro rfl i condition isIf
    by_contra never
    obtain ⟨source, here⟩ := isIf
    have inside := (List.getElem?_eq_some_iff.1 here).1
    have isOpen : IsOpen ps i ps.length :=
      ⟨⟨condition, source, here⟩, inside, fun k _ closes => never ⟨k, closes⟩⟩
    simpa using (tracks.isOpen i).2 isOpen

theorem closesAll_step (inside : n < ps.length)
    (same : next.map Prod.snd = ps[n].blocksAfter flags (blocks.map Prod.snd)) :
    closesAll blocks.length (ps.drop n) = true ↔
      (EndIfAt ps n → blocks ≠ []) ∧ closesAll next.length (ps.drop (n + 1)) = true := by
  have lengths := congrArg List.length same
  have here : ps[n]? = some ps[n] := List.getElem?_eq_getElem inside
  rw [List.length_map] at lengths
  rw [List.drop_eq_getElem_cons inside, lengths]
  cases piece : ps[n] with
  | plain c =>
    rw [piece] at here
    simp [closesAll, Piece.blocksAfter, EndIfAt, here]
  | directive d source =>
    rw [piece] at here
    cases d with
    | ifHolds condition =>
      simp [closesAll, Piece.blocksAfter, Directive.blocksAfter, EndIfAt, here]
    | elseBranch =>
      cases blocks <;> simp [closesAll, Piece.blocksAfter, Directive.blocksAfter, EndIfAt, here]
    | endIf =>
      cases blocks <;> simp [closesAll, Piece.blocksAfter, Directive.blocksAfter, EndIfAt, here]

end Tracks

theorem WellNested.closesAll_drop {ps : List Piece} (wellNested : WellNested ps)
    {flags : FlagSet} (left : Nat) :
    ∀ (n : Nat) (blocks : List (Nat × Block)), n + left = ps.length →
      Tracks flags ps n blocks → closesAll blocks.length (ps.drop n) = true := by
  induction left with
  | zero =>
    intro n blocks atEnd tracks
    have : n = ps.length := by omega
    subst this
    rw [tracks.closed_iff.1 wellNested.closed, List.drop_length]
    rfl
  | succ left ih =>
    intro n blocks before tracks
    have inside : n < ps.length := by omega
    obtain ⟨next, tracksNext, same⟩ := tracks.step (List.getElem?_eq_getElem inside)
    rw [Tracks.closesAll_step inside same]
    exact ⟨fun ends => (tracks.closing_iff ends).1 (wellNested.closing n ends),
      ih (n + 1) next (by omega) tracksNext⟩

theorem exists_tracks_closesAll (flags : FlagSet) {ps : List Piece}
    (closes : closesAll 0 ps = true) (n : Nat) (bound : n ≤ ps.length) :
    ∃ blocks, Tracks flags ps n blocks ∧ closesAll blocks.length (ps.drop n) = true := by
  induction n with
  | zero => exact ⟨[], tracks_start flags ps, closes⟩
  | succ n ih =>
    obtain ⟨blocks, tracks, closes⟩ := ih (by omega)
    obtain ⟨next, tracksNext, same⟩ := tracks.step (List.getElem?_eq_getElem bound)
    exact ⟨next, tracksNext, ((Tracks.closesAll_step bound same).1 closes).2⟩

/-- Whether all directives find their partners can be found out by counting. -/
theorem wellNested_iff (ps : List Piece) : WellNested ps ↔ closesAll 0 ps = true := by
  constructor
  · intro wellNested
    exact wellNested.closesAll_drop ps.length 0 [] (by simp) (tracks_start FlagSet.none ps)
  · intro closes
    constructor
    · intro j ends
      obtain ⟨source, here⟩ := id ends
      have inside := (List.getElem?_eq_some_iff.1 here).1
      obtain ⟨blocks, tracks, closesHere⟩ :=
        exists_tracks_closesAll FlagSet.none closes j (Nat.le_of_lt inside)
      obtain ⟨next, _, same⟩ := tracks.step (List.getElem?_eq_getElem inside)
      exact (tracks.closing_iff ends).2 (((Tracks.closesAll_step inside same).1 closesHere).1 ends)
    · obtain ⟨blocks, tracks, closesHere⟩ :=
        exists_tracks_closesAll FlagSet.none closes ps.length (Nat.le_refl _)
      rw [List.drop_length] at closesHere
      refine tracks.closed_iff.2 (List.eq_nil_of_length_eq_zero ?_)
      simpa [closesAll] using closesHere

instance (ps : List Piece) : Decidable (WellNested ps) :=
  decidable_of_iff _ (wellNested_iff ps).symm

end Scaffold.Template.Matching
