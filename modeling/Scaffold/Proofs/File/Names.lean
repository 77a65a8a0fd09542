import Mathlib.Data.List.DropRight
import Scaffold.File.Tree
import Scaffold.Proofs.File.Pieces

/-! The names of a path, of the directories around it and of a joined path. The directory around
a path has the names of the path before its last one; only dots may stand between and behind. -/

namespace Scaffold.Path

open FileTree (names)

theorem isIdle_iff {piece : Bytes} : isIdle piece = true ↔ piece = [] ∨ piece = [dot] := by
  simp [isIdle]

def Stays (dots : List Bytes) : Prop := ∀ name ∈ dots, name = [dot]

theorem stays_filter_of_idle {pieces : List Bytes} (idle : ∀ piece ∈ pieces, isIdle piece = true) :
    Stays (pieces.filter (· ≠ [])) := by
  intro name member
  obtain ⟨among, nonempty⟩ := List.mem_filter.1 member
  exact (isIdle_iff.1 (idle name among)).resolve_left (by simpa using nonempty)

theorem outerOf_eq_of_dropWhile (first : Bytes) {behind other : List Bytes}
    (same : behind.dropWhile isIdle = other.dropWhile isIdle) :
    outerOf first behind = outerOf first other := by
  have skips : ∀ behind, outerOf first behind = outerOf first (behind.dropWhile isIdle) := by
    intro behind
    induction behind with
    | nil => rfl
    | cons piece behind ih =>
      by_cases idle : isIdle piece = true
      · rw [List.dropWhile_cons_of_pos idle, outerOf, if_pos idle, ih]
      · rw [List.dropWhile_cons_of_neg idle]
  rw [skips behind, skips other, same]

/-- The nearest directory around a path is the one its last piece stands in. -/
theorem outerOf_eq_cons {first : Bytes} {behind : List Bytes} {next : Path} {more : List Path}
    (around : outerOf first behind = next :: more) (nonempty : next ≠ []) :
    ∃ gap piece inner, behind = gap ++ piece :: inner ∧ (∀ part ∈ gap, isIdle part = true) ∧
      isIdle piece = false ∧ next = remaining first inner ∧ more = outerOf first inner := by
  induction behind with
  | nil =>
    rw [outerOf] at around
    split_ifs at around
    cases around
    exact absurd rfl nonempty
  | cons piece behind ih =>
    rw [outerOf] at around
    split_ifs at around with idle
    · obtain ⟨gap, last, inner, split, gapIdle, facts⟩ := ih around
      refine ⟨piece :: gap, last, inner, by rw [split, List.cons_append], ?_, facts⟩
      exact List.forall_mem_cons.2 ⟨idle, gapIdle⟩
    · cases around
      exact ⟨[], piece, behind, rfl, fun part among => absurd among List.not_mem_nil,
        by simpa using idle, rfl, rfl⟩

theorem exists_pieces_remaining {first : Bytes} {inner : List Bytes}
    (within : ∀ part ∈ first :: inner, slash ∉ part) :
    ∃ kept, (remaining first inner).pieces = first :: kept.reverse ∧
      kept.dropWhile isIdle = inner.dropWhile isIdle ∧
      (first = [] → kept ≠ []) ∧
      ∃ gap : List Bytes, (∀ part ∈ gap, isIdle part = true) ∧
        (first :: inner.reverse).filter (· ≠ []) =
          (first :: kept.reverse).filter (· ≠ []) ++ gap.filter (· ≠ []) := by
  have split : inner.reverse =
      (inner.dropWhile isIdle).reverse ++ (inner.takeWhile isIdle).reverse := by
    rw [← List.reverse_append, List.takeWhile_append_dropWhile]
  have idle : ∀ part ∈ (inner.takeWhile isIdle).reverse, isIdle part = true := fun part among =>
    List.mem_takeWhile_imp (List.mem_reverse.1 among)
  by_cases idleOnly : inner.dropWhile isIdle = []
  · rw [remaining_of_idle idleOnly]
    rw [idleOnly, List.reverse_nil, List.nil_append] at split
    by_cases empty : first = []
    · subst empty
      refine ⟨[[]], by rw [if_pos rfl]; decide, by simp [idleOnly, isIdle], by simp, _, idle, ?_⟩
      simp [split]
    · refine ⟨[], ?_, by simp [idleOnly], fun same => absurd same empty, _, idle, ?_⟩
      · rw [if_neg empty]
        exact pieces_of_not_mem (within first List.mem_cons_self)
      · rw [split, List.reverse_nil, ← List.filter_append]
        rfl
  · refine ⟨inner.dropWhile isIdle, pieces_remaining_of_busy idleOnly within, ?_,
      fun _ => idleOnly, _, idle, ?_⟩
    · exact List.dropWhile_idempotent _ _
    · rw [split, ← List.filter_append]
      rfl

theorem pieces_of_reverse {p : Path} {first piece : Bytes} {rest front inner : List Bytes}
    (pieces : p.pieces = first :: rest) (split : rest.reverse = front ++ piece :: inner) :
    rest = inner.reverse ++ (piece :: front.reverse) ∧ ∀ part ∈ first :: inner, slash ∉ part := by
  have rest_eq : rest = inner.reverse ++ (piece :: front.reverse) := by
    rw [← List.reverse_reverse rest, split, List.reverse_append, List.reverse_cons,
      List.append_assoc, List.singleton_append]
  refine ⟨rest_eq, fun part member => slash_not_mem_of_mem_pieces (p := p) ?_⟩
  rw [pieces, rest_eq]
  rcases List.mem_cons.1 member with rfl | member
  · exact List.mem_cons_self
  · exact List.mem_cons_of_mem _ (List.mem_append_left _ (List.mem_reverse.2 member))

theorem outer_eq_cons {p next : Path} {more : List Path} (around : p.outer = next :: more)
    (nonempty : next ≠ []) :
    next.outer = more ∧ next.isAbsolute = p.isAbsolute ∧
      ∃ before name behind, names p = names next ++ (before ++ name :: behind) ∧
        Stays before ∧ Stays behind ∧ name ≠ [dot] := by
  obtain ⟨first, rest, pieces⟩ := exists_pieces p
  rw [outer, pieces] at around
  obtain ⟨gap, piece, inner, split, gapIdle, pieceBusy, rfl, rfl⟩ := outerOf_eq_cons around nonempty
  obtain ⟨rest_eq, within⟩ := pieces_of_reverse pieces split
  obtain ⟨kept, remains, same, more, skipped, idle, names_eq⟩ := exists_pieces_remaining within
  have busy : piece ≠ [] ∧ piece ≠ [dot] := by simpa [isIdle] using pieceBusy
  have gapIdle' : ∀ part ∈ gap.reverse, isIdle part = true := fun part among =>
    gapIdle part (List.mem_reverse.1 among)
  refine ⟨?_, ?_, _, piece, _, ?_, stays_filter_of_idle idle, stays_filter_of_idle gapIdle',
    busy.2⟩
  · rw [outer, remains]
    simpa using outerOf_eq_of_dropWhile first same
  · refine Bool.eq_iff_iff.2 ?_
    rw [isAbsolute_iff _ remains, isAbsolute_iff _ pieces, rest_eq]
    simpa using more
  · rw [names, names, pieces, remains, rest_eq, ← List.cons_append, List.filter_append, names_eq,
      List.append_assoc]
    congr 2
    exact List.filter_cons_of_pos (by simpa using busy.1)

structure Begins (q p : Path) : Prop where
  isAbsolute : q.isAbsolute = p.isAbsolute
  names : FileTree.names q <+: FileTree.names p

theorem mem_outerOf {first : Bytes} {behind : List Bytes} {q : Path}
    (member : q ∈ outerOf first behind) (nonempty : q ≠ []) :
    ∃ front piece inner, behind = front ++ piece :: inner ∧ q = remaining first inner := by
  induction behind with
  | nil =>
    rw [outerOf] at member
    split_ifs at member
    · exact nomatch member
    · exact absurd (List.mem_singleton.1 member) nonempty
  | cons piece behind ih =>
    have further : q ∈ outerOf first behind →
        ∃ front last inner, piece :: behind = front ++ last :: inner ∧
          q = remaining first inner := by
      intro member
      obtain ⟨front, last, inner, split, same⟩ := ih member
      exact ⟨piece :: front, last, inner, by rw [split, List.cons_append], same⟩
    rw [outerOf] at member
    split_ifs at member
    · exact further member
    · rcases List.mem_cons.1 member with same | member
      · exact ⟨[], piece, behind, rfl, same⟩
      · exact further member

theorem begins_of_mem_outer {p q : Path} (member : q ∈ p.outer) (nonempty : q ≠ []) :
    q.Begins p := by
  obtain ⟨first, rest, pieces⟩ := exists_pieces p
  rw [outer, pieces] at member
  obtain ⟨front, piece, inner, split, rfl⟩ := mem_outerOf member nonempty
  obtain ⟨rest_eq, within⟩ := pieces_of_reverse pieces split
  obtain ⟨kept, remains, _, more, gap, _, names_eq⟩ := exists_pieces_remaining within
  constructor
  · refine Bool.eq_iff_iff.2 ?_
    rw [isAbsolute_iff _ remains, isAbsolute_iff _ pieces, rest_eq]
    simpa using more
  · rw [FileTree.names, FileTree.names, pieces, remains, rest_eq, ← List.cons_append,
      List.filter_append, names_eq, List.append_assoc]
    exact List.prefix_append _ _

/-- The names of a joined path are those of both. -/
theorem names_join {p q : Path} (nonempty : p ≠ []) (relative : q.isAbsolute = false) :
    names (p.join q) = names p ++ names q := by
  have whole : ∀ front, names (front ++ slash :: q) = names front ++ names q := by
    intro front
    rw [names, pieces_append_slash, List.filter_append, names, names]
  rw [join, relative, if_neg Bool.false_ne_true]
  split_ifs with ends
  · obtain ⟨front, rfl⟩ : ∃ front, p = front ++ [slash] :=
      List.getLast?_eq_some_iff.1 (by simpa [nonempty] using ends)
    have alone : names (front ++ [slash]) = names front := by
      rw [names, pieces_append_slash, List.filter_append, names]
      exact List.append_nil _
    rw [List.append_assoc, List.singleton_append, whole, alone]
  · exact whole p

theorem isAbsolute_join {p q : Path} (nonempty : p ≠ []) (relative : q.isAbsolute = false) :
    (p.join q).isAbsolute = p.isAbsolute := by
  obtain ⟨b, p, rfl⟩ := List.exists_cons_of_ne_nil nonempty
  rw [join, relative, if_neg Bool.false_ne_true]
  split_ifs <;> rfl

end Scaffold.Path
