import Mathlib.Tactic.Common
import Scaffold.Proofs.Template.Chunk
import Scaffold.Proofs.Template.Visibility

/-! Text in a hidden place. The directives in it are read all the same: they open and close
blocks, and each says that a directive came last. But text is only hidden behind a directive, so
that is known already, and self-contained text leaves as many blocks open as it has found. -/

namespace Scaffold.Template

open Matching

/-- Text whose directives keep to themselves: no bracket is left open, the blocks that are opened
in it are the ones that are closed in it, and an `[else]` belongs to one of them. -/
structure SelfContained (cs : Text) : Prop where
  brackets : BracketsClose cs
  nested : WellNested (pieces cs)
  inside : ∀ n, ElseAt (pieces cs) n → ∃ i, IsOpen (pieces cs) i n

theorem Directive.blocksAfter_append (flags : FlagSet) {d : Directive} {inner : List Block}
    (outer : List Block) (own : d = .elseBranch ∨ d = .endIf → inner ≠ []) :
    d.blocksAfter flags (inner ++ outer) = d.blocksAfter flags inner ++ outer := by
  cases d with
  | ifHolds condition => rfl
  | elseBranch =>
    cases inner with
    | nil => exact absurd rfl (own (.inl rfl))
    | cons block inner => rfl
  | endIf =>
    cases inner with
    | nil => exact absurd rfl (own (.inr rfl))
    | cons block inner => rfl

theorem Directive.source_append_of_read? {cs after : Text} {d : Directive}
    (found : read? cs = some (d, after)) : source cs ++ after = '[' :: cs := by
  obtain ⟨inner, rfl, unclosed, _⟩ := exists_closed_of_read? found
  rw [source, takeWhile_closed unclosed, List.append_assoc, List.cons_append,
    List.singleton_append]

theorem flatMap_source_pieces (cs : Text) : (pieces cs).flatMap Piece.source = cs := by
  fun_induction pieces cs with
  | case1 => rfl
  | case2 rest d after found ih =>
    rw [List.flatMap_cons, ih]
    exact Directive.source_append_of_read? found
  | case3 rest missing ih =>
    rw [List.flatMap_cons, ih]
    rfl
  | case4 c rest other ih =>
    rw [List.flatMap_cons, ih]
    rfl

namespace Renderer

theorem advance_append (r : Renderer) (first second : Text) :
    (r.advance first).advance second = r.advance (first ++ second) := by
  simp only [advance, List.count_append, Nat.add_assoc]

theorem advance_comm (r : Renderer) (first second : Text) :
    (r.advance first).advance second = (r.advance second).advance first := by
  simp only [advance, Nat.add_right_comm]

theorem emit_advance (r : Renderer) (source : Text) (c : Char) :
    (r.advance source).emit c = (r.emit c).advance source := by
  by_cases visible : r.visible = true
  · by_cases dropped : (r.trimming && isSpace c) = true
    · rw [emit_dropped r c dropped, emit_dropped (r.advance source) c dropped]
    · by_cases isBreak : c = '\n'
      · rw [isBreak, emit_break r visible, emit_break (r.advance source) visible]
        rfl
      · have stays := Bool.eq_false_iff.2 dropped
        rw [emit_written r visible isBreak stays,
          emit_written (r.advance source) visible isBreak stays]
        rfl
  · have hidden := Bool.eq_false_iff.2 visible
    rw [emit_hidden r c hidden, emit_hidden (r.advance source) c hidden]

theorem run_advance (flags : FlagSet) (ps : List Piece) (r : Renderer) (source : Text) :
    ((r.advance source).run flags ps).value = (r.run flags ps).value.advance source := by
  induction ps generalizing r with
  | nil => rfl
  | cons piece rest ih =>
    have step : ((r.advance source).step flags piece).value =
        (r.step flags piece).value.advance source := by
      cases piece with
      | directive d inner =>
        rw [step_directive, step_directive]
        exact advance_comm (r.withBlocks (d.blocksAfter flags r.blocks)) source inner
      | plain c => rw [step_plain, step_plain, advance_comm, emit_advance]
    rw [run_cons, run_cons, step, ih]

def Settled (r : Renderer) : Prop :=
  r.visible = false → r.trimming = true ∧ r.hasDirective = true

theorem settled_start : start.Settled := fun hidden => absurd hidden (by decide)

theorem Settled.step {r : Renderer} (settled : r.Settled) (flags : FlagSet) (piece : Piece) :
    (r.step flags piece).value.Settled := by
  cases piece with
  | directive d source =>
    rw [step_directive]
    exact fun _ => ⟨rfl, rfl⟩
  | plain c =>
    rw [step_plain]
    intro hidden
    rw [emit_visible] at hidden
    rw [emit_hidden _ c hidden]
    exact settled hidden

theorem Settled.run {r : Renderer} (settled : r.Settled) (flags : FlagSet) (ps : List Piece) :
    (r.run flags ps).value.Settled := by
  induction ps generalizing r with
  | nil => exact settled
  | cons piece rest ih => exact ih (settled.step flags piece)

/-- A piece between two hidden places changes the open blocks alone. -/
theorem step_hidden (flags : FlagSet) {r : Renderer} (settled : r.Settled)
    (hidden : r.visible = false) {piece : Piece}
    (still : (piece.blocksAfter flags r.blocks).all Block.isActive = false) :
    (r.step flags piece).value =
      { r with blocks := piece.blocksAfter flags r.blocks }.advance piece.source := by
  cases piece with
  | directive d source =>
    obtain ⟨trimming, hasDirective⟩ := settled hidden
    rw [step_directive]
    simp only [Piece.blocksAfter] at still
    simp only [advance, withBlocks, Piece.blocksAfter, Piece.source, still, hidden, trimming,
      hasDirective]
  | plain c => exact emit_hidden (r.advance [c]) c hidden

/-- Within text whose directives keep to themselves, the open blocks are its own and, behind
them, those around it. -/
theorem run_take_hidden (flags : FlagSet) {ps : List Piece}
    (closing : ∀ j, EndIfAt ps j → ∃ i, Closes ps i j)
    (inside : ∀ n, ElseAt ps n → ∃ i, IsOpen ps i n) {r : Renderer} (settled : r.Settled)
    (hidden : r.visible = false) (around : r.blocks.all Block.isActive = false) (n : Nat)
    (bound : n ≤ ps.length) :
    ∃ blocks, Tracks flags ps n blocks ∧
      (r.run flags (ps.take n)).value =
        { r with blocks := blocks.map Prod.snd ++ r.blocks }.advance
          ((ps.take n).flatMap Piece.source) := by
  induction n with
  | zero => exact ⟨[], tracks_start flags ps, rfl⟩
  | succ n ih =>
    obtain ⟨blocks, tracks, whole⟩ := ih (by omega)
    have here : ps[n]? = some ps[n] := List.getElem?_eq_getElem bound
    obtain ⟨next, tracksNext, same⟩ := tracks.step here
    have blocksNext : ps[n].blocksAfter flags (blocks.map Prod.snd ++ r.blocks) =
        next.map Prod.snd ++ r.blocks := by
      rw [same]
      cases piece : ps[n] with
      | plain c => rfl
      | directive d source =>
        rw [piece] at here
        refine Directive.blocksAfter_append flags r.blocks fun turns => ?_
        rw [Ne, List.map_eq_nil_iff]
        rcases turns with rfl | rfl
        · obtain ⟨i, isOpen⟩ := inside n ⟨source, here⟩
          obtain ⟨entry, member, _⟩ := List.mem_map.1 ((tracks.isOpen i).2 isOpen)
          exact List.ne_nil_of_mem member
        · exact (tracks.closing_iff ⟨source, here⟩).1 (closing n ⟨source, here⟩)
    refine ⟨next, tracksNext, ?_⟩
    rw [List.take_add_one, here, Option.toList_some, run_append, run_cons, run_nil, whole,
      List.flatMap_append, List.flatMap_singleton, ← advance_append]
    have kept : ({ r with blocks := blocks.map Prod.snd ++ r.blocks }.advance
        ((ps.take n).flatMap Piece.source)).Settled := settled
    have still : (ps[n].blocksAfter flags (blocks.map Prod.snd ++ r.blocks)).all Block.isActive =
        false := by
      rw [blocksNext, List.all_append, around, Bool.and_false]
    rw [step_hidden flags kept hidden still]
    simp only [advance, blocksNext]

/-- Self-contained text in a hidden place only moves the count of lines. -/
theorem run_selfContained (flags : FlagSet) {cs : Text} (contained : SelfContained cs)
    {r : Renderer} (settled : r.Settled) (hidden : r.visible = false)
    (around : r.blocks.all Block.isActive = false) :
    (r.run flags (pieces cs)).value = r.advance cs := by
  obtain ⟨blocks, tracks, whole⟩ := run_take_hidden flags contained.nested.closing
    contained.inside settled hidden around (pieces cs).length (Nat.le_refl _)
  rw [tracks.closed_iff.1 contained.nested.closed, List.take_length, flatMap_source_pieces]
    at whole
  exact whole

end Renderer

/-- In a place where some open block is in the branch that was not taken, self-contained text
changes neither the output nor anything the renderer knows, but for the count of lines; so what is
rendered is the same with any other self-contained text in that place. -/
theorem render_hidden_text (flags : FlagSet) {before : Text} (brackets : BracketsClose before)
    (hidden : ∃ block ∈ (Renderer.start.run flags (pieces before)).value.blocks,
      block.isActive = false)
    {first second : Text} (one : SelfContained first) (other : SelfContained second)
    (after : Text) :
    (render flags (String.ofList (before ++ (first ++ after)))).value =
        (render flags (String.ofList (before ++ (second ++ after)))).value ∧
      (Renderer.start.run flags (pieces (before ++ first))).value =
        (Renderer.start.run flags (pieces before)).value.advance first := by
  have settled := Renderer.settled_start.run flags (pieces before)
  have consistent := Renderer.consistent_start.run flags (pieces before)
  have around : (Renderer.start.run flags (pieces before)).value.blocks.all Block.isActive =
      false := by
    obtain ⟨block, member, inactive⟩ := hidden
    rw [List.all_eq_false]
    exact ⟨block, member, Bool.eq_false_iff.1 inactive⟩
  have notVisible : (Renderer.start.run flags (pieces before)).value.visible = false :=
    consistent.trans around
  have within : ∀ {cs : Text}, SelfContained cs →
      (Renderer.start.run flags (pieces (before ++ cs))).value =
        (Renderer.start.run flags (pieces before)).value.advance cs := by
    intro cs contained
    rw [pieces_append brackets, Renderer.run_append]
    exact Renderer.run_selfContained flags contained settled notVisible around
  have rendered : ∀ {cs : Text}, SelfContained cs →
      (render flags (String.ofList (before ++ (cs ++ after)))).value =
        collapseBlankLines ((Renderer.start.run flags (pieces before)).value.run flags
          (pieces after)).value.text := by
    intro cs contained
    rw [value_render, pieces_append brackets, pieces_append contained.brackets, ← List.append_assoc,
      ← pieces_append brackets, Renderer.run_append, within contained, Renderer.run_advance]
    rfl
  exact ⟨(rendered one).trans (rendered other).symm, within one⟩

theorem selfContained_nil : SelfContained [] where
  brackets := by decide +kernel
  nested := (wellNested_iff _).2 (by rw [pieces]; rfl)
  inside := by simp [ElseAt, pieces]

theorem pieces_nested : pieces "x[if B]\n[else] y[endif] ".toList =
    [.plain 'x', .directive (.ifHolds "B") "[if B]".toList, .plain '\n',
      .directive .elseBranch "[else]".toList, .plain ' ', .plain 'y',
      .directive .endIf "[endif]".toList, .plain ' '] := by decide +kernel

theorem selfContained_nested : SelfContained "x[if B]\n[else] y[endif] ".toList where
  brackets := by decide +kernel
  nested := (wellNested_iff _).2 (by rw [pieces_nested]; rfl)
  inside := by
    rw [pieces_nested]
    rintro n ⟨source, here⟩
    have third : n = 3 := by
      rcases n with _ | _ | _ | _ | _ | _ | _ | _ | n <;> simp at here ⊢
    subst third
    refine ⟨1, ⟨"B", _, rfl⟩, by decide, fun k before closes => ?_⟩
    obtain ⟨source, ends⟩ := ((closes_iff _ 1 k).1 closes).1
    rcases k with _ | _ | _ | k
    · simp at ends
    · simp at ends
    · simp at ends
    · omega

/-- A block with both branches may as well be missing from a block that is dropped. -/
theorem render_hidden_text_block :
    SelfContained "x[if B]\n[else] y[endif] ".toList ∧
      (render FlagSet.none
          (String.ofList ("[if A]".toList ++ ("x[if B]\n[else] y[endif] ".toList ++
            " [endif]\nz".toList)))).value =
        (render FlagSet.none
          (String.ofList ("[if A]".toList ++ ([] ++ " [endif]\nz".toList)))).value := by
  have opening : pieces "[if A]".toList = [.directive (.ifHolds "A") "[if A]".toList] := by
    decide +kernel
  have blocks : (Renderer.start.run FlagSet.none (pieces "[if A]".toList)).value.blocks =
      [⟨"A", false, false⟩] := by
    rw [opening]
    decide +kernel
  exact ⟨selfContained_nested, (render_hidden_text FlagSet.none (by decide +kernel)
    (blocks ▸ ⟨_, List.mem_cons_self, rfl⟩) selfContained_nested selfContained_nil
    " [endif]\nz".toList).1⟩

end Scaffold.Template
