import Mathlib.Tactic.Common
import Scaffold.Template.Render

/-! Runs of the renderer, step by step. A directive acts on the open blocks alone, and whether
a character is visible can be read off the open blocks. The marks of a run are what it passes
on to the building of lines: that a directive was read, and each visible character. -/

namespace Scaffold.Template

def Directive.blocksAfter (flags : FlagSet) (blocks : List Block) : Directive → List Block
  | .ifHolds condition =>
    ⟨condition, (Condition.evaluate flags condition).value, false⟩ :: blocks
  | .elseBranch =>
    match blocks with
    | [] => []
    | block :: outer => { block with inElse := true } :: outer
  | .endIf => blocks.tail

def Piece.blocksAfter (flags : FlagSet) (blocks : List Block) : Piece → List Block
  | .directive d _ => d.blocksAfter flags blocks
  | .plain _ => blocks

/-- A block is in the branch that was taken iff its condition holds or its `[else]` has come,
but not both. -/
theorem Block.isActive_iff (block : Block) :
    block.isActive = true ↔ (block.holds = true ↔ ¬block.inElse = true) := by
  unfold Block.isActive
  cases block.holds <;> cases block.inElse <;> decide

inductive Mark where
  | directive
  | shown (c : Char)
  deriving DecidableEq

def Mark.char? : Mark → Option Char
  | .directive => none
  | .shown c => some c

namespace Renderer

theorem apply_value (flags : FlagSet) (r : Renderer) (d : Directive) :
    (r.apply flags d).value = r.withBlocks (d.blocksAfter flags r.blocks) := by
  cases d with
  | ifHolds condition => rfl
  | elseBranch =>
    cases blocks : r.blocks with
    | nil => simp only [apply, blocks]; rfl
    | cons block outer => simp only [apply, blocks]; rfl
  | endIf =>
    cases blocks : r.blocks with
    | nil => simp only [apply, blocks]; rfl
    | cons block outer => simp only [apply, blocks]; rfl

theorem step_directive (flags : FlagSet) (r : Renderer) (d : Directive) (source : Text) :
    (r.step flags (.directive d source)).value =
      (r.withBlocks (d.blocksAfter flags r.blocks)).advance source := by
  rw [← apply_value]
  rfl

theorem step_plain (flags : FlagSet) (r : Renderer) (c : Char) :
    (r.step flags (.plain c)).value = (r.advance [c]).emit c := rfl

theorem emit_blocks (r : Renderer) (c : Char) : (r.emit c).blocks = r.blocks := by
  unfold emit write endLine
  split_ifs <;> rfl

theorem emit_visible (r : Renderer) (c : Char) : (r.emit c).visible = r.visible := by
  unfold emit write endLine
  split_ifs <;> rfl

theorem emit_hidden (r : Renderer) (c : Char) (hidden : r.visible = false) : r.emit c = r := by
  simp [emit, hidden]

theorem emit_dropped (r : Renderer) (c : Char) (dropped : (r.trimming && isSpace c) = true) :
    r.emit c = r := by
  simp [emit, dropped]

theorem emit_break (r : Renderer) (visible : r.visible = true) :
    r.emit '\n' = { r with trimming := false }.endLine := by
  simp [emit, write, visible, isSpace]

theorem emit_written (r : Renderer) {c : Char} (visible : r.visible = true) (other : c ≠ '\n')
    (stays : (r.trimming && isSpace c) = false) :
    r.emit c =
      { r with
        line := r.line.push c
        trimming := false
        hasContent := r.hasContent || !isSpace c } := by
  simp [emit, write, visible, stays, other]

theorem step_blocks (flags : FlagSet) (r : Renderer) (piece : Piece) :
    (r.step flags piece).value.blocks = piece.blocksAfter flags r.blocks := by
  cases piece with
  | directive d source => rw [step_directive]; rfl
  | plain c => rw [step_plain, emit_blocks]; rfl

def Consistent (r : Renderer) : Prop := r.visible = r.blocks.all Block.isActive

theorem consistent_start : start.Consistent := rfl

theorem Consistent.step {r : Renderer} (consistent : r.Consistent) (flags : FlagSet)
    (piece : Piece) : (r.step flags piece).value.Consistent := by
  cases piece with
  | directive d source => rw [step_directive]; rfl
  | plain c =>
    unfold Consistent
    rw [step_plain, emit_visible, emit_blocks]
    exact consistent

theorem run_nil (flags : FlagSet) (r : Renderer) : (r.run flags []).value = r := rfl

theorem run_cons (flags : FlagSet) (r : Renderer) (piece : Piece) (rest : List Piece) :
    (r.run flags (piece :: rest)).value =
      ((r.step flags piece).value.run flags rest).value := rfl

theorem run_append (flags : FlagSet) (r : Renderer) (first second : List Piece) :
    (r.run flags (first ++ second)).value =
      ((r.run flags first).value.run flags second).value := by
  induction first generalizing r with
  | nil => rfl
  | cons piece rest ih =>
    rw [List.cons_append, run_cons, run_cons]
    exact ih _

theorem Consistent.run {r : Renderer} (consistent : r.Consistent) (flags : FlagSet)
    (pieces : List Piece) : (r.run flags pieces).value.Consistent := by
  induction pieces generalizing r with
  | nil => exact consistent
  | cons piece rest ih => exact ih (consistent.step flags piece)

theorem run_blocks (flags : FlagSet) (r : Renderer) (pieces : List Piece) :
    (r.run flags pieces).value.blocks =
      pieces.foldl (fun blocks piece => piece.blocksAfter flags blocks) r.blocks := by
  induction pieces generalizing r with
  | nil => rfl
  | cons piece rest ih => rw [run_cons, ih, step_blocks, List.foldl_cons]

def marks (flags : FlagSet) (r : Renderer) : List Piece → List Mark
  | [] => []
  | .directive d source :: rest =>
    .directive :: marks flags (r.step flags (.directive d source)).value rest
  | .plain c :: rest =>
    (if r.visible then [.shown c] else []) ++ marks flags (r.step flags (.plain c)).value rest

end Renderer

theorem value_render (flags : FlagSet) (template : Text) :
    (render flags (String.ofList template)).value =
      collapseBlankLines (Renderer.start.run flags (pieces template)).value.text := by
  rw [render, String.toList_ofList]
  rfl

/-- The characters of a template that are visible, in order. -/
def visibleText (flags : FlagSet) (pieces : List Piece) : Text :=
  (Renderer.start.marks flags pieces).filterMap Mark.char?

end Scaffold.Template
