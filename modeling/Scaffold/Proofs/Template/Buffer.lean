import Mathlib.Tactic.Common
import Scaffold.Proofs.Boundaries
import Scaffold.Proofs.Template.Hidden

/-! A renderer that keeps its whole output in one text and knows the byte at which the line being
built begins. A bare line is dropped by cutting the text there, which would fail within a character;
it never does, and what is cut off is white space. -/

namespace Scaffold.Template

/-- A renderer with one text for its output. -/
structure Buffered where
  blocks : List Block
  visible : Bool
  out : Text
  trimming : Bool
  lineStart : Nat
  hasContent : Bool
  hasDirective : Bool
  sourceLine : Nat
  deriving DecidableEq

namespace Buffered

def start : Buffered :=
  { blocks := [], visible := true, out := [], trimming := false, lineStart := 0,
    hasContent := false, hasDirective := false, sourceLine := 1 }

def isBare (b : Buffered) : Bool := b.hasDirective && !b.hasContent

def cutLine? (b : Buffered) : Option Text := Text.truncate? b.lineStart b.out

def withBlocks (b : Buffered) (blocks : List Block) : Buffered :=
  { b with
    blocks := blocks
    visible := blocks.all Block.isActive
    hasDirective := true
    trimming := true }

def advance (b : Buffered) (source : Text) : Buffered :=
  { b with sourceLine := b.sourceLine + source.count '\n' }

def endLine (b : Buffered) : Option Buffered := do
  let out ← if b.isBare then b.cutLine? else some (b.out ++ ['\n'])
  some
    { b with
      out := out
      lineStart := Text.width out
      hasContent := false
      hasDirective := false }

def emit (b : Buffered) (c : Char) : Option Buffered :=
  if !b.visible || (b.trimming && isSpace c) then some b
  else if c = '\n' then { b with trimming := false }.endLine
  else
    some
      { b with
        out := b.out ++ [c]
        trimming := false
        hasContent := b.hasContent || !isSpace c }

def step (flags : FlagSet) (b : Buffered) : Piece → Option Buffered
  | .directive d source => some ((b.withBlocks (d.blocksAfter flags b.blocks)).advance source)
  | .plain c => (b.advance [c]).emit c

def run (flags : FlagSet) (b : Buffered) : List Piece → Option Buffered
  | [] => some b
  | piece :: rest => do
    let b ← b.step flags piece
    run flags b rest

def text? (b : Buffered) : Option Text := if b.isBare then b.cutLine? else some b.out

def render? (flags : FlagSet) (template : String) : Option String := do
  let b ← start.run flags (pieces template.toList)
  let text ← b.text?
  some (collapseBlankLines (String.ofList text))

end Buffered

namespace Renderer

def buffered (r : Renderer) : Buffered :=
  { blocks := r.blocks, visible := r.visible, out := r.finished.toList ++ r.line.toList,
    trimming := r.trimming, lineStart := Text.width r.finished.toList, hasContent := r.hasContent,
    hasDirective := r.hasDirective, sourceLine := r.sourceLine }

theorem cutLine?_buffered (r : Renderer) : r.buffered.cutLine? = some r.finished.toList :=
  Text.truncate?_width _ _

theorem endLine_buffered (r : Renderer) : r.buffered.endLine = some r.endLine.buffered := by
  have same : r.buffered.isBare = r.isBare := rfl
  rw [Buffered.endLine, same, cutLine?_buffered]
  by_cases bare : r.isBare = true
  · simp [buffered, endLine, bare]
  · simp [buffered, endLine, bare]

theorem emit_buffered (r : Renderer) (c : Char) :
    r.buffered.emit c = some (r.emit c).buffered := by
  have silent : (!r.buffered.visible || (r.buffered.trimming && isSpace c)) =
      (!r.visible || (r.trimming && isSpace c)) := rfl
  unfold Buffered.emit emit write
  rw [silent]
  split_ifs with _ isBreak
  · rfl
  · exact endLine_buffered { r with trimming := false }
  · simp [buffered]

/-- A step does the same whichever way the output is kept, and it never fails. -/
theorem step_buffered (flags : FlagSet) (r : Renderer) (piece : Piece) :
    r.buffered.step flags piece = some (r.step flags piece).value.buffered := by
  cases piece with
  | directive d source =>
    rw [step_directive]
    rfl
  | plain c => exact emit_buffered (r.advance [c]) c

theorem run_buffered (flags : FlagSet) (ps : List Piece) (r : Renderer) :
    r.buffered.run flags ps = some (r.run flags ps).value.buffered := by
  induction ps generalizing r with
  | nil => rfl
  | cons piece rest ih =>
    rw [Buffered.run, step_buffered, run_cons]
    exact ih _

theorem text?_buffered (r : Renderer) : r.buffered.text? = some r.text.toList := by
  have same : r.buffered.isBare = r.isBare := rfl
  rw [Buffered.text?, same, cutLine?_buffered, toList_text]
  by_cases bare : r.isBare = true
  · simp [bare]
  · simp [bare, buffered]

def Directed (r : Renderer) : Prop := r.trimming = true → r.hasDirective = true

theorem directed_start : start.Directed := fun trimming => trimming

theorem Directed.emit {r : Renderer} (directed : r.Directed) (c : Char) : (r.emit c).Directed := by
  unfold Renderer.emit write
  split_ifs
  · exact directed
  · exact fun trimming => absurd trimming Bool.false_ne_true
  · exact fun trimming => absurd trimming Bool.false_ne_true

theorem Directed.step {r : Renderer} (directed : r.Directed) (flags : FlagSet) (piece : Piece) :
    (r.step flags piece).value.Directed := by
  cases piece with
  | directive d source =>
    rw [step_directive]
    exact fun _ => rfl
  | plain c =>
    have advanced : (r.advance [c]).Directed := directed
    exact advanced.emit c

theorem Directed.run {r : Renderer} (directed : r.Directed) (flags : FlagSet) (ps : List Piece) :
    (r.run flags ps).value.Directed := by
  induction ps generalizing r with
  | nil => exact directed
  | cons piece rest ih => exact ih (directed.step flags piece)

end Renderer

structure Buffered.Sound (b : Buffered) : Prop where
  visible : b.visible = true ↔ ∀ block ∈ b.blocks, block.isActive = true
  inside : b.lineStart ≤ Text.width b.out
  line : ∃ before line, Text.splitAt? b.lineStart b.out = some (before, line) ∧
    Text.EndsInBreak before ∧ '\n' ∉ line ∧
    (b.hasContent = true ↔ ∃ c ∈ line, c ≠ ' ' ∧ c ≠ '\t' ∧ c ≠ '\r')
  hidden : b.visible = false → b.trimming = true ∧ b.hasDirective = true
  trimming : b.trimming = true → b.hasDirective = true

namespace Buffered

variable {b : Buffered}

theorem Sound.cutLine?_of_isBare (sound : b.Sound) (bare : b.isBare = true) :
    ∃ kept dropped, b.cutLine? = some kept ∧ b.out = kept ++ dropped ∧
      ∀ c ∈ dropped, c = ' ' ∨ c = '\t' ∨ c = '\r' := by
  obtain ⟨kept, dropped, cut, _, _, content⟩ := sound.line
  obtain ⟨whole, place⟩ := Text.splitAt?_eq_some_iff.1 cut
  refine ⟨kept, dropped, ?_, whole, fun c member => ?_⟩
  · rw [cutLine?, whole, place, Text.truncate?_width]
  · have noContent : ¬b.hasContent = true := by simpa using (Bool.and_eq_true_iff.1 bare).2
    by_contra other
    rw [not_or, not_or] at other
    exact noContent (content.2 ⟨c, member, other⟩)

end Buffered

theorem Renderer.sound_buffered {r : Renderer} (consistent : r.Consistent) (tidy : r.Tidy)
    (settled : r.Settled) (directed : r.Directed) : r.buffered.Sound where
  visible := by
    have all : r.visible = r.blocks.all Block.isActive := consistent
    show r.visible = true ↔ _
    rw [all, List.all_eq_true]
    rfl
  inside := by
    show Text.width _ ≤ Text.width (_ ++ _)
    rw [Text.width_append]
    exact Nat.le_add_right _ _
  line := by
    refine ⟨_, _, Text.splitAt?_width _ _, tidy.finished, tidy.line, ?_⟩
    show r.hasContent = true ↔ _
    rw [tidy.content, List.any_eq_true]
    refine exists_congr fun c => and_congr_right fun _ => ?_
    rw [Bool.not_eq_true', ← Bool.not_eq_true, isSpace_iff, not_or, not_or]
  hidden := settled
  trimming := directed

theorem Buffered.start_run (flags : FlagSet) (ps : List Piece) :
    start.run flags ps = some (Renderer.start.run flags ps).value.buffered :=
  Renderer.run_buffered flags ps Renderer.start

theorem Buffered.render?_eq (flags : FlagSet) (template : String) :
    render? flags template = some (Template.render flags template).value := by
  rw [render?, start_run, Option.bind_eq_bind, Option.bind_some, Renderer.text?_buffered]
  simp only [Option.bind_eq_bind, Option.bind_some, String.ofList_toList]
  rfl

/-- In the middle of a template, wherever that is, the parts of the renderer fit together: text is
visible iff all open blocks are in the branch that was taken, the line being built begins at a
character of the output and right behind a line break, or at the start, what is known of the line
holds of its text, and where text is hidden or white space is dropped, a directive is on the line.
So when a bare line is dropped, the cut never fails and takes nothing but white space, and all else
that was visible so far is in the output, also in the one that is returned. -/
theorem buffered_sound (flags : FlagSet) (template : String) :
    (∀ n, ∃ b text,
      let before := (pieces template.toList).take n
      Buffered.start.run flags before = some b ∧
      b = (Renderer.start.run flags before).value.buffered ∧
      b.Sound ∧
      (b.isBare = true → ∃ kept dropped, b.cutLine? = some kept ∧ b.out = kept ++ dropped ∧
        ∀ c ∈ dropped, c = ' ' ∨ c = '\t' ∨ c = '\r') ∧
      b.text? = some text ∧
      b.out.filter isInk = (visibleText flags before).filter isInk ∧
      text.filter isInk = (visibleText flags before).filter isInk) ∧
    Buffered.render? flags template = some (render flags template).value := by
  refine ⟨fun n => ?_, Buffered.render?_eq flags template⟩
  generalize (pieces template.toList).take n = before
  have tidy := Renderer.tidy_start.run flags before
  have sound := Renderer.sound_buffered (Renderer.consistent_start.run flags before) tidy
    (Renderer.settled_start.run flags before) (Renderer.directed_start.run flags before)
  have ink := Renderer.ink_start_run flags before
  refine ⟨_, _, Buffered.start_run flags before, rfl, sound, sound.cutLine?_of_isBare,
    Renderer.text?_buffered _, ?_, tidy.ink_text.trans ink⟩
  rw [← ink, Renderer.out, String.toList_append]
  rfl

/-- A hidden line that is indented: behind it, the indentation is cut off at byte three. -/
theorem buffered_sound_hidden :
    let b : Buffered := ⟨[], true, ['é', '\n', ' '], true, 3, false, true, 4⟩
    Buffered.start.run FlagSet.none ((pieces "é\n [if A]\nb\n[endif]".toList).take 8) = some b ∧
      b.Sound ∧ b.isBare = true ∧
      (∃ kept dropped, b.cutLine? = some kept ∧ b.out = kept ++ dropped ∧
        ∀ c ∈ dropped, c = ' ' ∨ c = '\t' ∨ c = '\r') ∧
      b.cutLine? = some ['é', '\n'] := by
  intro b
  have read : (pieces "é\n [if A]\nb\n[endif]".toList).take 8 =
      [.plain 'é', .plain '\n', .plain ' ', .directive (.ifHolds "A") "[if A]".toList, .plain '\n',
        .plain 'b', .plain '\n', .directive .endIf "[endif]".toList] := by decide +kernel
  have reached : Buffered.start.run FlagSet.none
      ((pieces "é\n [if A]\nb\n[endif]".toList).take 8) = some b := by
    rw [read]
    decide +kernel
  obtain ⟨found, _, run, _, sound, cut, _⟩ :=
    (buffered_sound FlagSet.none "é\n [if A]\nb\n[endif]").1 8
  obtain rfl : found = b := Option.some.inj (run.symm.trans reached)
  exact ⟨reached, sound, rfl, cut rfl, by decide⟩

end Scaffold.Template
