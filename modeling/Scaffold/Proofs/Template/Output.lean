import Scaffold.Proofs.Template.BlankLines
import Scaffold.Proofs.Template.Lines

/-! What is in the output in the middle of a run: finished lines, a line that is being built, and of
all that was visible so far everything but white space. -/

namespace Scaffold.Template

theorem isSpace_iff {c : Char} : isSpace c = true ↔ c = ' ' ∨ c = '\t' ∨ c = '\r' := by
  rw [isSpace, Bool.or_eq_true, Bool.or_eq_true, beq_iff_eq, beq_iff_eq, beq_iff_eq, or_assoc]

/-- A character that leaves ink: neither white space within a line nor a line break. -/
def isInk (c : Char) : Bool := !isSpace c && c != '\n'

theorem filter_isInk_of_isSpace {cs : Text} (space : ∀ c ∈ cs, isSpace c = true) :
    cs.filter isInk = [] := by
  refine List.filter_eq_nil_iff.2 fun c member => ?_
  rw [isInk, space c member]
  exact Bool.false_ne_true

namespace Renderer

/-- Finished lines have been ended, the line being built has not, and whether it has something
to show can be seen on it. -/
structure Tidy (r : Renderer) : Prop where
  finished : Text.EndsInBreak r.finished.toList
  line : '\n' ∉ r.line.toList
  content : r.hasContent = r.line.toList.any fun c => !isSpace c

theorem tidy_start : start.Tidy := ⟨.inl rfl, List.not_mem_nil, rfl⟩

theorem Tidy.emit {r : Renderer} (tidy : r.Tidy) (c : Char) : (r.emit c).Tidy := by
  by_cases visible : r.visible = true
  · by_cases dropped : (r.trimming && isSpace c) = true
    · rw [emit_dropped r c dropped]
      exact tidy
    · by_cases isBreak : c = '\n'
      · rw [isBreak, emit_break r visible, endLine]
        refine ⟨?_, List.not_mem_nil, rfl⟩
        dsimp only
        split_ifs
        · exact tidy.finished
        · exact .inr ⟨_, String.toList_push '\n'⟩
      · rw [emit_written r visible isBreak (Bool.eq_false_iff.2 dropped)]
        refine ⟨tidy.finished, ?_, ?_⟩
        · simp [tidy.line, Ne.symm isBreak]
        · simp [tidy.content]
  · rw [emit_hidden r c (Bool.eq_false_iff.2 visible)]
    exact tidy

theorem Tidy.advance {r : Renderer} (tidy : r.Tidy) (source : Text) : (r.advance source).Tidy :=
  ⟨tidy.finished, tidy.line, tidy.content⟩

theorem Tidy.step {r : Renderer} (tidy : r.Tidy) (flags : FlagSet) (piece : Piece) :
    (r.step flags piece).value.Tidy := by
  cases piece with
  | directive d source =>
    rw [step_directive]
    exact ⟨tidy.finished, tidy.line, tidy.content⟩
  | plain c =>
    rw [step_plain]
    exact (tidy.advance [c]).emit c

theorem Tidy.run {r : Renderer} (tidy : r.Tidy) (flags : FlagSet) (ps : List Piece) :
    (r.run flags ps).value.Tidy := by
  induction ps generalizing r with
  | nil => exact tidy
  | cons piece rest ih => exact ih (tidy.step flags piece)

theorem Tidy.isSpace_of_isBare {r : Renderer} (tidy : r.Tidy) (bare : r.isBare = true) :
    ∀ c ∈ r.line.toList, isSpace c = true := by
  have noContent : r.hasContent = false := by simpa using (Bool.and_eq_true_iff.1 bare).2
  rw [tidy.content, List.any_eq_false] at noContent
  exact fun c member => by simpa using noContent c member

theorem Tidy.isAllBlank_of_isBare {r : Renderer} (tidy : r.Tidy) (bare : r.isBare = true) :
    Text.isAllBlank r.line.toList = true := by
  refine List.all_eq_true.2 fun c member => ?_
  rcases isSpace_iff.1 (tidy.isSpace_of_isBare bare c member) with rfl | rfl | rfl <;> decide

/-- A visible character is added to the ink of the output, and none is taken away. -/
theorem Tidy.ink_emit {r : Renderer} (tidy : r.Tidy) (c : Char) :
    (r.emit c).out.toList.filter isInk =
      r.out.toList.filter isInk ++ (if r.visible then [c] else []).filter isInk := by
  by_cases visible : r.visible = true
  · rw [if_pos visible]
    by_cases dropped : (r.trimming && isSpace c) = true
    · have space := (Bool.and_eq_true_iff.1 dropped).2
      have empty : [c].filter isInk = [] := filter_isInk_of_isSpace (by simpa using space)
      rw [emit_dropped r c dropped, empty, List.append_nil]
    · by_cases isBreak : c = '\n'
      · subst isBreak
        have same : isBare { r with trimming := false } = r.isBare := rfl
        rw [emit_break r visible, endLine, same]
        by_cases bare : r.isBare = true
        · have empty := filter_isInk_of_isSpace (tidy.isSpace_of_isBare bare)
          simp [out, bare, empty, isInk]
        · simp [out, bare, isInk]
      · rw [emit_written r visible isBreak (Bool.eq_false_iff.2 dropped)]
        simp [out]
  · rw [if_neg visible, emit_hidden r c (Bool.eq_false_iff.2 visible)]
    simp

theorem Tidy.ink_run {r : Renderer} (tidy : r.Tidy) (flags : FlagSet) (ps : List Piece) :
    (r.run flags ps).value.out.toList.filter isInk =
      r.out.toList.filter isInk ++ ((r.marks flags ps).filterMap Mark.char?).filter isInk := by
  induction ps generalizing r with
  | nil => simp [run_nil, marks]
  | cons piece rest ih =>
    rw [run_cons, ih (tidy.step flags piece)]
    cases piece with
    | directive d source =>
      rw [marks, step_directive]
      rfl
    | plain c =>
      have mark : (if r.visible then [Mark.shown c] else []).filterMap Mark.char? =
          if r.visible then [c] else [] := by
        split_ifs <;> rfl
      rw [marks, step_plain, (tidy.advance [c]).ink_emit c, List.filterMap_append, mark,
        List.filter_append, List.append_assoc]
      rfl

/-- The ink of the output is that of the visible text. -/
theorem ink_start_run (flags : FlagSet) (ps : List Piece) :
    (start.run flags ps).value.out.toList.filter isInk = (visibleText flags ps).filter isInk :=
  tidy_start.ink_run flags ps

theorem Tidy.ink_text {r : Renderer} (tidy : r.Tidy) :
    r.text.toList.filter isInk = r.out.toList.filter isInk := by
  rw [toList_text, out, String.toList_append]
  by_cases bare : r.isBare = true
  · rw [if_pos bare, List.filter_append, List.filter_append,
      filter_isInk_of_isSpace (tidy.isSpace_of_isBare bare)]
    rfl
  · rw [if_neg bare]

end Renderer

end Scaffold.Template
