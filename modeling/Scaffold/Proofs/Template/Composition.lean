import Mathlib.Tactic.Common
import Scaffold.Proofs.Template.Chunk

/-! A template in two parts. Where the first part ends its last line and leaves no block open, the
renderer stands as it did at the start but for what it has put out, so the second part is rendered
as it would be alone. -/

namespace Scaffold.Template

theorem BracketsClose.of_append_break {cs : Text} (close : BracketsClose (cs ++ ['\n'])) :
    BracketsClose cs := by
  intro before after split
  have found := close before (after ++ ['\n']) (by rw [split, List.append_assoc, List.cons_append])
  rcases List.mem_append.1 found with inside | last
  · exact inside
  · exact absurd last (by decide)

namespace Renderer

/-- What is passed on to the lines depends on the open blocks alone. -/
theorem Consistent.marks_eq {r next : Renderer} (consistent : r.Consistent)
    (same : next.Consistent) (blocks : next.blocks = r.blocks) (flags : FlagSet)
    (ps : List Piece) : next.marks flags ps = r.marks flags ps := by
  induction ps generalizing r next with
  | nil => rfl
  | cons piece rest ih =>
    have visible : next.visible = r.visible := by rw [consistent, same, blocks]
    have behind := ih (consistent.step flags piece) (same.step flags piece)
      (by rw [step_blocks, step_blocks, blocks])
    cases piece with
    | directive d source => rw [marks, marks, behind]
    | plain c => rw [marks, marks, behind, visible]

theorem building_of_break (flags : FlagSet) {front : Text} (close : BracketsClose front)
    (noneOpen : (start.run flags (pieces (front ++ ['\n']))).value.blocks = []) :
    (start.run flags (pieces (front ++ ['\n']))).value.Building [] := by
  have single : pieces ['\n'] = [.plain '\n'] := by
    rw [pieces, if_neg (by decide), pieces]
  have consistent := consistent_start.run flags (pieces front)
  rw [pieces_append close, single, run_append, run_cons, run_nil, step_plain] at noneOpen ⊢
  generalize (start.run flags (pieces front)).value = r at consistent noneOpen
  rw [emit_blocks] at noneOpen
  have outside : r.blocks = [] := noneOpen
  have visible : r.visible = true := by
    rw [consistent, outside]
    rfl
  rw [emit_break (r.advance ['\n']) visible]
  exact ⟨rfl, rfl, rfl, rfl, List.not_mem_nil⟩

/-- Behind a part that ends its last line and leaves no block open, the renderer stands as it did
at the start but for the finished lines. -/
theorem building_of_closed (flags : FlagSet) {front : Text} (close : BracketsClose front)
    (ends : front.EndsInBreak) (noneOpen : (start.run flags (pieces front)).value.blocks = []) :
    (start.run flags (pieces front)).value.Building [] := by
  rcases ends with rfl | ⟨inner, rfl⟩
  · rw [pieces]
    exact building_start
  · exact building_of_break flags close.of_append_break noneOpen

theorem toList_text_run_append (flags : FlagSet) {front : Text} (close : BracketsClose front)
    (ends : front.EndsInBreak) (noneOpen : (start.run flags (pieces front)).value.blocks = [])
    (back : Text) :
    (start.run flags (pieces (front ++ back))).value.text.toList =
      (start.run flags (pieces front)).value.finished.toList ++
        (start.run flags (pieces back)).value.text.toList := by
  have fresh := building_of_closed flags close ends noneOpen
  have consistent := consistent_start.run flags (pieces front)
  have same := consistent_start.marks_eq consistent noneOpen flags (pieces back)
  have alone := toList_text_run flags (pieces back) building_start
  rw [pieces_append close, run_append, toList_text_run flags (pieces back) fresh, same, alone]
  rfl

end Renderer

/-- If the first part of a template is empty or ends in a line break, and neither a bracket nor a
block of it is left open, both parts can be rendered by themselves, whatever the second one is. -/
theorem render_append (flags : FlagSet) {first : Text} (ends : first.EndsInBreak)
    (close : BracketsClose first)
    (noneOpen : (Renderer.start.run flags (pieces first)).value.blocks = []) (second : Text) :
    (render flags (String.ofList (first ++ second))).value =
      collapseBlankLines ((render flags (String.ofList first)).value ++
        (render flags (String.ofList second)).value) := by
  have whole := Renderer.toList_text_run_append flags close ends noneOpen
  have alone := whole []
  have empty : (Renderer.start.run flags (pieces [])).value.text.toList = [] := by
    rw [pieces]
    rfl
  rw [empty, List.append_nil, List.append_nil] at alone
  have tidy := Renderer.tidy_start.run flags (pieces first)
  have split : (Renderer.start.run flags (pieces (first ++ second))).value.text =
      String.ofList ((Renderer.start.run flags (pieces first)).value.text.toList ++
        (Renderer.start.run flags (pieces second)).value.text.toList) := by
    rw [← String.toList_inj, String.toList_ofList, whole, alone]
  rw [value_render, value_render, value_render, split, alone,
    collapse_append_collapse tidy.finished, ← alone, String.ofList_toList, String.ofList_toList]

/-- A stray `[else]`, a dropped block and blank lines on both sides of the seam; the second part
opens a bracket and closes a block that it has not opened. -/
theorem render_append_stray :
    (render FlagSet.none
        (String.ofList ("a[else]\n\n[if A]x\n[endif]\n\n".toList ++ "\n[endif]b[if".toList))).value =
      collapseBlankLines
        ((render FlagSet.none (String.ofList "a[else]\n\n[if A]x\n[endif]\n\n".toList)).value ++
          (render FlagSet.none (String.ofList "\n[endif]b[if".toList)).value) := by
  have split : pieces "a[else]\n\n[if A]x\n[endif]\n\n".toList =
      [.plain 'a', .directive .elseBranch "[else]".toList, .plain '\n', .plain '\n',
        .directive (.ifHolds "A") "[if A]".toList, .plain 'x', .plain '\n',
        .directive .endIf "[endif]".toList, .plain '\n', .plain '\n'] := by decide +kernel
  refine render_append FlagSet.none (.inr ⟨"a[else]\n\n[if A]x\n[endif]\n".toList, by decide⟩)
    (by decide +kernel) ?_ "\n[endif]b[if".toList
  rw [split]
  decide +kernel

end Scaffold.Template
