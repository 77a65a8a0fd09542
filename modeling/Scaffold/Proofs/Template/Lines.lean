import Scaffold.Proofs.Template.Run

/-! The lines of a rendered template, one by one. The marks of a run are cut behind every line
break that is visible. White space that follows a directive is dropped from its line, and a
line that has a directive and nothing but white space is dropped as a whole. -/

namespace Scaffold.Template

namespace Mark

def isSpace : Mark → Bool
  | .directive => false
  | .shown c => Template.isSpace c

def endInDirective (before : List Mark) : Bool :=
  match before.reverse.dropWhile isSpace with
  | .directive :: _ => true
  | _ => false

def kept (before : List Mark) : List Mark → Text
  | [] => []
  | .directive :: rest => kept (before ++ [.directive]) rest
  | .shown c :: rest =>
    (if Template.isSpace c && endInDirective before then [] else [c]) ++
      kept (before ++ [.shown c]) rest

def contribution (line : List Mark) : Text :=
  if line.contains .directive && (kept [] line).all (fun c => c == '\n' || Template.isSpace c) then []
  else kept [] line

def lines : List Mark → List (List Mark)
  | [] => []
  | mark :: rest =>
    if mark = .shown '\n' then [mark] :: lines rest
    else
      match lines rest with
      | [] => [[mark]]
      | line :: behind => (mark :: line) :: behind

theorem endInDirective_directive (before : List Mark) :
    endInDirective (before ++ [.directive]) = true := by
  simp [endInDirective, isSpace]

theorem endInDirective_shown (before : List Mark) (c : Char) :
    endInDirective (before ++ [.shown c]) = (Template.isSpace c && endInDirective before) := by
  by_cases space : Template.isSpace c = true <;> simp [endInDirective, isSpace, space]

theorem kept_append (before first second : List Mark) :
    kept before (first ++ second) = kept before first ++ kept (before ++ first) second := by
  induction first generalizing before with
  | nil => simp [kept]
  | cons mark rest ih =>
    cases mark with
    | directive => simp only [List.cons_append, kept, ih, List.append_assoc, List.nil_append]
    | shown c => simp only [List.cons_append, kept, ih, List.append_assoc, List.nil_append]

theorem kept_concat_directive (line : List Mark) :
    kept [] (line ++ [.directive]) = kept [] line := by
  simp [kept_append, kept]

theorem kept_concat_shown (line : List Mark) (c : Char) :
    kept [] (line ++ [.shown c]) =
      kept [] line ++ (if Template.isSpace c && endInDirective line then [] else [c]) := by
  simp [kept_append, kept]

theorem mem_of_mem_kept {before line : List Mark} {c : Char} (member : c ∈ kept before line) :
    .shown c ∈ line := by
  induction line generalizing before with
  | nil => exact absurd member (List.not_mem_nil)
  | cons mark rest ih =>
    cases mark with
    | directive => exact List.mem_cons_of_mem _ (ih member)
    | shown d =>
      rw [kept, List.mem_append] at member
      rcases member with here | behind
      · split_ifs at here
        · exact absurd here (List.not_mem_nil)
        · rw [List.mem_singleton] at here
          rw [here]
          exact List.mem_cons_self
      · exact List.mem_cons_of_mem _ (ih behind)

theorem lines_append_break (line rest : List Mark) (noBreak : .shown '\n' ∉ line) :
    lines (line ++ .shown '\n' :: rest) = (line ++ [.shown '\n']) :: lines rest := by
  induction line with
  | nil => simp [lines]
  | cons mark behind ih =>
    rw [List.mem_cons, not_or] at noBreak
    have other : mark ≠ .shown '\n' := fun same => noBreak.1 same.symm
    rw [List.cons_append, lines, if_neg other, ih noBreak.2]
    rfl

theorem lines_contribution (line : List Mark) (noBreak : .shown '\n' ∉ line) :
    (lines line).flatMap contribution = contribution line := by
  have single : line = [] ∨ lines line = [line] := by
    induction line with
    | nil => exact Or.inl rfl
    | cons mark behind ih =>
      rw [List.mem_cons, not_or] at noBreak
      have other : mark ≠ .shown '\n' := fun same => noBreak.1 same.symm
      right
      rw [lines, if_neg other]
      rcases ih noBreak.2 with rfl | whole
      · rfl
      · rw [whole]
  rcases single with rfl | whole
  · rfl
  · rw [whole, List.flatMap_singleton]

theorem all_space_iff (text : Text) :
    (text ++ ['\n']).all (fun c => c == '\n' || Template.isSpace c) =
      text.all (fun c => c == '\n' || Template.isSpace c) := by
  simp

theorem all_space_eq {ms : List Mark} (noBreak : .shown '\n' ∉ ms) :
    (kept [] ms).all (fun c => c == '\n' || Template.isSpace c) =
      !(kept [] ms).any fun c => !Template.isSpace c := by
  rw [List.not_any_eq_all_not, Bool.eq_iff_iff, List.all_eq_true, List.all_eq_true]
  refine forall₂_congr fun c member => ?_
  have other : c ≠ '\n' := by
    rintro rfl
    exact noBreak (mem_of_mem_kept member)
  simp [other]

end Mark

namespace Renderer

structure Building (r : Renderer) (ms : List Mark) : Prop where
  line : r.line.toList = Mark.kept [] ms
  trimming : r.trimming = Mark.endInDirective ms
  hasDirective : r.hasDirective = ms.contains .directive
  hasContent : r.hasContent = (Mark.kept [] ms).any fun c => !isSpace c
  noBreak : .shown '\n' ∉ ms

theorem building_start : start.Building [] := ⟨rfl, rfl, rfl, rfl, List.not_mem_nil⟩

theorem building_of_same {r next : Renderer} {ms : List Mark} (building : r.Building ms)
    (sameLine : next.line = r.line) (sameTrimming : next.trimming = r.trimming)
    (sameDirective : next.hasDirective = r.hasDirective)
    (sameContent : next.hasContent = r.hasContent) : next.Building ms where
  line := sameLine ▸ building.line
  trimming := sameTrimming ▸ building.trimming
  hasDirective := sameDirective ▸ building.hasDirective
  hasContent := sameContent ▸ building.hasContent
  noBreak := building.noBreak

namespace Building

variable {r : Renderer} {ms : List Mark}

theorem directive (building : r.Building ms) (blocks : List Block) (source : Text) :
    ((r.withBlocks blocks).advance source).Building (ms ++ [.directive]) where
  line := by
    rw [Mark.kept_concat_directive]
    exact building.line
  trimming := (Mark.endInDirective_directive ms).symm
  hasDirective := by
    rw [List.contains_eq_mem]
    simp [withBlocks, advance]
  hasContent := by
    rw [Mark.kept_concat_directive]
    exact building.hasContent
  noBreak := by simp [building.noBreak]

theorem dropped (building : r.Building ms) {c : Char} (space : isSpace c = true)
    (trimming : r.trimming = true) : r.Building (ms ++ [.shown c]) where
  line := by
    rw [Mark.kept_concat_shown, ← building.trimming, space, trimming]
    simpa using building.line
  trimming := by
    rw [Mark.endInDirective_shown, space, Bool.true_and]
    exact building.trimming
  hasDirective := by
    rw [building.hasDirective]
    simp
  hasContent := by
    rw [Mark.kept_concat_shown, ← building.trimming, space, trimming]
    simpa using building.hasContent
  noBreak := by
    have other : c ≠ '\n' := by
      rintro rfl
      exact absurd space (by decide)
    simp [building.noBreak, other.symm]

theorem written (building : r.Building ms) {c : Char} (other : c ≠ '\n')
    (stays : (isSpace c && r.trimming) = false) :
    Building
      { r with
        line := r.line.push c
        trimming := false
        hasContent := r.hasContent || !isSpace c }
      (ms ++ [Mark.shown c]) where
  line := by
    rw [Mark.kept_concat_shown, ← building.trimming, stays]
    simp [building.line]
  trimming := by
    rw [Mark.endInDirective_shown, ← building.trimming, stays]
  hasDirective := by
    rw [building.hasDirective]
    simp
  hasContent := by
    rw [Mark.kept_concat_shown, ← building.trimming, stays]
    simp [building.hasContent]
  noBreak := by simp [building.noBreak, other.symm]

theorem contribution_eq (building : r.Building ms) :
    Mark.contribution ms = if r.isBare then [] else r.line.toList := by
  rw [Mark.contribution, Mark.all_space_eq building.noBreak, ← building.hasContent,
    ← building.hasDirective, ← building.line]
  rfl

theorem contribution_break (building : r.Building ms) :
    Mark.contribution (ms ++ [.shown '\n']) =
      if r.isBare then [] else r.line.toList ++ ['\n'] := by
  have kept : Mark.kept [] (ms ++ [.shown '\n']) = Mark.kept [] ms ++ ['\n'] := by
    rw [Mark.kept_concat_shown]
    rfl
  have directive : (ms ++ [Mark.shown '\n']).contains Mark.directive = ms.contains .directive := by
    simp
  rw [Mark.contribution, kept, Mark.all_space_iff, Mark.all_space_eq building.noBreak,
    ← building.hasContent, directive, ← building.hasDirective, ← building.line]
  rfl

/-- A visible character goes to the line, be it dropped or not. -/
theorem emit_char (building : r.Building ms) {c : Char} (visible : r.visible = true)
    (other : c ≠ '\n') :
    (r.emit c).Building (ms ++ [.shown c]) ∧ (r.emit c).finished = r.finished := by
  by_cases dropped : (r.trimming && isSpace c) = true
  · rw [emit_dropped r c dropped]
    rw [Bool.and_eq_true] at dropped
    exact ⟨building.dropped dropped.2 dropped.1, rfl⟩
  · rw [Bool.not_eq_true] at dropped
    rw [emit_written r visible other dropped]
    rw [Bool.and_comm] at dropped
    exact ⟨building.written other dropped, rfl⟩

/-- A visible line break finishes the line. -/
theorem emit_newline (building : r.Building ms) (visible : r.visible = true) :
    (r.emit '\n').Building [] ∧
      (r.emit '\n').finished.toList =
        r.finished.toList ++ Mark.contribution (ms ++ [.shown '\n']) := by
  rw [emit_break r visible, building.contribution_break]
  refine ⟨⟨rfl, rfl, rfl, rfl, List.not_mem_nil⟩, ?_⟩
  have bare : isBare { r with trimming := false } = r.isBare := rfl
  rw [endLine, bare]
  cases r.isBare with
  | true => simp
  | false => simp

end Building

theorem toList_text (r : Renderer) :
    r.text.toList = r.finished.toList ++ if r.isBare then [] else r.line.toList := by
  unfold text out
  split_ifs <;> simp

/-- What a run makes of the marks `ms` of the line being built and of all that follow. -/
theorem toList_text_run (flags : FlagSet) (ps : List Piece) {r : Renderer} {ms : List Mark}
    (building : r.Building ms) :
    (r.run flags ps).value.text.toList =
      r.finished.toList ++ (Mark.lines (ms ++ r.marks flags ps)).flatMap Mark.contribution := by
  induction ps generalizing r ms with
  | nil =>
    rw [run_nil, marks, List.append_nil, Mark.lines_contribution ms building.noBreak,
      building.contribution_eq, toList_text]
  | cons piece rest ih =>
    rw [run_cons]
    cases piece with
    | directive d source =>
      rw [marks, List.append_cons, step_directive]
      exact ih (building.directive _ source)
    | plain c =>
      have same : (r.advance [c]).Building ms := building_of_same building rfl rfl rfl rfl
      rw [marks, step_plain]
      by_cases visible : r.visible = true
      · rw [if_pos visible, List.singleton_append]
        by_cases isBreak : c = '\n'
        · subst isBreak
          obtain ⟨next, finished⟩ := same.emit_newline visible
          rw [ih next, finished, Mark.lines_append_break _ _ building.noBreak,
            List.flatMap_cons, List.append_assoc]
          rfl
        · obtain ⟨next, finished⟩ := same.emit_char visible isBreak
          rw [ih next, finished, List.append_assoc]
          rfl
      · rw [if_neg visible, List.nil_append, emit_hidden _ c (Bool.not_eq_true _ ▸ visible)]
        exact ih same

end Renderer

/-- A rendered template is what its lines leave, with runs of blank lines collapsed. -/
theorem render_eq_collapse_lines (flags : FlagSet) (template : String) :
    (render flags template).value =
      collapseBlankLines (String.ofList
        ((Mark.lines (Renderer.start.marks flags (pieces template.toList))).flatMap
          Mark.contribution)) := by
  have text := Renderer.toList_text_run flags (pieces template.toList) Renderer.building_start
  have rendered : (render flags template).value =
      collapseBlankLines (Renderer.start.run flags (pieces template.toList)).value.text := rfl
  rw [rendered]
  congr 1
  rw [← String.toList_inj, String.toList_ofList, text]
  rfl

end Scaffold.Template
