import Mathlib.Data.List.Infix
import Mathlib.Data.List.TakeWhile
import Scaffold.Proofs.Template.BlankLines
import Scaffold.Proofs.Template.Lines
import Scaffold.Proofs.Template.Output

/-! A template in two parts, cut where no bracket is left open. Its pieces are those of the
parts, and what the first part has put into the output stays there whatever the second part
holds, but for a line at the end that may be dropped yet. -/

namespace Scaffold.Template

def BracketsClose (cs : Text) : Prop := ∀ before after, cs = before ++ '[' :: after → ']' ∈ after

theorem BracketsClose.of_append {front back : Text} (close : BracketsClose (front ++ back)) :
    BracketsClose back := by
  intro before after split
  exact close (front ++ before) after (by rw [split, List.append_assoc])

theorem BracketsClose.tail {c : Char} {cs : Text} (close : BracketsClose (c :: cs)) :
    BracketsClose cs := by
  intro before after split
  exact close (c :: before) after (by rw [split, List.cons_append])

theorem bracketsClose_iff (cs : Text) :
    BracketsClose cs ↔ ∀ tail ∈ cs.tails, tail.head? = some '[' → ']' ∈ tail := by
  constructor
  · intro close tail member first
    obtain ⟨before, split⟩ := (List.mem_tails _ _).1 member
    obtain ⟨after, rfl⟩ := List.head?_eq_some_iff.1 first
    exact List.mem_cons_of_mem '[' (close before after split.symm)
  · intro close before after split
    have found := close ('[' :: after) ((List.mem_tails _ _).2 ⟨before, split.symm⟩) rfl
    exact (List.mem_cons.1 found).resolve_left (by decide)

instance (cs : Text) : Decidable (BracketsClose cs) :=
  decidable_of_iff _ (bracketsClose_iff cs).symm

namespace Directive

variable {cs : Text}

theorem dropWhile_ne_nil (closes : ']' ∈ cs) : cs.dropWhile (fun c => !isClosing c) ≠ [] := by
  intro empty
  have all := List.dropWhile_eq_nil_iff.1 empty ']' closes
  exact absurd all (by decide)

theorem dropWhile_append_of_closes (closes : ']' ∈ cs) (back : Text) :
    (cs ++ back).dropWhile (fun c => !isClosing c) =
      cs.dropWhile (fun c => !isClosing c) ++ back := by
  rw [List.dropWhile_append, if_neg (by simpa using dropWhile_ne_nil closes)]

theorem takeWhile_append_of_closes (closes : ']' ∈ cs) (back : Text) :
    (cs ++ back).takeWhile (fun c => !isClosing c) = cs.takeWhile fun c => !isClosing c := by
  have whole := congrArg List.length
    (List.takeWhile_append_dropWhile (p := fun c => !isClosing c) (l := cs))
  have left := List.length_pos_iff.2 (dropWhile_ne_nil closes)
  rw [List.length_append] at whole
  rw [List.takeWhile_append, if_neg (by omega)]

theorem read?_append (closes : ']' ∈ cs) (back : Text) :
    read? (cs ++ back) = (read? cs).map fun found => (found.1, found.2 ++ back) := by
  rw [read?, read?, takeWhile_append_of_closes closes, dropWhile_append_of_closes closes]
  cases behind : cs.dropWhile fun c => !isClosing c with
  | nil => exact absurd behind (dropWhile_ne_nil closes)
  | cons c rest =>
    cases ofInner? (Text.trim (cs.takeWhile fun c => !isClosing c)) <;> rfl

theorem source_append (closes : ']' ∈ cs) (back : Text) : source (cs ++ back) = source cs := by
  rw [source, takeWhile_append_of_closes closes, source]

theorem not_isClosing (unclosed : ']' ∉ cs) : ∀ c ∈ cs, (!isClosing c) = true := by
  intro c member
  have other : c ≠ ']' := fun same => unclosed (same ▸ member)
  simpa [isClosing] using other

theorem takeWhile_closed (unclosed : ']' ∉ cs) (rest : Text) :
    (cs ++ ']' :: rest).takeWhile (fun c => !isClosing c) = cs := by
  rw [List.takeWhile_append_of_pos (not_isClosing unclosed),
    List.takeWhile_cons_of_neg (by decide), List.append_nil]

theorem read?_closed (unclosed : ']' ∉ cs) (rest : Text) :
    read? (cs ++ ']' :: rest) = (ofInner? (Text.trim cs)).map fun d => (d, rest) := by
  rw [read?, takeWhile_closed unclosed, List.dropWhile_append_of_pos (not_isClosing unclosed),
    List.dropWhile_cons_of_neg (by decide)]

theorem read?_of_unclosed (unclosed : ']' ∉ cs) : read? cs = none := by
  rw [read?, List.dropWhile_eq_nil_iff.2 (not_isClosing unclosed)]

/-- What stands between brackets: one of two words, or `if`, a blank character and a condition. -/
theorem cases_of_ofInner? {inner : Text} {d : Directive} (isDirective : ofInner? inner = some d) :
    (Text.sameLetters inner "else" = true ∧ d = .elseBranch) ∨
      (Text.sameLetters inner "endif" = true ∧ d = .endIf) ∨
      ∃ keyword blank rest, inner = keyword ++ blank :: rest ∧
        Text.sameLetters keyword "if" = true ∧ Text.isBlank blank = true ∧
        d = .ifHolds (String.ofList (Text.trim rest)) := by
  unfold ofInner? at isDirective
  split_ifs at isDirective with isElse isEnd isIf
  · exact .inl ⟨isElse, (Option.some.inj isDirective).symm⟩
  · exact .inr (.inl ⟨isEnd, (Option.some.inj isDirective).symm⟩)
  · split at isDirective
    · exact absurd isDirective (Option.some_ne_none d).symm
    next blank rest behind =>
      split_ifs at isDirective with isBlank
      refine .inr (.inr ⟨inner.take 2, blank, rest, ?_, isIf, isBlank, ?_⟩)
      · rw [← behind, List.take_append_drop]
      · exact (Option.some.inj isDirective).symm

theorem exists_closed_of_read? {cs rest : Text} {d : Directive} (found : read? cs = some (d, rest)) :
    ∃ inner, cs = inner ++ ']' :: rest ∧ ']' ∉ inner ∧ ofInner? (Text.trim inner) = some d := by
  have whole := List.takeWhile_append_dropWhile (p := fun c => !isClosing c) (l := cs)
  have stop := List.head?_dropWhile_not (fun c => !isClosing c) cs
  unfold read? at found
  split at found
  · exact nomatch found
  next c behind split =>
    obtain ⟨_, isDirective, same⟩ := Option.map_eq_some_iff.1 found
    cases same
    rw [split] at whole stop
    have closing : c = ']' := by simpa [isClosing] using stop
    rw [closing] at whole
    refine ⟨_, whole.symm, fun member => ?_, isDirective⟩
    exact absurd (List.mem_takeWhile_imp member) (by decide)

theorem exists_append_of_read? {cs rest : Text} {d : Directive} (found : read? cs = some (d, rest)) :
    ∃ front, cs = front ++ rest := by
  obtain ⟨inner, split, _⟩ := exists_closed_of_read? found
  exact ⟨inner ++ [']'], split.trans (List.append_cons inner ']' rest)⟩

end Directive

theorem pieces_directive {rest after : Text} {d : Directive}
    (found : Directive.read? rest = some (d, after)) :
    pieces ('[' :: rest) = .directive d (Directive.source rest) :: pieces after := by
  rw [pieces, if_pos rfl]
  split
  next other same =>
    rw [found] at same
    cases same
    rfl
  next unread =>
    rw [found] at unread
    exact absurd unread (Option.some_ne_none _)

theorem pieces_bracket {rest : Text} (missing : Directive.read? rest = none) :
    pieces ('[' :: rest) = .plain '[' :: pieces rest := by
  rw [pieces, if_pos rfl]
  split
  next other same =>
    rw [missing] at same
    exact absurd same.symm (Option.some_ne_none _)
  next => rfl

/-- Pieces do not reach across the cut. -/
theorem pieces_append {front : Text} (close : BracketsClose front) (back : Text) :
    pieces (front ++ back) = pieces front ++ pieces back := by
  fun_induction pieces front with
  | case1 => rfl
  | case2 rest d after found ih =>
    have closes : ']' ∈ rest := close [] rest rfl
    have also : Directive.read? (rest ++ back) = some (d, after ++ back) := by
      rw [Directive.read?_append closes, found]
      rfl
    obtain ⟨inner, rfl⟩ := Directive.exists_append_of_read? found
    rw [List.cons_append, pieces_directive also, Directive.source_append closes,
      ih close.tail.of_append, List.cons_append]
  | case3 rest missing ih =>
    have closes : ']' ∈ rest := close [] rest rfl
    have also : Directive.read? (rest ++ back) = none := by
      rw [Directive.read?_append closes, missing]
      rfl
    rw [List.cons_append, pieces_bracket also, ih close.tail, List.cons_append]
  | case4 c rest other ih =>
    rw [List.cons_append, pieces, if_neg other, ih close.tail, List.cons_append]

namespace Renderer

theorem finished_prefix_emit (r : Renderer) (c : Char) :
    r.finished.toList <+: (r.emit c).finished.toList := by
  unfold emit write endLine
  split_ifs
  · exact List.prefix_rfl
  · exact List.prefix_rfl
  · simp
  · exact List.prefix_rfl

theorem finished_prefix_text_run (flags : FlagSet) (ps : List Piece) (r : Renderer) :
    r.finished.toList <+: (r.run flags ps).value.text.toList := by
  induction ps generalizing r with
  | nil =>
    rw [run_nil, toList_text]
    exact List.prefix_append _ _
  | cons piece rest ih =>
    rw [run_cons]
    refine List.IsPrefix.trans ?_ (ih _)
    cases piece with
    | directive d source => rw [step_directive]; exact List.prefix_rfl
    | plain c => exact finished_prefix_emit (r.advance [c]) c

theorem isBare_of_hasContent {r : Renderer} (content : r.hasContent = true) :
    r.isBare = false := by
  rw [isBare, content, Bool.not_true, Bool.and_false]

theorem out_prefix_emit {r : Renderer} (content : r.hasContent = true) (c : Char) :
    ((r.emit c).hasContent = true ∧ r.out.toList <+: (r.emit c).out.toList) ∨
      r.out.toList <+: (r.emit c).finished.toList := by
  by_cases visible : r.visible = true
  · by_cases dropped : (r.trimming && isSpace c) = true
    · rw [emit_dropped r c dropped]
      exact .inl ⟨content, List.prefix_rfl⟩
    · by_cases isBreak : c = '\n'
      · have notBare : isBare { r with trimming := false } = false := isBare_of_hasContent content
        rw [isBreak, emit_break r visible, endLine, notBare]
        exact .inr (by simp [out])
      · rw [emit_written r visible isBreak (Bool.eq_false_iff.2 dropped)]
        exact .inl ⟨by simp [content], by simp [out]⟩
  · rw [emit_hidden r c (Bool.eq_false_iff.2 visible)]
    exact .inl ⟨content, List.prefix_rfl⟩

/-- A line with something to show stays in the output, finished or not. -/
theorem out_prefix_text_run (flags : FlagSet) (ps : List Piece) {r : Renderer}
    (content : r.hasContent = true) : r.out.toList <+: (r.run flags ps).value.text.toList := by
  induction ps generalizing r with
  | nil =>
    rw [run_nil, text, isBare_of_hasContent content]
    exact List.prefix_rfl
  | cons piece rest ih =>
    rw [run_cons]
    cases piece with
    | directive d source =>
      rw [step_directive]
      exact ih (r := (r.withBlocks (d.blocksAfter flags r.blocks)).advance source) content
    | plain c =>
      rw [step_plain]
      rcases out_prefix_emit (r := r.advance [c]) content c with ⟨still, joins⟩ | finishes
      · exact joins.trans (ih still)
      · exact finishes.trans (finished_prefix_text_run flags rest _)

theorem exists_text_run (flags : FlagSet) {r : Renderer} (visible : r.visible = true) {c : Char}
    (solid : Text.isBlank c = false) (back : List Piece) :
    ∃ tail, (r.run flags (.plain c :: back)).value.text.toList =
      r.finished.toList ++ (r.line.toList ++ c :: tail) := by
  have other : c ≠ '\n' := by
    rintro rfl
    exact absurd solid (by decide)
  have notSpace : isSpace c = false := by
    rw [← Bool.not_eq_true, isSpace_iff]
    rintro (rfl | rfl | rfl) <;> exact absurd solid (by decide)
  have written := emit_written (r.advance [c]) visible other (by rw [notSpace, Bool.and_false])
  obtain ⟨tail, whole⟩ := out_prefix_text_run flags back (r := (r.advance [c]).emit c)
    (by rw [written]; simp [notSpace])
  refine ⟨tail, ?_⟩
  rw [run_cons, step_plain, ← whole, written]
  simp [out, advance]

end Renderer

/-- What a template is rendered to goes on behind its first part, if that part is closed and
ends in a visible place: by a gap that may have been dropped there, and the next character. -/
theorem render_append_cons (flags : FlagSet) {front : Text} (close : BracketsClose front)
    (visible : (Renderer.start.run flags (pieces front)).value.visible = true) {c : Char}
    (solid : Text.isBlank c = false) (plain : c ≠ '[') (back : Text) :
    ∃ gap tail, Text.isAllBlank gap = true ∧
      (gap = [] ∨ Text.EndsInBreak (render flags (String.ofList front)).value.toList) ∧
      (render flags (String.ofList (front ++ c :: back))).value.toList =
        (render flags (String.ofList front)).value.toList ++ (gap ++ c :: tail) := by
  have split : pieces (front ++ c :: back) = pieces front ++ .plain c :: pieces back := by
    rw [pieces_append close, pieces, if_neg plain]
  have tidy := Renderer.tidy_start.run flags (pieces front)
  have first := value_render flags front
  have whole : (render flags (String.ofList (front ++ c :: back))).value =
      collapseBlankLines ((Renderer.start.run flags (pieces front)).value.run flags
        (.plain c :: pieces back)).value.text := by
    rw [value_render, split, Renderer.run_append]
  generalize (Renderer.start.run flags (pieces front)).value = r at visible tidy first whole
  have ends := endsInBreak_collapse tidy.finished
  obtain ⟨behind, text⟩ := Renderer.exists_text_run flags visible solid (pieces back)
  obtain ⟨tail, collapsed⟩ := collapse_append_cons tidy.finished tidy.line solid behind
  rw [← text, String.ofList_toList, ← whole] at collapsed
  have alone := Renderer.toList_text r
  by_cases bare : r.isBare = true
  · rw [if_pos bare, List.append_nil] at alone
    rw [← alone, String.ofList_toList, ← first] at ends collapsed
    exact ⟨r.line.toList, tail, tidy.isAllBlank_of_isBare bare, .inr ends, collapsed⟩
  · rw [if_neg bare] at alone
    have lastLine := collapse_append_line tidy.finished tidy.line
    rw [← alone, String.ofList_toList, ← first] at lastLine
    rcases lastLine with kept | ⟨blank, dropped⟩
    · refine ⟨[], tail, rfl, .inl rfl, ?_⟩
      rw [collapsed, kept, List.nil_append, List.append_assoc]
    · rw [← dropped] at ends collapsed
      exact ⟨r.line.toList, tail, blank, .inr ends, collapsed⟩

end Scaffold.Template
