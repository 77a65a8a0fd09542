import Mathlib.Tactic.Common
import Scaffold.Proofs.Template.Hidden

/-! Templates in which directives stand on lines of their own. Such a line leaves nothing, whether
the run is visible before, behind or within it, and every other line stays as it is or is hidden as
a whole: between two lines nothing is pending but what a later directive line takes along. -/

namespace Scaffold.Template

/-- A line without the line break that ends it: directives with white space around them, or text. -/
inductive Line where
  | directives (parts : List Piece)
  | text (body : Text)

namespace Line

def source : Line → Text
  | .directives parts => parts.flatMap Piece.source
  | .text body => body

def pieces : Line → List Piece
  | .directives parts => parts
  | .text body => body.map .plain

def IsPart : Piece → Prop
  | .plain c => isSpace c = true
  | .directive d source =>
    ∃ inner, source = '[' :: inner ∧ Directive.read? inner = some (d, [])

/-- No bracket in the text starts a directive where `rest` stands behind the text. -/
def StaysText (rest : Text) : Text → Prop
  | [] => True
  | c :: cs => (c = '[' → Directive.read? (cs ++ rest) = none) ∧ StaysText rest cs

instance (rest : Text) : (body : Text) → Decidable (StaysText rest body)
  | [] => inferInstanceAs (Decidable True)
  | c :: cs =>
    have := instDecidableStaysText rest cs
    inferInstanceAs (Decidable ((c = '[' → Directive.read? (cs ++ rest) = none) ∧ _))

def Fits (rest : Text) : Line → Prop
  | .directives parts =>
    (∃ d source, .directive d source ∈ parts) ∧ ∀ part ∈ parts, IsPart part
  | .text body => '\n' ∉ body ∧ StaysText rest body

/-- What the line leaves where it is shown or not: its text with what ends it, or nothing. -/
def left (shown : Bool) (ending : Text) : Line → Text
  | .directives _ => []
  | .text body => if shown then body ++ ending else []

def blocksAfter (flags : FlagSet) (blocks : List Block) (line : Line) : List Block :=
  line.pieces.foldl (fun blocks piece => piece.blocksAfter flags blocks) blocks

theorem pieces_parts_append {parts : List Piece} (areParts : ∀ part ∈ parts, IsPart part)
    (rest : Text) :
    Template.pieces (parts.flatMap Piece.source ++ rest) = parts ++ Template.pieces rest := by
  induction parts with
  | nil => rfl
  | cons part parts ih =>
    have behind := ih fun next member => areParts next (List.mem_cons_of_mem part member)
    have here := areParts part List.mem_cons_self
    rw [List.flatMap_cons, List.append_assoc]
    cases part with
    | plain c =>
      have other : c ≠ '[' := by
        rintro rfl
        have space : isSpace '[' = true := here
        exact absurd space (by decide)
      rw [Piece.source, List.singleton_append, Template.pieces, if_neg other, behind,
        List.cons_append]
    | directive d source =>
      obtain ⟨inner, rfl, found⟩ := here
      have whole := Directive.source_append_of_read? found
      rw [List.append_nil] at whole
      have closes : ']' ∈ inner := by
        have last : ']' ∈ Directive.source inner := by simp [Directive.source]
        rw [whole] at last
        exact (List.mem_cons.1 last).resolve_left (by decide)
      have also : Directive.read? (inner ++ (parts.flatMap Piece.source ++ rest)) =
          some (d, parts.flatMap Piece.source ++ rest) := by
        rw [Directive.read?_append closes, found]
        rfl
      rw [Piece.source, List.cons_append, pieces_directive also, Directive.source_append closes,
        whole, behind, List.cons_append]

theorem pieces_text_append {rest body : Text} (stays : StaysText rest body) :
    Template.pieces (body ++ rest) = body.map .plain ++ Template.pieces rest := by
  induction body with
  | nil => rfl
  | cons c cs ih =>
    rw [List.cons_append, List.map_cons, List.cons_append, ← ih stays.2]
    by_cases bracket : c = '['
    · rw [bracket, pieces_bracket (stays.1 bracket)]
    · rw [Template.pieces, if_neg bracket]

theorem Fits.pieces_append {rest : Text} {line : Line} (fits : line.Fits rest) :
    Template.pieces (line.source ++ rest) = line.pieces ++ Template.pieces rest := by
  cases line with
  | directives parts => exact pieces_parts_append fits.2 rest
  | text body => exact pieces_text_append fits.2

end Line

/-- The template that is made up of lines. All but the last end in a line break, so behind a line
break at the end there is one more, empty line. -/
def content (lines : List Line) (last : Line) : Text :=
  lines.flatMap (fun line => line.source ++ ['\n']) ++ last.source

def LineStyle : List Line → Line → Prop
  | [], last => last.Fits []
  | line :: lines, last => line.Fits ('\n' :: content lines last) ∧ LineStyle lines last

def shownLines (flags : FlagSet) : List Block → List Line → Line → Text
  | blocks, [], last => last.left (blocks.all Block.isActive) []
  | blocks, line :: lines, last =>
    line.left (blocks.all Block.isActive) ['\n'] ++
      shownLines flags (line.blocksAfter flags blocks) lines last

def linePieces (lines : List Line) : List Piece :=
  lines.flatMap fun line => line.pieces ++ [.plain '\n']

theorem pieces_content {lines : List Line} {last : Line} (style : LineStyle lines last) :
    pieces (content lines last) = linePieces lines ++ last.pieces := by
  induction lines with
  | nil =>
    have alone := Line.Fits.pieces_append style
    rwa [List.append_nil, pieces, List.append_nil] at alone
  | cons line lines ih =>
    have behind : pieces ('\n' :: content lines last) =
        .plain '\n' :: (linePieces lines ++ last.pieces) := by
      rw [pieces, if_neg (by decide), ih style.2]
    have split : content (line :: lines) last = line.source ++ '\n' :: content lines last := by
      simp [content]
    rw [split, style.1.pieces_append, behind]
    simp [linePieces]

namespace Renderer

variable {r : Renderer} (flags : FlagSet)

structure Between (r : Renderer) : Prop where
  consistent : r.Consistent
  noContent : r.hasContent = false
  hidden : r.visible = false → r.hasDirective = true
  fresh : r.visible = true → r.line = "" ∧ r.trimming = false ∧ r.hasDirective = false

theorem between_start : start.Between :=
  ⟨rfl, rfl, fun hidden => absurd hidden (by decide), fun _ => ⟨rfl, rfl, rfl⟩⟩

theorem run_text_hidden (hidden : r.visible = false) (body : Text) :
    (r.run flags (body.map .plain)).value = r.advance body := by
  induction body generalizing r with
  | nil => rfl
  | cons c cs ih =>
    rw [List.map_cons, run_cons, step_plain, emit_hidden (r.advance [c]) c hidden,
      ih (r := r.advance [c]) hidden, advance_append, List.singleton_append]

theorem run_text_visible (visible : r.visible = true) (fresh : r.trimming = false) {body : Text}
    (noBreak : '\n' ∉ body) :
    ∃ content number, (r.run flags (body.map .plain)).value =
      { r with
        line := r.line ++ String.ofList body
        hasContent := content
        sourceLine := number } := by
  induction body generalizing r with
  | nil => exact ⟨r.hasContent, r.sourceLine, by simp [run_nil]⟩
  | cons c cs ih =>
    rw [List.mem_cons, not_or] at noBreak
    have stays : ((r.advance [c]).trimming && isSpace c) = false := by simp [advance, fresh]
    have written := emit_written (r.advance [c]) visible (Ne.symm noBreak.1) stays
    obtain ⟨content, number, whole⟩ :=
      ih (r := (r.advance [c]).emit c) (by rw [emit_visible]; exact visible)
        (by rw [written]) noBreak.2
    refine ⟨content, number, ?_⟩
    have line : r.line.push c ++ String.ofList cs = r.line ++ String.ofList (c :: cs) := by
      rw [← String.toList_inj]
      simp
    rw [List.map_cons, run_cons, step_plain, whole, written]
    simp [advance, line, fresh]

theorem emit_space {c : Char} (space : isSpace c = true) :
    (r.emit c).finished = r.finished ∧ (r.emit c).hasContent = r.hasContent ∧
      (r.emit c).hasDirective = r.hasDirective := by
  have other : c ≠ '\n' := by
    rintro rfl
    exact absurd space (by decide)
  by_cases visible : r.visible = true
  · by_cases dropped : (r.trimming && isSpace c) = true
    · rw [emit_dropped r c dropped]
      exact ⟨rfl, rfl, rfl⟩
    · rw [emit_written r visible other (Bool.eq_false_iff.2 dropped)]
      simp [space]
  · rw [emit_hidden r c (Bool.eq_false_iff.2 visible)]
    exact ⟨rfl, rfl, rfl⟩

theorem run_parts {parts : List Piece} (areParts : ∀ part ∈ parts, Line.IsPart part)
    (noContent : r.hasContent = false)
    (directive : r.hasDirective = true ∨ ∃ d source, .directive d source ∈ parts) :
    (r.run flags parts).value.finished = r.finished ∧ (r.run flags parts).value.isBare = true := by
  induction parts generalizing r with
  | nil =>
    have already := directive.resolve_right (by simp)
    simp [run_nil, isBare, already, noContent]
  | cons part parts ih =>
    have areBehind : ∀ next ∈ parts, Line.IsPart next := fun next member =>
      areParts next (List.mem_cons_of_mem part member)
    cases part with
    | directive d source =>
      rw [run_cons, step_directive]
      exact ih (r := (r.withBlocks (d.blocksAfter flags r.blocks)).advance source) areBehind
        noContent (.inl rfl)
    | plain c =>
      obtain ⟨finished, content, known⟩ :=
        emit_space (r := r.advance [c]) (areParts (.plain c) List.mem_cons_self)
      have behind : (r.advance [c]).hasDirective = true ∨
          ∃ d source, .directive d source ∈ parts := by
        rcases directive with already | ⟨d, source, member⟩
        · exact .inl already
        · exact .inr ⟨d, source, (List.mem_cons.1 member).resolve_left (by simp)⟩
      rw [← known] at behind
      rw [run_cons, step_plain, ← show (r.advance [c]).finished = r.finished from rfl, ← finished]
      exact ih areBehind (content.trans noContent) behind

theorem Between.of_bare (consistent : r.Consistent) (bare : r.isBare = true) :
    (r.emit '\n').Between ∧ (r.emit '\n').finished = r.finished := by
  have both := bare
  rw [isBare, Bool.and_eq_true, Bool.not_eq_true'] at both
  by_cases visible : r.visible = true
  · have still : isBare { r with trimming := false } = true := bare
    rw [emit_break r visible, endLine, still]
    exact ⟨⟨consistent, rfl, fun hidden => by simp [visible] at hidden,
      fun _ => ⟨rfl, rfl, rfl⟩⟩, rfl⟩
  · rw [emit_hidden r '\n' (Bool.eq_false_iff.2 visible)]
    exact ⟨⟨consistent, both.2, fun _ => both.1, fun shown => absurd shown visible⟩, rfl⟩

theorem Between.of_shown (consistent : r.Consistent) (visible : r.visible = true)
    (noDirective : r.hasDirective = false) :
    (r.emit '\n').Between ∧
      (r.emit '\n').finished.toList = r.finished.toList ++ (r.line.toList ++ ['\n']) := by
  have stays : isBare { r with trimming := false } = false := by simp [isBare, noDirective]
  rw [emit_break r visible, endLine, stays]
  exact ⟨⟨consistent, rfl, fun hidden => by simp [visible] at hidden, fun _ => ⟨rfl, rfl, rfl⟩⟩,
    by simp⟩

/-- Behind a line, either it is bare and leaves nothing, or it is a visible text as it stands. -/
theorem Between.behind {line : Line} {rest : Text} (between : r.Between) (fits : line.Fits rest) :
    let s := (r.run flags line.pieces).value
    s.finished = r.finished ∧
      ((s.isBare = true ∧ ∀ ending, line.left r.visible ending = []) ∨
        (s.visible = true ∧ s.hasDirective = false ∧
          ∀ ending, line.left r.visible ending = s.line.toList ++ ending)) := by
  intro s
  cases line with
  | directives parts =>
    obtain ⟨finished, bare⟩ := run_parts flags fits.2 between.noContent (.inr fits.1)
    exact ⟨finished, .inl ⟨bare, fun _ => rfl⟩⟩
  | text body =>
    cases visible : r.visible with
    | false =>
      have whole : s = r.advance body := run_text_hidden flags visible body
      rw [whole]
      refine ⟨rfl, .inl ⟨?_, fun _ => rfl⟩⟩
      simp [isBare, advance, between.noContent, between.hidden visible]
    | true =>
      obtain ⟨empty, trimming, noDirective⟩ := between.fresh visible
      obtain ⟨content, number, whole⟩ := run_text_visible flags visible trimming fits.1
      rw [show s = _ from whole]
      refine ⟨rfl, .inr ⟨visible, noDirective, fun ending => ?_⟩⟩
      simp [Line.left, empty]

theorem Between.line {line : Line} {rest : Text} (between : r.Between) (fits : line.Fits rest) :
    (r.run flags (line.pieces ++ [.plain '\n'])).value.Between ∧
      (r.run flags (line.pieces ++ [.plain '\n'])).value.finished.toList =
        r.finished.toList ++ line.left r.visible ['\n'] := by
  have consistent := between.consistent.run flags line.pieces
  obtain ⟨finished, cases⟩ := between.behind flags fits
  rw [run_append, run_cons, run_nil, step_plain, ← finished]
  generalize (r.run flags line.pieces).value = s at consistent cases
  rcases cases with ⟨bare, nothing⟩ | ⟨visible, noDirective, stays⟩
  · obtain ⟨next, same⟩ := Between.of_bare (r := s.advance ['\n']) consistent bare
    refine ⟨next, ?_⟩
    rw [same, nothing, List.append_nil]
    rfl
  · obtain ⟨next, added⟩ := Between.of_shown (r := s.advance ['\n']) consistent visible noDirective
    refine ⟨next, ?_⟩
    rw [added, stays]
    rfl

theorem Between.lastLine {line : Line} {rest : Text} (between : r.Between)
    (fits : line.Fits rest) :
    (r.run flags line.pieces).value.text.toList =
      r.finished.toList ++ line.left r.visible [] := by
  obtain ⟨finished, cases⟩ := between.behind flags fits
  rw [toList_text, finished]
  rcases cases with ⟨bare, nothing⟩ | ⟨_, noDirective, stays⟩
  · rw [if_pos bare, nothing]
  · have notBare : ¬(r.run flags line.pieces).value.isBare = true := by simp [isBare, noDirective]
    rw [if_neg notBare, stays, List.append_nil]

/-- What a run over lines makes of the template. -/
theorem Between.toList_text_run {lines : List Line} {last : Line} (between : r.Between)
    (style : LineStyle lines last) :
    (r.run flags (linePieces lines ++ last.pieces)).value.text.toList =
      r.finished.toList ++ shownLines flags r.blocks lines last := by
  induction lines generalizing r with
  | nil =>
    rw [shownLines, ← between.consistent]
    exact between.lastLine flags style
  | cons line lines ih =>
    obtain ⟨next, finished⟩ := between.line flags style.1
    have blocks : (r.run flags (line.pieces ++ [.plain '\n'])).value.blocks =
        line.blocksAfter flags r.blocks := by
      rw [run_blocks, List.foldl_append]
      rfl
    have split : linePieces (line :: lines) ++ last.pieces =
        (line.pieces ++ [.plain '\n']) ++ (linePieces lines ++ last.pieces) := by
      simp [linePieces]
    rw [split, run_append, ih next style.2, finished, blocks, shownLines, ← between.consistent,
      List.append_assoc]

end Renderer

def placeBehind (before : List Line) : Nat := (linePieces before).length

def blocksBehind (flags : FlagSet) (before : List Line) : List Block :=
  before.foldl (fun blocks line => line.blocksAfter flags blocks) []

theorem run_linePieces_blocks (flags : FlagSet) (before : List Line) (r : Renderer) :
    (r.run flags (linePieces before)).value.blocks =
      before.foldl (fun blocks line => line.blocksAfter flags blocks) r.blocks := by
  rw [Renderer.run_blocks]
  generalize r.blocks = blocks
  induction before generalizing blocks with
  | nil => rfl
  | cons line before ih =>
    rw [linePieces, List.flatMap_cons, List.foldl_append, List.foldl_append, List.foldl_cons]
    exact ih _

theorem blocksBehind_iff_shown (flags : FlagSet) (before more : List Line) (behind : List Piece) :
    (blocksBehind flags before).all Block.isActive = true ↔
      Matching.Shown flags (linePieces (before ++ more) ++ behind) (placeBehind before) := by
  have split : linePieces (before ++ more) ++ behind =
      linePieces before ++ (linePieces more ++ behind) := by
    rw [linePieces, List.flatMap_append, List.append_assoc]
    rfl
  have bound : placeBehind before ≤ (linePieces before ++ (linePieces more ++ behind)).length := by
    rw [placeBehind, List.length_append]
    omega
  have consistent := Renderer.consistent_start.run flags (linePieces before)
  rw [split, ← Matching.visible_iff_shown flags _ _ bound, placeBehind, List.take_left,
    consistent, run_linePieces_blocks]
  rfl

/-- A template in which directives stand on lines of their own is rendered to its text lines that
lie in the branch that was taken of each open block, as they are, with runs of blank lines
collapsed. The lines with directives leave nothing, not even before the collapse. -/
theorem render_lines (flags : FlagSet) {lines : List Line} {last : Line}
    (style : LineStyle lines last) :
    let template := content lines last
    (render flags (String.ofList template)).value =
        collapseBlankLines (String.ofList (shownLines flags [] lines last)) ∧
      (Renderer.start.run flags (pieces template)).value.text =
        String.ofList (shownLines flags [] lines last) ∧
      ∀ before line after, lines ++ [last] = before ++ line :: after →
        ((blocksBehind flags before).all Block.isActive = true ↔
          Matching.Shown flags (pieces template) (placeBehind before)) := by
  intro template
  have text : (Renderer.start.run flags (pieces template)).value.text =
      String.ofList (shownLines flags [] lines last) := by
    rw [← String.toList_inj, String.toList_ofList, pieces_content style]
    exact Renderer.between_start.toList_text_run flags style
  refine ⟨?_, text, ?_⟩
  · rw [value_render, text]
  · intro before line after split
    have lengths := congrArg List.length split
    simp only [List.length_append, List.length_cons, List.length_nil] at lengths
    obtain ⟨more, rfl⟩ : before <+: lines :=
      List.prefix_of_prefix_length_le (split ▸ List.prefix_append before _)
        (List.prefix_append lines [last]) (by omega)
    rw [pieces_content style]
    exact blocksBehind_iff_shown flags before more last.pieces

def choice : List Line :=
  [.directives [.plain ' ', .plain ' ', .directive (.ifHolds "A") "[if A]".toList],
    .text "    a[0]".toList,
    .directives [.plain '\t', .directive .elseBranch "[else]".toList, .plain ' '],
    .text "    b[0]".toList,
    .directives [.directive .endIf "[endif]".toList]]

theorem lineStyle_choice : LineStyle choice (.text "end".toList) := by
  have ifA : Line.IsPart (.directive (.ifHolds "A") "[if A]".toList) :=
    ⟨"if A]".toList, by decide, by decide +kernel⟩
  have orElse : Line.IsPart (.directive .elseBranch "[else]".toList) :=
    ⟨"else]".toList, by decide, by decide +kernel⟩
  have endIf : Line.IsPart (.directive .endIf "[endif]".toList) :=
    ⟨"endif]".toList, by decide, by decide +kernel⟩
  have space : Line.IsPart (.plain ' ') := rfl
  have tab : Line.IsPart (.plain '\t') := rfl
  refine ⟨⟨⟨.ifHolds "A", "[if A]".toList, by simp⟩, ?_⟩, ⟨by decide, by decide +kernel⟩,
    ⟨⟨.elseBranch, "[else]".toList, by simp⟩, ?_⟩, ⟨by decide, by decide +kernel⟩,
    ⟨⟨.endIf, "[endif]".toList, by simp⟩, ?_⟩, by decide, by decide +kernel⟩
  · simpa [space] using ifA
  · simpa [space, tab] using orElse
  · simpa using endIf

theorem render_lines_choice :
    (render FlagSet.none "  [if A]\n    a[0]\n\t[else] \n    b[0]\n[endif]\nend").value =
      "    b[0]\nend" := by
  have template : String.ofList (content choice (.text "end".toList)) =
      "  [if A]\n    a[0]\n\t[else] \n    b[0]\n[endif]\nend" := by decide +kernel
  have shown : shownLines FlagSet.none [] choice (.text "end".toList) =
      "    b[0]\nend".toList := by decide +kernel
  have rendered := (render_lines FlagSet.none lineStyle_choice).1
  rw [template, shown] at rendered
  rw [rendered]
  decide +kernel

end Scaffold.Template
