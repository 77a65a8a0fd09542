import Scaffold.Ignore.List
import Scaffold.Proofs.Except
import Scaffold.Proofs.Template.BlankLines
import Scaffold.Proofs.Text

/-! The rules of an ignore file. They are the standard patterns and the lines of the file, without
the blank characters around them, that hold something and are no comment. A list is loaded exactly
if every rule can be read, and else the first line that cannot be read is reported. -/

namespace Scaffold

namespace Text

def IsLine (line text : Text) : Prop :=
  '\n' ∉ line ∧ ∃ before after, text = before ++ (line ++ after) ∧ EndsInBreak before ∧
    (after = [] ∨ ∃ more, after = '\n' :: more)

def LinesAmong (text other : Text) : Prop :=
  ∀ line, IsLine line text → trim line ≠ [] → ∃ same, IsLine same other ∧ trim same = trim line

variable {line text : Text}

theorem IsLine.behind (isLine : IsLine line text) {front : Text} (ends : EndsInBreak front) :
    IsLine line (front ++ text) := by
  obtain ⟨noBreak, before, after, rfl, starts, stops⟩ := isLine
  exact ⟨noBreak, front ++ before, after, (List.append_assoc ..).symm, ends.append starts, stops⟩

theorem AreLines.exists_isLine {ls : List Text} (areLines : AreLines ls) (member : line ∈ ls) :
    ∃ body, IsLine body ls.flatten ∧ (line = body ∨ line = body ++ ['\n']) := by
  induction areLines with
  | nil => exact nomatch member
  | last only _ noBreak =>
    rw [List.mem_singleton.1 member]
    exact ⟨only, ⟨noBreak, [], [], by simp, .inl rfl, .inl rfl⟩, .inl rfl⟩
  | ended first rest noBreak _ ih =>
    rcases List.mem_cons.1 member with rfl | inside
    · have begins : IsLine first ((first ++ ['\n']) :: rest).flatten :=
        ⟨noBreak, [], '\n' :: rest.flatten, by simp, .inl rfl, .inr ⟨rest.flatten, rfl⟩⟩
      exact ⟨first, begins, .inr rfl⟩
    · obtain ⟨body, isLine, same⟩ := ih inside
      exact ⟨body, isLine.behind (.inr ⟨first, rfl⟩), same⟩

theorem IsLine.mem_lines (isLine : IsLine line text) (nonempty : line ≠ []) :
    line ∈ lines text ∨ line ++ ['\n'] ∈ lines text := by
  obtain ⟨noBreak, before, after, rfl, starts, rfl | ⟨more, rfl⟩⟩ := isLine
  · rw [List.append_nil, starts.lines_append, lines_of_noBreak noBreak nonempty]
    exact .inl (List.mem_append_right _ List.mem_cons_self)
  · rw [starts.lines_append, lines_append_break, lines_ended noBreak]
    exact .inr (List.mem_append_right _ (List.mem_append_left _ List.mem_cons_self))

theorem trim_append_break (line : Text) : trim (line ++ ['\n']) = trim line :=
  trim_append_blank (fun _ member => by rw [List.mem_singleton.1 member]; rfl) line

/-- Whether a line ends in a break makes no difference once it is trimmed. -/
theorem exists_isLine_iff {trimmed : Text} (nonempty : trimmed ≠ []) :
    (∃ line, IsLine line text ∧ trim line = trimmed) ↔
      ∃ line ∈ lines text, trim line = trimmed := by
  constructor
  · rintro ⟨line, isLine, rfl⟩
    have present : line ≠ [] := by
      rintro rfl
      exact nonempty rfl
    rcases isLine.mem_lines present with member | member
    · exact ⟨line, member, rfl⟩
    · exact ⟨line ++ ['\n'], member, trim_append_break line⟩
  · rintro ⟨whole, member, trims⟩
    obtain ⟨body, isLine, rfl | rfl⟩ := (areLines_lines text).exists_isLine member
    · rw [flatten_lines] at isLine
      exact ⟨whole, isLine, trims⟩
    · rw [flatten_lines] at isLine
      exact ⟨body, isLine, by rwa [trim_append_break] at trims⟩

theorem linesAmong_iff {other : Text} :
    LinesAmong text other ↔
      ∀ line ∈ lines text, trim line ≠ [] → ∃ same ∈ lines other, trim same = trim line := by
  constructor
  · intro among line member nonempty
    obtain ⟨body, isLine, trims⟩ := (exists_isLine_iff nonempty).2 ⟨line, member, rfl⟩
    rw [← trims] at nonempty ⊢
    exact (exists_isLine_iff nonempty).1 (among body isLine nonempty)
  · intro among line isLine nonempty
    obtain ⟨whole, member, trims⟩ := (exists_isLine_iff nonempty).1 ⟨line, isLine, rfl⟩
    rw [← trims] at nonempty ⊢
    exact (exists_isLine_iff nonempty).2 (among whole member nonempty)

end Text

namespace IgnoreList

/-- What a text stands for as an ignore file: the standard patterns, and each of its lines that,
without the blanks around it, is neither empty nor begins with a number sign. -/
def IsRule (text rule : String) : Prop :=
  rule ∈ standardLines ∨
    rule ≠ "" ∧ rule.toList.head? ≠ some '#' ∧
      ∃ line, Text.IsLine line text.toList ∧ rule = String.ofList (Text.trim line)

variable {text rule : String}

theorem mem_patternLines_iff :
    rule ∈ patternLines text ↔ rule ≠ "" ∧ rule.toList.head? ≠ some '#' ∧
      ∃ line, Text.IsLine line text.toList ∧ rule = String.ofList (Text.trim line) := by
  have lines (nonempty : rule ≠ "") :
      (∃ line ∈ Text.lines text.toList, String.ofList (Text.trim line) = rule) ↔
        ∃ line, Text.IsLine line text.toList ∧ rule = String.ofList (Text.trim line) := by
    have present : rule.toList ≠ [] := fun empty => nonempty (String.toList_eq_nil_iff.1 empty)
    have reads : ∀ cs, String.ofList cs = rule ↔ cs = rule.toList := fun cs => by
      rw [← String.toList_inj, String.toList_ofList]
    simp only [eq_comm (a := rule), reads, Text.exists_isLine_iff present]
  simp only [patternLines, List.mem_filter, List.mem_map, Bool.and_eq_true, bne_iff_ne]
  constructor
  · rintro ⟨found, nonempty, noComment⟩
    exact ⟨nonempty, noComment, (lines nonempty).1 found⟩
  · rintro ⟨nonempty, noComment, found⟩
    exact ⟨(lines nonempty).2 found, nonempty, noComment⟩

theorem mem_rules_iff : rule ∈ standardLines ++ patternLines text ↔ IsRule text rule := by
  rw [List.mem_append, mem_patternLines_iff, IsRule]

theorem IsRule.among {other : String} (isRule : IsRule text rule)
    (among : Text.LinesAmong text.toList other.toList) : IsRule other rule := by
  rcases isRule with standard | ⟨nonempty, noComment, line, isLine, rfl⟩
  · exact .inl standard
  · have present : Text.trim line ≠ [] := by
      intro empty
      rw [empty] at nonempty
      exact nonempty rfl
    obtain ⟨same, isSame, trims⟩ := among line isLine present
    exact .inr ⟨nonempty, noComment, same, isSame, by rw [trims]⟩

theorem parseLine_eq_ok_iff {pattern : Glob.Pattern} :
    parseLine rule = .ok pattern ↔ Glob.parse rule = .ok pattern := by
  unfold parseLine
  cases Glob.parse rule <;> simp

theorem parseLine_eq_error_iff {e : Error} :
    parseLine rule = .error e ↔
      ∃ fault, Glob.parse rule = .error fault ∧ e = .badIgnorePattern rule fault := by
  unfold parseLine
  cases Glob.parse rule <;> simp [eq_comm]

theorem ofLines_eq_map (lines : List String) :
    ofLines lines = (lines.mapM parseLine).map (⟨·⟩) := by
  unfold ofLines
  cases lines.mapM parseLine <;> rfl

theorem exists_ofLines_eq_ok_iff {lines : List String} :
    (∃ l, ofLines lines = .ok l) ↔ ∀ line ∈ lines, ∃ pattern, Glob.parse line = .ok pattern := by
  simp only [ofLines_eq_map, map_eq_ok_iff, ← parseLine_eq_ok_iff, ← exists_mapM_eq_ok_iff]
  constructor
  · rintro ⟨_, patterns, all, _⟩
    exact ⟨patterns, all⟩
  · rintro ⟨patterns, all⟩
    exact ⟨_, patterns, all, rfl⟩

def Matches (line path : String) : Prop :=
  ∃ pattern, Glob.parse line = .ok pattern ∧ Glob.isMatch pattern (Bytes.ofString path) = true

theorem isMatch_of_ofLines {lines : List String} {l : IgnoreList} (loaded : ofLines lines = .ok l)
    (path : String) :
    l.isMatch (Bytes.ofString path) = true ↔ ∃ line ∈ lines, Matches line path := by
  rw [ofLines_eq_map] at loaded
  obtain ⟨patterns, all, rfl⟩ := map_eq_ok_iff.1 loaded
  simp only [isMatch, List.any_eq_true, mem_of_mapM_eq_ok all, parseLine_eq_ok_iff]
  constructor
  · rintro ⟨pattern, ⟨line, member, parsed⟩, isMatch⟩
    exact ⟨line, member, pattern, parsed, isMatch⟩
  · rintro ⟨line, member, pattern, parsed, isMatch⟩
    exact ⟨pattern, ⟨line, member, parsed⟩, isMatch⟩

theorem exists_of_ofLines_eq_error {lines : List String} {e : Error}
    (fails : ofLines lines = .error e) :
    ∃ before first after fault, lines = before ++ first :: after ∧
      (∀ line ∈ before, ∃ pattern, Glob.parse line = .ok pattern) ∧
      Glob.parse first = .error fault ∧ e = .badIgnorePattern first fault := by
  rw [ofLines_eq_map, map_eq_error_iff] at fails
  obtain ⟨before, first, after, split, good, bad⟩ := exists_of_mapM_eq_error fails
  obtain ⟨fault, faulty, same⟩ := parseLine_eq_error_iff.1 bad
  refine ⟨before, first, after, fault, split, fun line member => ?_, faulty, same⟩
  obtain ⟨pattern, parsed⟩ := good line member
  exact ⟨pattern, parseLine_eq_ok_iff.1 parsed⟩

theorem load_value {t : FileTree} {p : Path} (content : (t.readText p).toOption.getD "" = text) :
    (load t p).value = ofLines (standardLines ++ patternLines text) := by
  unfold load
  cases read : t.readText p with
  | ok other =>
    rw [read] at content
    rw [← content]
    rfl
  | error fault =>
    rw [read] at content
    have empty : patternLines text = [] := by
      rw [← content]
      rfl
    rw [empty, List.append_nil]
    rfl

theorem exists_load_eq_ok_iff {t : FileTree} {p : Path}
    (content : (t.readText p).toOption.getD "" = text) :
    (∃ l, (load t p).value = .ok l) ↔
      ∀ rule, IsRule text rule → ∃ pattern, Glob.parse rule = .ok pattern := by
  simp only [load_value content, exists_ofLines_eq_ok_iff, mem_rules_iff]

end IgnoreList

end Scaffold
