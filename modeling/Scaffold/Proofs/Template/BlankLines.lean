import Mathlib.Tactic.Common
import Scaffold.Template.BlankLines

/-! Blank lines are collapsed line by line. Of a text in two parts that is cut behind a line
break, the first part keeps what it keeps alone, and the second one only has to know whether a
blank line comes before it. The kept lines are the lines of the collapsed text, so collapsing the
parts beforehand makes no difference. -/

namespace Scaffold

def Text.EndsInBreak (cs : Text) : Prop := cs = [] ∨ ∃ front, cs = front ++ ['\n']

namespace Text

theorem EndsInBreak.append {first second : Text} (front : EndsInBreak first)
    (back : EndsInBreak second) : EndsInBreak (first ++ second) := by
  rcases back with rfl | ⟨inner, rfl⟩
  · rwa [List.append_nil]
  · exact .inr ⟨first ++ inner, (List.append_assoc ..).symm⟩

theorem endsInBreak_flatten {ls : List Text} (ends : ∀ line ∈ ls, EndsInBreak line) :
    EndsInBreak ls.flatten := by
  induction ls with
  | nil => exact .inl rfl
  | cons line rest ih =>
    rw [List.flatten_cons]
    exact (ends line List.mem_cons_self).append
      (ih fun next member => ends next (List.mem_cons_of_mem line member))

theorem lines_break (cs : Text) : lines ('\n' :: cs) = ['\n'] :: lines cs := by
  rw [lines, if_pos rfl]

theorem lines_cons_of_ne {c : Char} (other : c ≠ '\n') {cs line : Text} {rest : List Text}
    (split : lines cs = line :: rest) : lines (c :: cs) = (c :: line) :: rest := by
  rw [lines, if_neg other, split]

theorem exists_lines {cs : Text} (nonempty : cs ≠ []) : ∃ line rest, lines cs = line :: rest := by
  cases cs with
  | nil => exact absurd rfl nonempty
  | cons c cs =>
    rw [lines]
    split_ifs
    · exact ⟨_, _, rfl⟩
    · split <;> exact ⟨_, _, rfl⟩

theorem lines_append_break (front back : Text) :
    lines (front ++ '\n' :: back) = lines (front ++ ['\n']) ++ lines back := by
  induction front with
  | nil => exact lines_break back
  | cons c front ih =>
    by_cases isBreak : c = '\n'
    · rw [isBreak, List.cons_append, List.cons_append, lines_break, lines_break, ih,
        List.cons_append]
    · obtain ⟨line, rest, split⟩ := exists_lines (List.append_ne_nil_of_right_ne_nil front
        (List.cons_ne_nil '\n' []))
      rw [split, List.cons_append] at ih
      rw [List.cons_append, List.cons_append, lines_cons_of_ne isBreak ih,
        lines_cons_of_ne isBreak split, List.cons_append]

theorem EndsInBreak.lines_append {front : Text} (ends : EndsInBreak front) (back : Text) :
    lines (front ++ back) = lines front ++ lines back := by
  rcases ends with rfl | ⟨inner, rfl⟩
  · rfl
  · rw [List.append_assoc, List.singleton_append]
    exact lines_append_break inner back

theorem EndsInBreak.exists_of_mem_lines {cs line : Text} (ends : EndsInBreak cs)
    (member : line ∈ lines cs) : ∃ front, line = front ++ ['\n'] := by
  rcases ends with rfl | ⟨inner, rfl⟩
  · exact nomatch member
  · induction inner generalizing line with
    | nil => exact ⟨[], List.mem_singleton.1 member⟩
    | cons c inner ih =>
      rw [List.cons_append] at member
      by_cases isBreak : c = '\n'
      · rw [isBreak, lines_break] at member
        rcases List.mem_cons.1 member with rfl | member
        · exact ⟨[], rfl⟩
        · exact ih member
      · obtain ⟨first, rest, split⟩ := exists_lines (List.append_ne_nil_of_right_ne_nil inner
          (List.cons_ne_nil '\n' []))
        rw [split] at ih
        rw [lines_cons_of_ne isBreak split] at member
        rcases List.mem_cons.1 member with rfl | member
        · obtain ⟨front, rfl⟩ := ih List.mem_cons_self
          exact ⟨c :: front, rfl⟩
        · exact ih (List.mem_cons_of_mem first member)

theorem lines_of_noBreak {line : Text} (noBreak : '\n' ∉ line) (nonempty : line ≠ []) :
    lines line = [line] := by
  induction line with
  | nil => exact absurd rfl nonempty
  | cons c line ih =>
    rw [List.mem_cons, not_or] at noBreak
    by_cases last : line = []
    · rw [last, lines, if_neg (Ne.symm noBreak.1)]
      rfl
    · exact lines_cons_of_ne (Ne.symm noBreak.1) (ih noBreak.2 last)

theorem lines_ended {line : Text} (noBreak : '\n' ∉ line) :
    lines (line ++ ['\n']) = [line ++ ['\n']] := by
  induction line with
  | nil => exact lines_break []
  | cons c line ih =>
    rw [List.mem_cons, not_or] at noBreak
    exact lines_cons_of_ne (Ne.symm noBreak.1) (ih noBreak.2)

theorem exists_lines_append_cons {front : Text} (noBreak : '\n' ∉ front) {c : Char}
    (other : c ≠ '\n') (back : Text) :
    ∃ tail rest, lines (front ++ c :: back) = (front ++ c :: tail) :: rest := by
  induction front with
  | nil =>
    cases split : lines back with
    | nil => exact ⟨[], [], by rw [List.nil_append, lines, if_neg other, split]; rfl⟩
    | cons line rest => exact ⟨line, rest, lines_cons_of_ne other split⟩
  | cons d front ih =>
    rw [List.mem_cons, not_or] at noBreak
    obtain ⟨tail, rest, split⟩ := ih noBreak.2
    exact ⟨tail, rest, lines_cons_of_ne (Ne.symm noBreak.1) split⟩

inductive AreLines : List Text → Prop where
  | nil : AreLines []
  | last (line : Text) (nonempty : line ≠ []) (noBreak : '\n' ∉ line) : AreLines [line]
  | ended (line : Text) (rest : List Text) (noBreak : '\n' ∉ line) (more : AreLines rest) :
      AreLines ((line ++ ['\n']) :: rest)

theorem areLines_lines (cs : Text) : AreLines (lines cs) := by
  fun_induction lines cs with
  | case1 => exact .nil
  | case2 cs ih => exact .ended [] (lines cs) List.not_mem_nil ih
  | case3 c cs other empty ih =>
    exact .last [c] (List.cons_ne_nil c []) fun member => other (List.mem_singleton.1 member).symm
  | case4 c cs other line rest split ih =>
    rw [split] at ih
    have within : ∀ {body : Text}, '\n' ∉ body → '\n' ∉ c :: body := fun noBreak member =>
      (List.mem_cons.1 member).elim (fun same => other same.symm) noBreak
    cases ih with
    | last _ _ noBreak => exact .last (c :: line) (List.cons_ne_nil c line) (within noBreak)
    | ended body _ noBreak more => exact .ended (c :: body) rest (within noBreak) more

theorem AreLines.sublist {ls sub : List Text} (areLines : AreLines ls) (inside : sub.Sublist ls) :
    AreLines sub := by
  induction areLines generalizing sub with
  | nil =>
    rw [List.sublist_nil.1 inside]
    exact .nil
  | last line nonempty noBreak =>
    rcases List.sublist_cons_iff.1 inside with behind | ⟨kept, rfl, behind⟩
    · rw [List.sublist_nil.1 behind]
      exact .nil
    · rw [List.sublist_nil.1 behind]
      exact .last line nonempty noBreak
  | ended line rest noBreak more ih =>
    rcases List.sublist_cons_iff.1 inside with behind | ⟨kept, rfl, behind⟩
    · exact ih behind
    · exact .ended line kept noBreak (ih behind)

theorem AreLines.lines_flatten {ls : List Text} (areLines : AreLines ls) :
    lines ls.flatten = ls := by
  induction areLines with
  | nil => rfl
  | last line nonempty noBreak =>
    rw [List.flatten_singleton]
    exact lines_of_noBreak noBreak nonempty
  | ended line rest noBreak more ih =>
    rw [List.flatten_cons, EndsInBreak.lines_append (.inr ⟨line, rfl⟩), ih, lines_ended noBreak]
    rfl

end Text

namespace Template

def blankLast (afterBlank : Bool) (ls : List Text) : Bool :=
  ls.foldl (fun _ line => line.isAllBlank) afterBlank

theorem keptLines_append (afterBlank : Bool) (first second : List Text) :
    keptLines afterBlank (first ++ second) =
      keptLines afterBlank first ++ keptLines (blankLast afterBlank first) second := by
  induction first generalizing afterBlank with
  | nil => rfl
  | cons line rest ih =>
    rw [List.cons_append, keptLines, keptLines, blankLast, List.foldl_cons, ← blankLast]
    split_ifs with dropped
    · rw [Bool.and_eq_true] at dropped
      rw [ih, dropped.1]
    · rw [ih, List.cons_append]

theorem keptLines_sublist (afterBlank : Bool) (ls : List Text) :
    (keptLines afterBlank ls).Sublist ls := by
  induction ls generalizing afterBlank with
  | nil => exact List.Sublist.refl _
  | cons line rest ih =>
    rw [keptLines]
    split_ifs
    · exact (ih true).cons line
    · exact (ih _).cons_cons line

theorem lines_flatten_keptLines (afterBlank : Bool) (cs : Text) :
    Text.lines (keptLines afterBlank cs.lines).flatten = keptLines afterBlank cs.lines :=
  ((Text.areLines_lines cs).sublist (keptLines_sublist afterBlank cs.lines)).lines_flatten

/-- Of kept lines, a second pass drops at most a blank line at the front. -/
theorem keptLines_keptLines (second first : Bool) (ls : List Text) :
    keptLines second (keptLines first ls) = keptLines (second || first) ls := by
  induction ls generalizing second first with
  | nil => rfl
  | cons line rest ih =>
    cases blank : line.isAllBlank with
    | false => simp [keptLines, blank, ih]
    | true => cases first <;> cases second <;> simp [keptLines, blank, ih]

theorem blankLast_keptLines (afterBlank : Bool) (ls : List Text) :
    blankLast afterBlank (keptLines afterBlank ls) = blankLast afterBlank ls := by
  induction ls generalizing afterBlank with
  | nil => rfl
  | cons line rest ih =>
    rw [keptLines]
    split_ifs with dropped
    · rw [Bool.and_eq_true] at dropped
      rw [dropped.2, ih, blankLast, blankLast, List.foldl_cons, dropped.1]
    · exact ih line.isAllBlank

section Collapse

variable {front line : Text}

theorem toList_collapseBlankLines (cs : Text) :
    (collapseBlankLines (String.ofList cs)).toList = (keptLines false cs.lines).flatten := by
  rw [collapseBlankLines, String.toList_ofList, String.toList_ofList]

/-- The kept lines are the lines of the collapsed text. -/
theorem lines_collapse (text : String) :
    Text.lines (collapseBlankLines text).toList = keptLines false (Text.lines text.toList) := by
  rw [collapseBlankLines, String.toList_ofList, lines_flatten_keptLines]

theorem collapse_collapse (text : String) :
    collapseBlankLines (collapseBlankLines text) = collapseBlankLines text := by
  rw [collapseBlankLines, lines_collapse, keptLines_keptLines, Bool.or_false, collapseBlankLines]

theorem endsInBreak_collapse (ends : front.EndsInBreak) :
    Text.EndsInBreak (collapseBlankLines (String.ofList front)).toList := by
  rw [toList_collapseBlankLines]
  exact Text.endsInBreak_flatten fun _ member =>
    .inr (ends.exists_of_mem_lines ((keptLines_sublist false front.lines).mem member))

/-- Behind lines that have been ended, it makes no difference whether the parts of a text are
collapsed beforehand. -/
theorem collapse_append_collapse (ends : front.EndsInBreak) (back : Text) :
    collapseBlankLines (String.ofList (front ++ back)) =
      collapseBlankLines (collapseBlankLines (String.ofList front) ++
        collapseBlankLines (String.ofList back)) := by
  have first := endsInBreak_collapse ends
  rw [toList_collapseBlankLines] at first
  rw [← String.toList_inj, toList_collapseBlankLines, ends.lines_append, keptLines_append,
    collapseBlankLines, String.toList_ofList, String.toList_append, toList_collapseBlankLines,
    toList_collapseBlankLines, first.lines_append, lines_flatten_keptLines,
    lines_flatten_keptLines, keptLines_append, keptLines_keptLines, blankLast_keptLines,
    keptLines_keptLines, Bool.or_false, Bool.or_false]

theorem collapse_append_line (ends : front.EndsInBreak) (noBreak : '\n' ∉ line) :
    (collapseBlankLines (String.ofList (front ++ line))).toList =
        (collapseBlankLines (String.ofList front)).toList ++ line ∨
      (Text.isAllBlank line = true ∧
        (collapseBlankLines (String.ofList (front ++ line))).toList =
          (collapseBlankLines (String.ofList front)).toList) := by
  rw [toList_collapseBlankLines, toList_collapseBlankLines, ends.lines_append, keptLines_append,
    List.flatten_append]
  by_cases empty : line = []
  · left
    rw [empty]
    rfl
  · rw [Text.lines_of_noBreak noBreak empty, keptLines]
    split_ifs with dropped
    · rw [Bool.and_eq_true] at dropped
      exact .inr ⟨dropped.1, List.append_nil _⟩
    · exact .inl (congrArg _ (List.append_nil line))

theorem collapse_append_cons (ends : front.EndsInBreak) (noBreak : '\n' ∉ line) {c : Char}
    (solid : Text.isBlank c = false) (back : Text) :
    ∃ tail, (collapseBlankLines (String.ofList (front ++ (line ++ c :: back)))).toList =
      (collapseBlankLines (String.ofList front)).toList ++ (line ++ c :: tail) := by
  have other : c ≠ '\n' := by
    rintro rfl
    exact absurd solid (by decide)
  obtain ⟨tail, rest, split⟩ := Text.exists_lines_append_cons noBreak other back
  have kept : Text.isAllBlank (line ++ c :: tail) = false := by
    simp [Text.isAllBlank, solid]
  rw [toList_collapseBlankLines, toList_collapseBlankLines, ends.lines_append, keptLines_append,
    List.flatten_append, split, keptLines, kept, Bool.false_and, if_neg Bool.false_ne_true,
    List.flatten_cons, List.append_assoc, List.cons_append]
  exact ⟨_, rfl⟩

end Collapse

end Template

end Scaffold
