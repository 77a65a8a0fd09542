import Mathlib.Data.List.SplitBy
import Scaffold.Proofs.Template.BlankLines

/-! Runs of blank lines. The lines of a text fall into longest runs of blank lines and of lines
that are not blank, in turn. Collapsing leaves the first line of each blank run and every other
line, so no two blank lines are left side by side and there is nothing left to collapse. -/

namespace Scaffold.Template

def alike (line next : Text) : Bool := line.isAllBlank == next.isAllBlank

def firstIfBlank (run : List Text) : List Text :=
  if run.all Text.isAllBlank then run.take 1 else run

theorem isAllBlank_eq_of_isChain {first line : Text} {rest : List Text}
    (uniform : (first :: rest).IsChain fun line next => alike line next)
    (member : line ∈ rest) : line.isAllBlank = first.isAllBlank := by
  induction rest generalizing first with
  | nil => exact absurd member List.not_mem_nil
  | cons second rest ih =>
    rw [List.isChain_cons_cons] at uniform
    have same : first.isAllBlank = second.isAllBlank := beq_iff_eq.1 uniform.1
    rcases List.mem_cons.1 member with rfl | behind
    · exact same.symm
    · exact (ih uniform.2 behind).trans same.symm

theorem keptLines_of_solid {ls : List Text} (solid : ∀ line ∈ ls, line.isAllBlank = false)
    (afterBlank : Bool) : keptLines afterBlank ls = ls := by
  induction ls generalizing afterBlank with
  | nil => rfl
  | cons line rest ih =>
    rw [keptLines, solid line List.mem_cons_self, Bool.false_and, if_neg Bool.false_ne_true,
      ih fun next member => solid next (List.mem_cons_of_mem line member)]

theorem keptLines_of_blank {ls : List Text} (blank : ∀ line ∈ ls, line.isAllBlank = true) :
    keptLines true ls = [] := by
  induction ls with
  | nil => rfl
  | cons line rest ih =>
    rw [keptLines, blank line List.mem_cons_self, Bool.true_and, if_pos rfl]
    exact ih fun next member => blank next (List.mem_cons_of_mem line member)

theorem blankLast_of_uniform {blank : Bool} {ls : List Text}
    (uniform : ∀ line ∈ ls, line.isAllBlank = blank) : blankLast blank ls = blank := by
  induction ls with
  | nil => rfl
  | cons line rest ih =>
    rw [blankLast, List.foldl_cons, uniform line List.mem_cons_self]
    exact ih fun next member => uniform next (List.mem_cons_of_mem line member)

theorem keptLines_run {afterBlank : Bool} {first : Text} {rest : List Text}
    (uniform : ∀ line ∈ rest, line.isAllBlank = first.isAllBlank)
    (fresh : afterBlank = true → first.isAllBlank = false) :
    keptLines afterBlank (first :: rest) = firstIfBlank (first :: rest) := by
  cases blank : first.isAllBlank with
  | false =>
    rw [blank] at uniform
    rw [firstIfBlank, List.all_cons, blank, Bool.false_and, if_neg Bool.false_ne_true]
    exact keptLines_of_solid (List.forall_mem_cons.2 ⟨blank, uniform⟩) afterBlank
  | true =>
    rw [blank] at uniform fresh
    have before : afterBlank = false := by simpa using fresh
    rw [firstIfBlank, if_pos (List.all_eq_true.2 (List.forall_mem_cons.2 ⟨blank, uniform⟩)), before,
      keptLines, Bool.and_false, if_neg Bool.false_ne_true, blank, keptLines_of_blank uniform]
    rfl

/-- Lines fall into longest runs, so a run that ends in a blank line has no blank one behind it. -/
theorem head_flatten_of_turns {run : List Text} {runs : List (List Text)}
    (turns : (run :: runs).IsChain fun run next =>
      ∃ ha hb, alike (run.getLast ha) (next.head hb) = false)
    (blank : ∀ nonempty, (run.getLast nonempty).isAllBlank = true) {line : Text}
    (first : line ∈ runs.flatten.head?) : line.isAllBlank = false := by
  cases runs with
  | nil => exact absurd first (Option.not_mem_none line)
  | cons next runs =>
    obtain ⟨nonempty, present, differ⟩ := (List.isChain_cons_cons.1 turns).1
    obtain ⟨head, tail, rfl⟩ := List.exists_cons_of_ne_nil present
    obtain rfl : head = line := Option.some.inj first
    rw [alike, blank nonempty, List.head_cons] at differ
    simpa using differ

theorem keptLines_flatten {afterBlank : Bool} {runs : List (List Text)} (nonempty : [] ∉ runs)
    (uniform : ∀ run ∈ runs, run.IsChain fun line next => alike line next)
    (turns : runs.IsChain fun run next =>
      ∃ ha hb, alike (run.getLast ha) (next.head hb) = false)
    (fresh : afterBlank = true → ∀ line ∈ runs.flatten.head?, line.isAllBlank = false) :
    keptLines afterBlank runs.flatten = runs.flatMap firstIfBlank := by
  induction runs generalizing afterBlank with
  | nil => rfl
  | cons run runs ih =>
    rw [List.mem_cons, not_or] at nonempty
    obtain ⟨first, rest, rfl⟩ := List.exists_cons_of_ne_nil (Ne.symm nonempty.1)
    have same : ∀ line ∈ rest, line.isAllBlank = first.isAllBlank := fun line member =>
      isAllBlank_eq_of_isChain (uniform _ List.mem_cons_self) member
    have last : blankLast afterBlank (first :: rest) = first.isAllBlank := blankLast_of_uniform same
    have ends : ∀ nonempty, ((first :: rest).getLast nonempty).isAllBlank = first.isAllBlank := by
      intro nonempty
      rcases List.mem_cons.1 (List.getLast_mem nonempty) with here | inside
      · rw [here]
      · exact same _ inside
    have behind : first.isAllBlank = true → ∀ line ∈ runs.flatten.head?,
        line.isAllBlank = false := fun blank line member =>
      head_flatten_of_turns turns (fun nonempty => (ends nonempty).trans blank) member
    rw [List.flatten_cons, keptLines_append, last, List.flatMap_cons,
      keptLines_run same fun before => fresh before first rfl,
      ih nonempty.2 (fun run member => uniform run (List.mem_cons_of_mem _ member)) turns.tail
        behind]

/-- What is kept of lines: the first line of each longest run of blank ones, and the others. -/
theorem keptLines_eq_flatMap (ls : List Text) :
    keptLines false ls = (ls.splitBy alike).flatMap firstIfBlank := by
  calc keptLines false ls
      = keptLines false (ls.splitBy alike).flatten := by rw [List.flatten_splitBy]
    _ = (ls.splitBy alike).flatMap firstIfBlank :=
        keptLines_flatten (List.nil_notMem_splitBy alike ls) (fun _ => List.isChain_of_mem_splitBy)
          (List.isChain_getLast_head_splitBy alike ls)
          (fun before => absurd before Bool.false_ne_true)

theorem head_keptLines {ls : List Text} {line : Text} (first : line ∈ (keptLines true ls).head?) :
    line.isAllBlank = false := by
  induction ls with
  | nil => exact absurd first (Option.not_mem_none line)
  | cons next rest ih =>
    rw [keptLines] at first
    split_ifs at first with blank
    · exact ih first
    · obtain rfl : next = line := Option.some.inj first
      simpa using blank

theorem isChain_keptLines (afterBlank : Bool) (ls : List Text) :
    (keptLines afterBlank ls).IsChain fun line next =>
      ¬(line.isAllBlank = true ∧ next.isAllBlank = true) := by
  induction ls generalizing afterBlank with
  | nil => exact .nil
  | cons line rest ih =>
    rw [keptLines]
    split_ifs
    · exact ih true
    · refine List.isChain_cons.2 ⟨fun next first both => ?_, ih line.isAllBlank⟩
      rw [both.1] at first
      exact absurd both.2 (Bool.eq_false_iff.1 (head_keptLines first))

/-- A text is cut into lines, each with the break that ends it, in one way only. Collapsing keeps,
in their order and unchanged, all lines that are not blank and the first line of each longest run of
blank lines. These are then the lines of the text, no two blank ones are neighbours, and collapsing
once more changes nothing. -/
theorem collapse_eq_runs (text : String) :
    let ls := Text.lines text.toList
    let kept := (ls.splitBy alike).flatMap firstIfBlank
    let collapsed := collapseBlankLines text
    (∀ other, Text.AreLines other ∧ other.flatten = text.toList ↔ other = ls) ∧
      collapsed = String.ofList kept.flatten ∧
      Text.lines collapsed.toList = kept ∧
      (kept.IsChain fun line next => ¬(line.isAllBlank = true ∧ next.isAllBlank = true)) ∧
      collapseBlankLines collapsed = collapsed := by
  intro ls kept collapsed
  have keeps : keptLines false ls = kept := keptLines_eq_flatMap ls
  refine ⟨fun other => ⟨?_, ?_⟩, ?_, ?_, ?_, collapse_collapse text⟩
  · rintro ⟨areLines, whole⟩
    exact areLines.lines_flatten.symm.trans (congrArg Text.lines whole)
  · rintro rfl
    exact ⟨Text.areLines_lines text.toList, Text.flatten_lines text.toList⟩
  · rw [← keeps]
    rfl
  · rw [← keeps]
    exact lines_collapse text
  · rw [← keeps]
    exact isChain_keptLines false ls

end Scaffold.Template
