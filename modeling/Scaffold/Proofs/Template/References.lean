import Mathlib.Tactic.Common
import Scaffold.Proofs.Questionnaire.FlagNames
import Scaffold.Proofs.Template.Lookups

/-! References to declared flags. The name of a flag survives the brackets of a directive and the
words of a condition, unless a closing bracket is in it: a directive ends at the first one, so no
template can mention such a flag. -/

namespace Scaffold.Template

open Questionnaire

def reference (key : String) : String := "[if " ++ key ++ "]x[endif]"

variable {key : String}

theorem Directive.read?_ifName (valid : isFlagName key = true) (closed : ']' ∉ key.toList)
    (rest : Text) :
    read? ("if ".toList ++ key.toList ++ ']' :: rest) = some (.ifHolds key, rest) := by
  have chars := isWordChar_of_isFlagName valid
  have solid : ∀ c ∈ key.toList, Text.isBlank c = false := by
    intro c member
    have isWord := chars c member
    rw [Condition.isWordChar, Bool.and_eq_true, Bool.not_eq_true'] at isWord
    exact isWord.1
  have present : key.toList ≠ [] := by
    intro empty
    rw [String.toList_eq_nil_iff.1 empty] at valid
    exact absurd valid (by decide)
  have unclosed : ']' ∉ "if ".toList ++ key.toList := by simp [closed]
  have trimmedKey : Text.trim key.toList = key.toList :=
    Text.trim_of_solid (fun c first => solid c (List.mem_of_mem_head? first))
      fun c last => solid c (List.mem_of_getLast? last)
  have trimmedInner : Text.trim ("if ".toList ++ key.toList) = "if ".toList ++ key.toList := by
    refine Text.trim_of_solid (fun c first => ?_) fun c last => ?_
    · cases first
      decide
    · rw [List.getLast?_append_of_ne_nil _ present] at last
      exact solid c (List.mem_of_getLast? last)
  have isIf : ofInner? ("if ".toList ++ key.toList) = some (.ifHolds key) := by
    simp [ofInner?, Text.sameLetters, Text.isBlank, trimmedKey]
  rw [read?_closed unclosed, trimmedInner, isIf]
  rfl

theorem exists_pieces_reference (valid : isFlagName key = true) (closed : ']' ∉ key.toList) :
    ∃ source, pieces (reference key).toList =
      [.directive (.ifHolds key) source, .plain 'x', .directive .endIf "[endif]".toList] := by
  have whole : (reference key).toList =
      '[' :: ("if ".toList ++ key.toList ++ ']' :: "x[endif]".toList) := by
    simp [reference]
  have behind : pieces "x[endif]".toList = [.plain 'x', .directive .endIf "[endif]".toList] := by
    decide +kernel
  refine ⟨Directive.source ("if ".toList ++ key.toList ++ ']' :: "x[endif]".toList), ?_⟩
  rw [whole, pieces_directive (Directive.read?_ifName valid closed _), behind]

theorem render_reference_of_isFlagName (valid : isFlagName key = true)
    (closed : ']' ∉ key.toList) (flags : FlagSet) :
    (render flags (reference key)).value = (if flags key then "x" else "") ∧
      lookups (render flags (reference key)).events = [(key, flags key)] := by
  obtain ⟨source, read⟩ := exists_pieces_reference valid closed
  have parsed := parse_of_isFlagName valid
  constructor
  · have value : (Condition.evaluate flags key).value = flags key :=
      Condition.value_evaluate_of_parse parsed flags
    have empty : collapseBlankLines "" = "" := by decide +kernel
    have letter : collapseBlankLines "x" = "x" := by decide +kernel
    rw [← String.ofList_toList (s := reference key), value_render, read, Renderer.run_cons,
      Renderer.step_directive, Renderer.run_cons, Renderer.step_plain, Renderer.run_cons,
      Renderer.step_directive, Renderer.run_nil, Directive.blocksAfter, value]
    cases flags key
    · exact empty
    · exact letter
  · have only : decided [.directive (.ifHolds key) source, .plain 'x',
        .directive .endIf "[endif]".toList] = [key] := rfl
    rw [lookups_render, read, only, List.flatMap_singleton,
      Condition.lookups_evaluate_of_parse parsed]
    rfl

/-- Nothing that a template has looked up has a closing bracket in its name. -/
theorem closing_not_mem_of_asked {flags : FlagSet} {template name : String}
    (asked : name ∈ (lookups (render flags template).events).map Prod.fst) : ']' ∉ name.toList := by
  obtain ⟨query, looked, rfl⟩ := List.mem_map.1 asked
  rw [lookups_render] at looked
  obtain ⟨condition, reached, here⟩ := List.mem_flatMap.1 looked
  have inside := (decided_sublist_conditions template.toList).mem reached
  have absent := closing_not_mem_of_mem_conditions inside
  rcases Condition.named_of_evaluate here with ⟨c, parsed, member⟩ | ⟨whole, _⟩
  · exact fun closing => absent
      (Condition.mem_of_mem_flags parsed ((Condition.mem_identifiers_iff _ _).1 member) closing)
  · rwa [whole, trimmed_of_mem_conditions inside]

/-- A declared flag is referenced by its name, and nothing else is looked up for that, unless there
is a closing bracket in the name; then no template has it looked up at all. -/
theorem render_reference {q accepted : Questionnaire} (checked : q.check = .ok accepted)
    (declared : q.declares key = true) :
    (']' ∉ key.toList → ∀ flags : FlagSet,
      (render flags (reference key)).value = (if flags key then "x" else "") ∧
        lookups (render flags (reference key)).events = [(key, flags key)]) ∧
    (']' ∈ key.toList → ∀ (flags : FlagSet) (template : String),
      key ∉ (lookups (render flags template).events).map Prod.fst) := by
  have valid := isFlagName_of_check checked declared
  exact ⟨fun closed flags => render_reference_of_isFlagName valid closed flags,
    fun closing flags template asked => closing_not_mem_of_asked asked closing⟩

def bracketed : Questionnaire where
  name := .standard
  placeholders := standardPlaceholders
  flags := .ofList [("größe", .standard), ("a]b", .standard)]

theorem render_reference_bracketed :
    (render FlagSet.all (reference "größe")).value = "x" ∧
      "a]b" ∉ (lookups (render FlagSet.all (reference "a]b")).events).map Prod.fst := by
  have checked : bracketed.check = .ok bracketed := by rfl
  have inside : bracketed.declares "größe" = true := by decide
  have outside : bracketed.declares "a]b" = true := by decide
  exact ⟨((render_reference checked inside).1 (by decide) FlagSet.all).1,
    (render_reference checked outside).2 (by decide) FlagSet.all (reference "a]b")⟩

/-- The flag is on, but the directive in front of the text asks for another one. -/
theorem render_reference_cut :
    let flags : FlagSet := fun name => name == "a]b"
    bracketed.check = .ok bracketed ∧ bracketed.declares "a]b" = true ∧ flags "a]b" = true ∧
      (render flags (reference "a]b")).value = "" ∧
      lookups (render flags (reference "a]b")).events = [("a", false)] := by
  have cut : pieces (reference "a]b").toList =
      [.directive (.ifHolds "a") "[if a]".toList, .plain 'b', .plain ']', .plain 'x',
        .directive .endIf "[endif]".toList] := by decide +kernel
  refine ⟨rfl, by decide, by decide, ?_, ?_⟩
  · rw [← String.ofList_toList (s := reference "a]b"), value_render, cut]
    decide +kernel
  · rw [lookups_render, cut]
    decide +kernel

end Scaffold.Template
