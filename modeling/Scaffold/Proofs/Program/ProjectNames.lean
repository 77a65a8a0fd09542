import Scaffold.Proofs.Answers.NameShape
import Scaffold.Proofs.Answers.RoundTrip
import Scaffold.Proofs.File.Components
import Scaffold.Proofs.Program.Preparation

/-! Project names as paths. A name that an interview ends with is a single name as a path too, so a
project that is generated under its own name is a directory in the current one. -/

namespace Scaffold

namespace ProjectName

variable {name : String}

theorem slash_not_mem_of_hasShape (shape : HasShape name) : '/' ∉ name.toList := by
  obtain ⟨first, rest, split, begins, later⟩ := shape
  have noLetter : ¬ IsLetterOrDigit '/' := by
    rw [← isAlphanum_iff]
    decide
  rw [split, List.mem_cons, not_or]
  refine ⟨fun same => noLetter (same ▸ begins), fun inside => ?_⟩
  rcases later '/' inside with letter | mark
  · exact noLetter letter
  · exact absurd mark (by decide)

theorem ne_dots_of_hasShape (shape : HasShape name) : name ≠ "." ∧ name ≠ ".." := by
  obtain ⟨first, rest, split, begins, _⟩ := shape
  have noLetter : ¬ IsLetterOrDigit '.' := by
    rw [← isAlphanum_iff]
    decide
  constructor
  · rintro rfl
    cases split
    exact noLetter begins
  · rintro rfl
    cases split
    exact noLetter begins

theorem components_of_hasShape (shape : HasShape name) :
    (Path.ofString name).components = [.name (Bytes.ofString name)] ∧
      (Path.ofString name).isAbsolute = false := by
  have split := pieces_ofString (isValid_iff.2 shape)
  have nonempty : Path.ofString name ≠ [] := by
    apply Path.ofString_ne_nil
    rintro rfl
    exact nomatch isValid_iff.2 shape
  have apart : ∀ other : String, name ≠ other → Path.ofString name ≠ Bytes.ofString other := by
    intro other different same
    rw [Path.ofString, ← String.ofList_toList (s := name), ← String.ofList_toList (s := other),
      Bytes.ofString_ofList, Bytes.ofString_ofList] at same
    exact different (String.toList_inj.1 (Text.encoded_inj same))
  obtain ⟨noCurrent, noParent⟩ := ne_dots_of_hasShape shape
  have noDot : Path.ofString name ≠ [Path.dot] := apart "." noCurrent
  have noDots : Path.ofString name ≠ [Path.dot, Path.dot] := apart ".." noParent
  constructor
  · rw [Path.components_eq split, Path.firstOf, if_neg nonempty, if_neg noDot, Path.componentOf,
      if_neg noDots]
    rfl
  · rw [Bool.eq_false_iff, ne_eq, Path.isAbsolute_iff _ split]
    exact fun absolute => nonempty absolute.1

end ProjectName

open ProjectName Program

/-- Project names are safe as paths, whatever their source. An interview that ends well does so with
a name of the right shape, which is read as itself, and which as the default output path is a single
name. It is the text that is fixed for the name, or else a reply, without the blanks around it. A
text that is fixed and has not got that shape ends the interview before the first question, and to a
reply without it the answer is the same question again. -/
theorem Interview.run_name (i : Interview) (replies : List Reply) :
    (∀ answers, (i.run replies).value.result = .ok answers →
      HasShape answers.name ∧ ProjectName.read answers.name = .ok answers.name ∧
      (∀ a : Arguments, a.output = none →
        (outputPath a answers).components = [.name (Bytes.ofString answers.name)] ∧
          (outputPath a answers).isAbsolute = false ∧ '/' ∉ answers.name.toList ∧
          answers.name ≠ "." ∧ answers.name ≠ "..") ∧
      ((∃ text, i.NameInEffect text ∧ answers.name = trimmed text) ∨
        (i.asksName = true ∧ ∃ offered text,
          (.text i.questionnaire.name.help offered, some (.text text)) ∈
            exchanges (prompts (i.run replies).events) replies ∧ answers.name = trimmed text))) ∧
    (∀ text, i.NameInEffect text → ¬ HasShape (trimmed text) →
      ∃ e, (i.run replies).value.result = .error e ∧ e.kind = .validation ∧
        prompts (i.run replies).events = [] ∧ (i.run replies).value.left = replies) ∧
    AsksAgain (exchanges (prompts (i.run replies).events) replies) := by
  refine ⟨fun answers ended => ?_, fun text => run_of_nameless, asksAgain_run i replies⟩
  have shape : HasShape answers.name := isValid_iff.1 (isValid_of_run ended)
  obtain ⟨text, reads⟩ := exists_reads_of_run ended
  refine ⟨shape, ProjectName.read_of_read reads, fun a default => ?_, exists_source_of_run ended⟩
  have path : outputPath a answers = Path.ofString answers.name := by
    rw [outputPath, default]
    rfl
  obtain ⟨components, relative⟩ := components_of_hasShape shape
  rw [path]
  exact ⟨components, relative, slash_not_mem_of_hasShape shape, ne_dots_of_hasShape shape⟩

/-- A reply with a slash is refused; two dots that are fixed for the name end the interview. -/
theorem Interview.run_name_refused :
    let i : Interview :=
      { questionnaire := ⟨.standard, [], .empty⟩
        given := ⟨⟨none, [], []⟩, .null⟩
        interactive := true
        spent := .noReplyLeft }
    let fixed : Interview := { i with given := ⟨⟨some " .. ", [], []⟩, .null⟩ }
    let replies : List Reply := [.text "a/b", .text " svc.1\n", .bool true]
    (∃ answers, (i.run replies).value.result = .ok answers ∧ answers.name = "svc.1" ∧
      HasShape answers.name) ∧
    (∃ question offered reply later, exchanges (prompts (i.run replies).events) replies =
      (.text question offered, some (.text "a/b")) :: (.text question offered, reply) :: later) ∧
    ∃ e, (fixed.run replies).value.result = .error e ∧ e.kind = .validation ∧
      prompts (fixed.run replies).events = [] := by
  intro i fixed replies
  obtain ⟨named, _, again⟩ := run_name i replies
  refine ⟨?_, ?_, ?_⟩
  · have name : (i.run replies).value.result.toOption.map Answers.name = some "svc.1" := by
      decide +kernel
    cases ended : (i.run replies).value.result with
    | error e =>
      rw [ended] at name
      exact nomatch name
    | ok answers =>
      rw [ended] at name
      exact ⟨answers, rfl, Option.some.inj name, (named answers ended).1⟩
  · have shapeless : ¬ HasShape (trimmed "a/b") := fun shape =>
      absurd (isValid_iff.2 shape) (by decide +kernel)
    have first : (exchanges (prompts (i.run replies).events) replies).head? =
        some (.text i.questionnaire.name.help "", some (.text "a/b")) := by decide +kernel
    obtain ⟨behind, said⟩ := List.head?_eq_some_iff.1 first
    obtain ⟨reply, later, rfl⟩ := again [] _ _ _ behind said shapeless
    exact ⟨_, _, reply, later, said⟩
  · obtain ⟨_, fails, _⟩ := run_name fixed replies
    have shapeless : ¬ HasShape (trimmed " .. ") := fun shape =>
      absurd (isValid_iff.2 shape) (by decide +kernel)
    obtain ⟨e, failed, kind, unasked, _⟩ := fails " .. " (.override rfl) shapeless
    exact ⟨e, failed, kind, unasked⟩

end Scaffold
