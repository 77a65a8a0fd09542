import Mathlib.Tactic.Common
import Scaffold.Proofs.Answers.Printing
import Scaffold.Proofs.Program.Preparation

/-! Runs that fail before anything is written. Everything a project depends on is settled one
after the other, and the first of it that is not good ends the run with its error: the files stay
as they are, and all that is shown is the answers that were to be confirmed. -/

namespace Scaffold

open Recorded

variable {may : String → Prop}

theorem Questionnaire.prints_firstText (t : FileTree) (template : Path)
    (tried names : List String) : (firstText t template tried names).Prints may := by
  induction names with
  | nil => exact (prints_note _).bind fun _ => prints_pure _
  | cons name rest ih =>
    rw [firstText]
    split
    · refine (prints_note _).bind fun _ => ?_
      split <;> exact prints_pure _
    · exact ih

theorem Questionnaire.prints_load (t : FileTree) (template : Path) :
    (load t template).Prints may := by
  refine (prints_firstText t template _ _).bind fun found => ?_
  split <;> exact prints_pure _

theorem IgnoreList.prints_ofTemplate (t : FileTree) (template : Path) :
    (ofTemplate t template).Prints may := by
  unfold ofTemplate load
  split
  · exact prints_pure _
  · exact (prints_note _).bind fun _ => prints_pure _

namespace Program

variable {a : Arguments} {s : Surroundings} {e : Error}

theorem prints_answers (q : Questionnaire) (given : Json) :
    (answers a s q given).Prints fun text => ∃ shown : Answers, text = shown.overview :=
  (Interview.prints_run _ _).bind fun _ => prints_pure _

theorem prints_prepare (a : Arguments) (s : Surroundings) :
    (prepare a s).Prints fun text => ∃ shown : Answers, text = shown.overview := by
  unfold prepare
  split
  · exact prints_pure _
  · refine (Questionnaire.prints_load _ _).bind fun q => ?_
    split
    · exact prints_pure _
    · split
      · exact prints_pure _
      · refine (prints_answers _ _).bind fun answered => ?_
        split
        · exact prints_pure _
        · split
          · exact prints_pure _
          · refine (IgnoreList.prints_ofTemplate _ _).bind fun ignored => ?_
            split <;> exact prints_pure _

def heading (name : String) : String := "Generating project " ++ name ++ "...\n"

theorem overview_ne_heading (shown : Answers) (name : String) :
    shown.overview ≠ heading name := by
  have shows : shown.overview.toList.head? = some '\n' := by simp [Answers.overview]
  have announces : (heading name).toList.head? = some 'G' := by
    have split : heading name = "Generating project " ++ (name ++ "...\n") :=
      String.append_assoc ..
    rw [split]
    simp
  intro same
  rw [same, announces] at shows
  exact absurd shows (by decide)

theorem exists_join_outText {events : List Event}
    (prints : ∀ text, .printed text ∈ events → ∃ shown : Answers, text = shown.overview) :
    ∃ shown : List Answers, String.join (events.map outText) =
      String.join (shown.map Answers.overview) := by
  induction events with
  | nil => exact ⟨[], rfl⟩
  | cons event rest ih =>
    obtain ⟨shown, joined⟩ := ih fun text member => prints text (List.mem_cons_of_mem _ member)
    cases event with
    | printed text =>
      obtain ⟨first, rfl⟩ := prints text List.mem_cons_self
      exact ⟨first :: shown, by simp only [List.map_cons, String.join_cons, joined, outText]⟩
    | _ => exact ⟨shown, by simp only [List.map_cons, String.join_cons, joined, outText,
        String.empty_append]⟩

/-- A run that does not get ready does nothing besides. -/
theorem execute_of_error (refused : (prepare a s).value = .error e) :
    (execute a s).value = ⟨s.tree, some e⟩ ∧ (execute a s).events = (prepare a s).events := by
  rw [execute, Recorded.value_bind, Recorded.events_bind, refused]
  exact ⟨rfl, List.append_nil _⟩

theorem heading_mem_of_prepare {job : Job} (ready : (prepare a s).value = .ok job) :
    .printed (heading job.answers.name) ∈ (execute a s).events := by
  rw [execute, Recorded.events_bind, ready]
  exact List.mem_append_right _ (List.mem_append_left _ (List.mem_singleton.2 rfl))

/-- A run whose template, questions, given answers, answers, output directory or ignore list is
not good ends with the error of the first of them, and then it has changed no file and shown
nothing but answers to be confirmed; a run that gets past them all announces its project. -/
theorem run_of_error {words : List String} (parsed : CommandLine.parse words = .ok a)
    (s : Surroundings) :
    (∀ e, Settles a s (.error e) →
      (run words s).tree = s.tree ∧ (run words s).exitCode = 1 ∧
      (execute a s).value.failure = some e ∧
      (run words s).err =
        String.join ((execute a s).events.map (errText (logLevel a))) ++ e.message ++ "\n" ∧
      (∃ shown : List Answers,
        (run words s).out = String.join (shown.map Answers.overview)) ∧
      ∀ name, .printed (heading name) ∉ (execute a s).events) ∧
    ((¬ ∃ e, Settles a s (.error e)) → ∃ name, .printed (heading name) ∈ (execute a s).events) := by
  constructor
  · intro e fails
    have refused := fails.prepare_eq
    obtain ⟨value, events⟩ := execute_of_error refused
    have prints := prints_prepare a s
    refine ⟨tree_run_of_error parsed refused, ?_, by rw [value], ?_, ?_, ?_⟩
    · simp only [run, parsed, value]
    · simp only [run, parsed, value]
    · simp only [run, parsed, value, events]
      exact exists_join_outText prints
    · intro name member
      rw [events] at member
      obtain ⟨shown, same⟩ := prints _ member
      exact overview_ne_heading shown name same.symm
  · intro good
    have settles := settles_prepare a s
    cases ready : (prepare a s).value with
    | error e => exact absurd ⟨e, ready ▸ settles⟩ good
    | ok job => exact ⟨_, heading_mem_of_prepare ready⟩

/-- The first round is not confirmed and the second is cancelled; besides, there is already
something where the project would go, and the ignore list of the template cannot be read. -/
def threeFaults : Surroundings where
  tree := ⟨[([Bytes.ofString "t"], .directory),
    ([Bytes.ofString "t", Bytes.ofString "msgen.json"], .file "\x7b\"flags\": \x7b\x7d\x7d".toUTF8),
    ([Bytes.ofString "t", Bytes.ofString ".msgenignore"], .file "[".toUTF8),
    ([Bytes.ofString "svc"], .directory)], []⟩
  input := .empty
  replies := [.text "svc", .bool false, .cancel]
  spent := .noTerminal

theorem run_threeFaults :
    (run ["-t", "t"] threeFaults).tree = threeFaults.tree ∧
      (run ["-t", "t"] threeFaults).exitCode = 1 ∧
      ∃ shown : List Answers,
        (run ["-t", "t"] threeFaults).out = String.join (shown.map Answers.overview) := by
  have parsed : CommandLine.parse ["-t", "t"] =
      .ok ⟨"t", none, ⟨none, [], []⟩, false, false, false, false⟩ := by decide +kernel
  have loaded : (Questionnaire.load threeFaults.tree (Path.ofString "t")).value =
      .ok ⟨.standard, Questionnaire.standardPlaceholders, .empty⟩ := by decide +kernel
  have found : templateDirectory threeFaults.tree (Path.ofString "t") =
      .ok (Path.ofString "t") := by decide +kernel
  have fails : Settles ⟨"t", none, ⟨none, [], []⟩, false, false, false, false⟩ threeFaults
      (.error .cancelled) := .answers found loaded rfl (by decide +kernel)
  obtain ⟨kept, code, -, -, shown, -⟩ := (run_of_error parsed threeFaults).1 _ fails
  exact ⟨kept, code, shown⟩

end Program

end Scaffold
