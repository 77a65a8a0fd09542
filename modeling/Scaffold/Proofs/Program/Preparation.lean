import Scaffold.Program
import Scaffold.Proofs.Answers.Names
import Scaffold.Proofs.File.Pieces

/-! What is settled when a run begins to write: the output path is one that was given and is not
empty, or else a valid project name; and unless the run may write over it, nothing is there. -/

namespace Scaffold

namespace CommandLine.State

def Checked (s : State) : Prop := ∀ entry ∈ s.values, isPath entry.1 = true → entry.2 ≠ ""

variable {s after : State}

theorem Checked.store {slot : Slot} {value : String} (checked : s.Checked)
    (stores : s.store slot value = .ok after) : after.Checked := by
  unfold State.store at stores
  split_ifs at stores with repeated bad
  cases stores
  intro entry member path
  rcases List.mem_append.1 member with member | member
  · exact checked entry member path
  · obtain rfl := List.mem_singleton.1 member
    simpa [path] using bad

theorem Checked.settle (checked : s.Checked) (settles : s.settle = .ok after) :
    after.Checked := by
  unfold State.settle at settles
  split at settles
  · cases settles
    exact checked
  · exact nomatch settles
  · exact Checked.store (s := { s with pending := none }) checked settles

theorem Checked.turnOn {switch : Switch} (checked : s.Checked)
    (turns : s.turnOn switch = .ok after) : after.Checked := by
  obtain ⟨settled, settles, turns⟩ := bind_eq_ok_iff.1 turns
  have kept := checked.settle settles
  split at turns
  · exact nomatch turns
  · exact nomatch turns
  · split_ifs at turns
    cases turns
    exact kept

theorem Checked.await {slot : Slot} {value : Option String} (checked : s.Checked)
    (awaits : s.await slot value = .ok after) : after.Checked := by
  obtain ⟨settled, settles, awaits⟩ := bind_eq_ok_iff.1 awaits
  have kept := checked.settle settles
  cases awaits
  exact kept

theorem Checked.assign {slot : Slot} {value : String} (checked : s.Checked)
    (assigns : s.assign slot value = .ok after) : after.Checked := by
  obtain ⟨settled, settles, stores⟩ := bind_eq_ok_iff.1 assigns
  exact (checked.settle settles).store stores

theorem Checked.long {word : Text} (checked : s.Checked) (reads : s.long word = .ok after) :
    after.Checked := by
  unfold State.long at reads
  dsimp only at reads
  split at reads
  · exact nomatch reads
  · exact checked.await reads
  · exact checked.assign reads
  · exact checked.turnOn reads
  · exact nomatch reads

theorem Checked.short {word : Text} (checked : s.Checked) (reads : s.short word = .ok after) :
    after.Checked := by
  induction word generalizing s with
  | nil =>
    cases reads
    exact checked
  | cons letter rest ih =>
    rw [State.short] at reads
    split at reads
    · exact nomatch reads
    · split at reads
      · exact nomatch reads
      next turned turns => exact ih (checked.turnOn turns) reads
    · split at reads
      · exact checked.await reads
      · exact checked.assign reads
      · exact checked.assign reads

theorem Checked.plain {word : String} (checked : s.Checked) (reads : s.plain word = .ok after) :
    after.Checked := by
  unfold State.plain at reads
  split at reads
  · cases reads
    exact checked
  · split_ifs at reads
    exact checked.await reads

theorem Checked.read {word : String} (checked : s.Checked) (reads : s.read word = .ok after) :
    after.Checked := by
  unfold State.read at reads
  split_ifs at reads
  · exact checked.plain reads
  · split at reads
    · cases reads
      exact checked
    · exact checked.long reads
    · exact checked.plain reads
    · exact checked.short reads
    · exact checked.plain reads

theorem Checked.foldlM {words : List String} (checked : s.Checked)
    (reads : words.foldlM State.read s = .ok after) : after.Checked := by
  induction words generalizing s with
  | nil =>
    cases reads
    exact checked
  | cons word words ih =>
    rw [List.foldlM_cons] at reads
    obtain ⟨next, first, rest⟩ := bind_eq_ok_iff.1 reads
    exact ih (checked.read first) rest

end CommandLine.State

theorem CommandLine.output_ne_empty {words : List String} {a : Arguments}
    (parsed : CommandLine.parse words = .ok a) : a.output ≠ some "" := by
  obtain ⟨s, reads, finishes⟩ := bind_eq_ok_iff.1 parsed
  have start : State.start.Checked := fun _ member => absurd member List.not_mem_nil
  obtain ⟨settled, settles, finishes⟩ := bind_eq_ok_iff.1 finishes
  have checked := (start.foldlM reads).settle settles
  split at finishes
  · exact nomatch finishes
  · cases finishes
    intro empty
    obtain ⟨front, back, split, _⟩ := List.lookup_eq_some_iff.1 empty
    exact checked (.output, "") (split ▸ List.mem_append_right front List.mem_cons_self) rfl rfl

theorem Questionnaire.load_of_absent {t : FileTree} {template : Path}
    (absent : (fileNames.any fun name => t.isFile (template.join (Path.ofString name))) = false) :
    (load t template).value = .ok standard := by
  have noText : ∀ tried names,
      (names.any fun name => t.isFile (template.join (Path.ofString name))) = false →
      (firstText t template tried names).value = .ok none := by
    intro tried names
    induction names with
    | nil => exact fun _ => rfl
    | cons name rest ih =>
      intro absent
      rw [List.any_cons, Bool.or_eq_false_iff] at absent
      rw [firstText, absent.1, if_neg Bool.false_ne_true]
      exact ih absent.2
  rw [load, Recorded.value_bind, noText fileNames fileNames absent]
  rfl

theorem IgnoreList.ofTemplate_of_unreadable {t : FileTree} {template : Path} {fault : FileFault}
    (unreadable : t.readText (template.join fileName) = .error fault) :
    (ofTemplate t template).value = ofLines standardLines := by
  rw [ofTemplate, load, unreadable]
  rfl

theorem ProjectName.pieces_ofString {name : String} (valid : isValid name.toList = true) :
    (Path.ofString name).pieces = [Path.ofString name] := by
  have chars : ∀ c ∈ name.toList, c ≠ '/' := by
    rintro c member rfl
    cases split : name.toList with
    | nil =>
      rw [split] at member
      exact nomatch member
    | cons first rest =>
      rw [split] at valid member
      simp only [isValid, Bool.and_eq_true, List.all_eq_true] at valid
      rcases List.mem_cons.1 member with rfl | member
      · exact absurd valid.1 (by decide)
      · exact absurd (valid.2 _ member) (by decide)
  refine Path.pieces_of_not_mem fun slash => ?_
  rw [Path.ofString, ← String.ofList_toList (s := name), Bytes.ofString_ofList] at slash
  obtain ⟨c, member, byte⟩ := List.mem_flatMap.1 slash
  exact chars c member (eq_slash_of_mem_utf8EncodeChar byte)

theorem Path.ofString_ne_nil {text : String} (nonempty : text ≠ "") : Path.ofString text ≠ [] := by
  intro empty
  rw [Path.ofString, ← String.ofList_toList (s := text), Bytes.ofString_ofList] at empty
  have same : text.toList = [] := Text.encoded_inj (empty : _ = Text.encoded [])
  exact nonempty (String.toList_eq_nil_iff.1 same)

namespace Program

/-- What the steps before writing come to: the error of the first of them that fails, whatever those
behind it would come to, or a job. -/
inductive Settles (a : Arguments) (s : Surroundings) : Except Error Job → Prop where
  | template {e : Error}
      (fails : templateDirectory s.tree (Path.ofString a.template) = .error e) :
      Settles a s (.error e)
  | questions {e : Error} {template : Path}
      (found : templateDirectory s.tree (Path.ofString a.template) = .ok template)
      (fails : (Questionnaire.load s.tree template).value = .error e) : Settles a s (.error e)
  | given {e : Error} {template : Path} {q : Questionnaire}
      (found : templateDirectory s.tree (Path.ofString a.template) = .ok template)
      (loaded : (Questionnaire.load s.tree template).value = .ok q)
      (fails : preloaded a s.input = .error e) : Settles a s (.error e)
  | answers {e : Error} {template : Path} {q : Questionnaire} {given : Json}
      (found : templateDirectory s.tree (Path.ofString a.template) = .ok template)
      (loaded : (Questionnaire.load s.tree template).value = .ok q)
      (reads : preloaded a s.input = .ok given)
      (fails : (answers a s q given).value = .error e) : Settles a s (.error e)
  | output {e : Error} {template : Path} {q : Questionnaire} {given : Json} {answered : Answers}
      (found : templateDirectory s.tree (Path.ofString a.template) = .ok template)
      (loaded : (Questionnaire.load s.tree template).value = .ok q)
      (reads : preloaded a s.input = .ok given)
      (ended : (answers a s q given).value = .ok answered)
      (fails : outputDirectory s.tree (outputPath a answered) a.force = .error e) :
      Settles a s (.error e)
  | ignored {e : Error} {template output : Path} {q : Questionnaire} {given : Json}
      {answered : Answers}
      (found : templateDirectory s.tree (Path.ofString a.template) = .ok template)
      (loaded : (Questionnaire.load s.tree template).value = .ok q)
      (reads : preloaded a s.input = .ok given)
      (ended : (answers a s q given).value = .ok answered)
      (checked : outputDirectory s.tree (outputPath a answered) a.force = .ok output)
      (fails : (IgnoreList.ofTemplate s.tree template).value = .error e) : Settles a s (.error e)
  | ready {template output : Path} {q : Questionnaire} {given : Json} {answered : Answers}
      {ignored : IgnoreList}
      (found : templateDirectory s.tree (Path.ofString a.template) = .ok template)
      (loaded : (Questionnaire.load s.tree template).value = .ok q)
      (reads : preloaded a s.input = .ok given)
      (ended : (answers a s q given).value = .ok answered)
      (checked : outputDirectory s.tree (outputPath a answered) a.force = .ok output)
      (listed : (IgnoreList.ofTemplate s.tree template).value = .ok ignored) :
      Settles a s (.ok ⟨template, output, answered, q.placeholders, ignored⟩)

theorem settles_prepare (a : Arguments) (s : Surroundings) : Settles a s (prepare a s).value := by
  unfold prepare
  split
  next fails => exact .template fails
  next template found =>
    rw [Recorded.value_bind]
    split
    next fails => exact .questions found fails
    next q loaded =>
      split
      next fails => exact .given found loaded fails
      next given reads =>
        rw [Recorded.value_bind]
        split
        next fails => exact .answers found loaded reads fails
        next answered ended =>
          split
          next fails => exact .output found loaded reads ended fails
          next output checked =>
            rw [Recorded.value_bind]
            split
            next fails => exact .ignored found loaded reads ended checked fails
            next ignored listed => exact .ready found loaded reads ended checked listed

theorem Settles.prepare_eq {a : Arguments} {s : Surroundings} {result : Except Error Job}
    (settles : Settles a s result) : (prepare a s).value = result := by
  cases settles with
  | template fails => simp only [prepare, fails, Recorded.value_pure]
  | questions found fails =>
    simp only [prepare, found, fails, Recorded.value_bind, Recorded.value_pure]
  | given found loaded fails =>
    simp only [prepare, found, loaded, fails, Recorded.value_bind, Recorded.value_pure]
  | answers found loaded reads fails =>
    simp only [prepare, found, loaded, reads, fails, Recorded.value_bind, Recorded.value_pure]
  | output found loaded reads ended fails =>
    simp only [prepare, found, loaded, reads, ended, fails, Recorded.value_bind,
      Recorded.value_pure]
  | ignored found loaded reads ended checked fails | ready found loaded reads ended checked fails =>
    simp only [prepare, found, loaded, reads, ended, checked, fails, Recorded.value_bind,
      Recorded.value_pure]

theorem prepare_eq_ok_iff {a : Arguments} {s : Surroundings} {job : Job} :
    (prepare a s).value = .ok job ↔ ∃ template q given answered output ignored,
      templateDirectory s.tree (Path.ofString a.template) = .ok template ∧
      (Questionnaire.load s.tree template).value = .ok q ∧
      preloaded a s.input = .ok given ∧ (answers a s q given).value = .ok answered ∧
      outputDirectory s.tree (outputPath a answered) a.force = .ok output ∧
      (IgnoreList.ofTemplate s.tree template).value = .ok ignored ∧
      job = ⟨template, output, answered, q.placeholders, ignored⟩ := by
  constructor
  · intro ready
    have settles := settles_prepare a s
    rw [ready] at settles
    cases settles with
    | ready found loaded reads ended checked listed =>
      exact ⟨_, _, _, _, _, _, found, loaded, reads, ended, checked, listed, rfl⟩
  · rintro ⟨_, _, _, _, _, _, found, loaded, reads, ended, checked, listed, rfl⟩
    exact (Settles.ready found loaded reads ended checked listed).prepare_eq

/-- What holds of a job that is about to be carried out. -/
theorem job_of_prepare {a : Arguments} {s : Surroundings} {job : Job}
    (ready : (prepare a s).value = .ok job) :
    ∃ answers, ProjectName.isValid answers.name.toList = true ∧
      job.output = outputPath a answers ∧
      (a.force = false → s.tree.contains job.output = false) := by
  obtain ⟨_, _, _, answered, output, _, _, _, _, ended, checked, _, rfl⟩ :=
    prepare_eq_ok_iff.1 ready
  refine ⟨answered, Interview.isValid_of_run ended, ?_⟩
  unfold outputDirectory at checked
  split_ifs at checked with there
  cases checked
  exact ⟨rfl, fun unforced => by simpa [unforced] using there⟩

theorem tree_run_of_prepare {words : List String} {s : Surroundings} {a : Arguments} {job : Job}
    (parsed : CommandLine.parse words = .ok a) (ready : (prepare a s).value = .ok job) :
    (run words s).tree = (job.generate s.tree).value.tree := by
  have executed : (execute a s).value.tree = (job.generate s.tree).value.tree := by
    rw [execute, Recorded.value_bind, ready]
    dsimp only
    rw [Recorded.value_bind, Recorded.value_bind]
    cases (job.generate s.tree).value.failure <;> rfl
  rw [run, parsed]
  dsimp only
  split <;> exact executed

theorem tree_run_of_error {words : List String} {s : Surroundings} {a : Arguments} {e : Error}
    (parsed : CommandLine.parse words = .ok a) (refused : (prepare a s).value = .error e) :
    (run words s).tree = s.tree := by
  have executed : (execute a s).value.tree = s.tree := by
    rw [execute, Recorded.value_bind, refused]
    rfl
  rw [run, parsed]
  dsimp only
  split <;> exact executed

theorem tree_run_of_fault {words : List String} {s : Surroundings} {fault : CommandLine.Fault}
    (refused : CommandLine.parse words = .error fault) : (run words s).tree = s.tree := by
  rw [run, refused]
  cases fault <;> rfl

end Program

end Scaffold
