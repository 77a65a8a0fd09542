import Mathlib.Tactic.Common
import Scaffold.Proofs.Answers.Rounds
import Scaffold.Proofs.Text

/-! Answers as a JSON object and back. The name and the flags share the names of the members, so a
flag under the key of the name takes its place; all other answers come back as they were, without
a question. -/

namespace Scaffold

theorem Json.lookup_insertMember (members : List (String × Json)) (name : String) (value : Json)
    (other : String) : (insertMember name value members).lookup other =
      if other = name then some value else members.lookup other := by
  fun_induction insertMember name value members with
  | case1 | case2 => exact Table.lookup_cons name value _ other
  | case3 member rest _ taken =>
    rw [Table.lookup_cons, Table.lookup_cons, ← taken]
    split_ifs <;> rfl
  | case4 member rest _ different ih =>
    rw [Table.lookup_cons, Table.lookup_cons, ih]
    split_ifs with taken same
    · exact absurd (same.symm.trans taken) different
    all_goals rfl

theorem ProjectName.read_of_read {text name : String} (reads : ProjectName.read text = .ok name) :
    ProjectName.read name = .ok name := by
  unfold ProjectName.read at reads ⊢
  dsimp only at reads ⊢
  split_ifs at reads with empty valid
  cases reads
  rw [show trimmed (trimmed text) = trimmed text from trimmed_ofList_trim _, if_neg empty,
    if_pos valid]

namespace Answers

theorem member?_toJson (a : Answers) (key : String) : a.toJson.member? key =
    ((a.flags.get? key).map Json.bool).or
      (if key = nameKey then some (.string a.name) else none) := by
  have distinct : ((a.flags.entries.map fun entry => (entry.1, Json.bool entry.2)).map
      Prod.fst).Nodup := by
    rw [List.map_map]
    exact a.flags.distinct
  have found := Table.get_foldl_insert (fun members key => List.lookup key members)
    Json.lookup_insertMember (Json.insertMember nameKey (.string a.name) []) distinct key
  rw [Table.lookup_map_snd, Json.lookup_insertMember, List.lookup_nil] at found
  exact found

end Answers

namespace Interview

variable {i : Interview} {offers : Offers} {said : List Exchange} {replies : List Reply}
  {answers : Answers}

theorem LastRound.exists_reads (ends : LastRound i offers (.ok answers) said) :
    ∃ text, ProjectName.read text = .ok answers.name := by
  cases ends with
  | silent turn | accepted turn => exact ⟨turn.reply, turn.reads⟩

theorem exists_reads_of_run (ended : (i.run replies).value.result = .ok answers) :
    ∃ text, ProjectName.read text = .ok answers.name := by
  obtain ⟨said, _, session, _⟩ := exists_session_of_ok ended
  obtain ⟨_, _, _, _, _, ends⟩ := Session.exists_rounds (holds_offersOf i.questionnaire rfl) session
  exact ends.exists_reads

/-- An interview without a question has one round, in which no reply is taken. -/
theorem lastRound_of_silent (replies : List Reply) (apart : i.given.overrides.conflict? = none)
    (silent : i.asksAnything = false) :
    prompts (i.run replies).events = [] ∧ (i.run replies).value.left = replies ∧
      LastRound i (offersOf i.questionnaire) (i.run replies).value.result [] := by
  obtain ⟨said, session, took⟩ := exists_session_run i replies apart
  obtain ⟨rounds, last, offers, split, declined, ends⟩ :=
    Session.exists_rounds (holds_offersOf i.questionnaire rfl) session
  obtain ⟨rfl, rfl⟩ := declined.of_silent silent
  obtain rfl := (ends.cases_of_silent silent).1
  have unasked : prompts (i.run replies).events = [] := by
    have said_eq := took.said_eq
    rw [split] at said_eq
    cases asked : prompts (i.run replies).events with
    | nil => rfl
    | cons prompt later =>
      rw [asked] at said_eq
      exact nomatch said_eq
  have left := took.left_eq
  rw [unasked] at left
  exact ⟨unasked, left, ends⟩

theorem nameKey_mem_keys_iff (ended : (i.run replies).value.result = .ok answers) :
    Answers.nameKey ∈ answers.flags.keys ↔ i.questionnaire.declares Answers.nameKey = true ∨
      Answers.nameKey ∈ i.given.overrides.keys := by
  obtain ⟨said, apart, session, _⟩ := exists_session_of_ok ended
  obtain ⟨_, _, _, _, _, round, _⟩ := session.exists_round
  rw [round.keys_eq, List.mem_append]
  constructor
  · rintro (declares | given)
    · exact .inl (List.contains_iff_mem.2 declares)
    · obtain ⟨among, _⟩ := List.mem_filter.1 (List.mem_filter.1 given).1
      rcases List.mem_append.1 (List.mem_eraseDups.1 among) with mentioned | preloaded
      · exact .inr mentioned
      · exact absurd rfl (Preloaded.mem_flagKeys_iff.1 preloaded).1
  · rintro (declares | mentioned)
    · exact .inl (List.contains_iff_mem.1 declares)
    · rw [← List.mem_append, ← round.keys_eq]
      rcases List.mem_append.1 mentioned with enabled | disabled
      · exact Table.mem_keys_iff.2 ⟨_, round.get?_of_enabled enabled⟩
      · have notEnabled := fun enabled =>
          Overrides.conflict?_eq_none_iff.1 apart _ enabled disabled
        exact Table.mem_keys_iff.2 ⟨_, round.get?_of_disabled notEnabled disabled⟩

def again (i : Interview) (answers : Answers) (interactive : Bool) : Interview where
  questionnaire := i.questionnaire
  given := ⟨⟨none, [], []⟩, answers.toJson⟩
  interactive := interactive
  spent := i.spent

section Again

variable {interactive : Bool} {key : String}

theorem answer?_again (different : key ≠ Answers.nameKey) :
    (i.again answers interactive).given.answer? key = answers.flags.get? key := by
  show Preloaded.answer? answers.toJson key = _
  rw [Preloaded.answer?, answers.member?_toJson, if_neg different]
  cases answers.flags.get? key <;> rfl

theorem name?_again (apart : Answers.nameKey ∉ answers.flags.keys) :
    (i.again answers interactive).given.name? = some answers.name := by
  have absent : answers.flags.get? Answers.nameKey = none :=
    Table.lookup_eq_none_of_not_mem apart
  show Preloaded.name? answers.toJson = _
  rw [Preloaded.name?, answers.member?_toJson, absent, if_pos rfl]
  rfl

variable (apart : Answers.nameKey ∉ answers.flags.keys)
  (declared : ∀ key ∈ i.questionnaire.flags.keys, key ∈ answers.flags.keys)

include apart declared

theorem asksAnything_again : (i.again answers interactive).asksAnything = false := by
  have unnamed : (i.again answers interactive).asksName = false := by
    simp [asksName, name?_again apart]
  have given : (i.again answers interactive).openFlags = [] := by
    refine List.filter_eq_nil_iff.2 fun entry among => ?_
    have inside := declared entry.1 (List.mem_map_of_mem among)
    obtain ⟨value, found⟩ := Table.mem_keys_iff.1 inside
    rw [answer?_again fun same => apart (same ▸ inside), found]
    simp
  have unasked : (i.again answers interactive).askedFlags = [] := by
    unfold askedFlags
    split_ifs
    · exact given
    · rfl
  rw [asksAnything, unnamed, unasked]
  rfl

theorem get?_again {same : Answers} {asked : Bool} {offered : String} {table : Table Bool}
    (round : Round (i.again answers interactive) offered table (.ok ⟨same, asked⟩) said) :
    same.flags.get? key = answers.flags.get? key := by
  cases found : answers.flags.get? key with
  | some value =>
    have inside : key ∈ answers.flags.keys := Table.mem_keys_iff.2 ⟨value, found⟩
    have different : key ≠ Answers.nameKey := fun same => apart (same ▸ inside)
    have known : (i.again answers interactive).given.answer? key = some value := by
      rw [answer?_again different, found]
    refine round.get?_of_given ?_ known
    rw [round.keys_eq, List.mem_append]
    by_cases declares : key ∈ i.questionnaire.flags.keys
    · exact .inl declares
    · have member : (answers.toJson.member? key).isSome = true := by
        rw [answers.member?_toJson, found]
        rfl
      have mentioned : key ∈ Preloaded.flagKeys answers.toJson :=
        Preloaded.mem_flagKeys_iff.2 ⟨different, member⟩
      have undeclared : (!i.questionnaire.declares key) = true := by
        rw [Bool.not_eq_true']
        exact Bool.eq_false_iff.2 fun declares' => declares (List.contains_iff_mem.1 declares')
      right
      refine List.mem_filter.2 ⟨List.mem_filter.2 ⟨?_, undeclared⟩, by rw [known]; rfl⟩
      exact List.mem_eraseDups.2 (List.mem_append_right _ mentioned)
  | none =>
    refine Table.lookup_eq_none_of_not_mem fun member => ?_
    have inside : key ∈ answers.flags.keys := by
      rw [show same.flags.entries.map Prod.fst = same.flags.keys from rfl, round.keys_eq] at member
      rcases List.mem_append.1 member with declares | given
      · exact declared key declares
      · obtain ⟨among, answered⟩ := List.mem_filter.1 given
        have mentioned := List.mem_eraseDups.1 (List.mem_filter.1 among).1
        have different := (Preloaded.mem_flagKeys_iff.1 mentioned).1
        rw [answer?_again different] at answered
        exact Table.mem_keys_iff.2 (Option.isSome_iff_exists.1 answered)
    obtain ⟨value, known⟩ := Table.mem_keys_iff.1 inside
    exact nomatch found.symm.trans known

/-- The second time there is no question, whatever the replies. -/
theorem run_again {name : String} (reads : ProjectName.read answers.name = .ok name)
    (replies : List Reply) :
    let second := (i.again answers interactive).run replies
    prompts second.events = [] ∧ second.value.left = replies ∧
      ∃ same : Answers, second.value.result = .ok same ∧ same.name = name ∧
        ∀ key, same.flags.get? key = answers.flags.get? key := by
  intro second
  obtain ⟨unasked, left, ends⟩ :=
    lastRound_of_silent replies rfl (@asksAnything_again i answers interactive apart declared)
  have given : (i.again answers interactive).given.name? = some answers.name := name?_again apart
  have accepts : ProjectName.read ((i.again answers interactive).given.name?.getD
      (offersOf i.questionnaire).name) = .ok name := by
    rw [given]
    exact reads
  obtain ⟨-, ⟨e, refuses, -⟩ | ⟨turn, fits, result⟩⟩ := ends.cases_of_silent
    (@asksAnything_again i answers interactive apart declared)
  · exact nomatch refuses.symm.trans accepts
  have unnamed : (i.again answers interactive).asksName = false := by
    simp [asksName, given]
  have named : turn.name = name := by
    have reply := fits.name unnamed
    rw [given, Option.getD_some] at reply
    have read := turn.reads
    rw [reply, reads] at read
    exact (Except.ok.inj read).symm
  obtain ⟨_, _, session, _⟩ := exists_session_of_ok result
  obtain ⟨_, _, _, _, _, round, _⟩ := session.exists_round
  exact ⟨unasked, left, _, result, named, fun _ => get?_again apart declared round⟩

end Again

/-- The name and the flags of an interview as members of an object, and what the same interview
comes to when nothing but this object is given: nothing is asked and the answers are the same. A
flag under the key of the name is the one exception, which takes the place of the name; it is there
only if it was declared, enabled or disabled. -/
theorem run_toJson {i : Interview} {replies : List Reply} {answers : Answers}
    (ended : (i.run replies).value.result = .ok answers) :
    (∀ key value, answers.flags.get? key = some value →
      answers.toJson.member? key = some (.bool value)) ∧
    (Answers.nameKey ∈ answers.flags.keys ↔ i.questionnaire.declares Answers.nameKey = true ∨
      Answers.nameKey ∈ i.given.overrides.keys) ∧
    (Answers.nameKey ∉ answers.flags.keys →
      answers.toJson.member? Answers.nameKey = some (.string answers.name) ∧
      ∀ (interactive : Bool) (replies : List Reply),
        let second := (i.again answers interactive).run replies
        prompts second.events = [] ∧ second.value.left = replies ∧
        ∃ same : Answers, second.value.result = .ok same ∧ same.name = answers.name ∧
          ∀ key, same.flags.get? key = answers.flags.get? key) := by
  refine ⟨fun key value found => ?_, nameKey_mem_keys_iff ended, fun apart => ⟨?_, ?_⟩⟩
  · rw [answers.member?_toJson, found]
    rfl
  · have absent : answers.flags.get? Answers.nameKey = none :=
      Table.lookup_eq_none_of_not_mem apart
    rw [answers.member?_toJson, absent, if_pos rfl]
    rfl
  · intro interactive replies
    obtain ⟨_, _, session, _⟩ := exists_session_of_ok ended
    obtain ⟨_, _, _, _, _, first, _⟩ := session.exists_round
    have declared : ∀ key ∈ i.questionnaire.flags.keys, key ∈ answers.flags.keys := by
      intro key member
      rw [first.keys_eq]
      exact List.mem_append_left _ member
    obtain ⟨text, reads⟩ := exists_reads_of_run ended
    exact run_again apart declared (ProjectName.read_of_read reads) replies

/-- The first round is declined, and a flag that is not declared comes with the answers. -/
theorem run_toJson_declined :
    let i : Interview :=
      { questionnaire := ⟨.standard, [], .ofList [("rest", ⟨"", true⟩), ("grpc", ⟨"", false⟩)]⟩
        given := ⟨⟨some " demo ", ["extra"], ["rest"]⟩, .ofMembers [("name", .bool true)]⟩
        interactive := true
        spent := .noReplyLeft }
    let replies : List Reply := [.bool false, .bool false, .bool true, .bool true]
    ∃ answers : Answers, (i.run replies).value.result = .ok answers ∧
      Answers.nameKey ∉ answers.flags.keys ∧
      answers.toJson.member? Answers.nameKey = some (.string "demo") ∧
      prompts ((i.again answers true).run []).events = [] ∧
      ∃ same : Answers, ((i.again answers true).run []).value.result = .ok same ∧
        same.name = "demo" ∧ ∀ key, same.flags.get? key =
          [("rest", false), ("grpc", true), ("extra", true), ("name", true)].lookup key := by
  intro i replies
  have told : (i.run replies).value.result.toOption.map
      (fun answers => (answers.name, answers.flags.entries)) =
        some ("demo", [("rest", false), ("grpc", true), ("extra", true), ("name", true)]) := by
    decide +kernel
  cases ended : (i.run replies).value.result with
  | error e =>
    rw [ended] at told
    exact nomatch told
  | ok answers =>
    rw [ended] at told
    obtain ⟨name, entries⟩ := Prod.ext_iff.1 (Option.some.inj told)
    dsimp only at name entries
    have apart : Answers.nameKey ∉ answers.flags.keys := by
      rw [Table.keys, entries]
      decide
    obtain ⟨_, _, back⟩ := run_toJson ended
    obtain ⟨member, again⟩ := back apart
    obtain ⟨unasked, _, same, result, named, flags⟩ := again true []
    refine ⟨answers, rfl, apart, name ▸ member, unasked, same, result, name ▸ named, fun key => ?_⟩
    rw [flags, Table.get?, entries]

/-- A declared flag can have the key of the name. Then the object holds no name, and for want of
one the second interview fails. -/
theorem run_toJson_name_taken :
    let i : Interview :=
      { questionnaire := ⟨.standard, Questionnaire.standardPlaceholders,
          .ofList [("project_name", ⟨"", true⟩)]⟩
        given := ⟨⟨some "demo", [], []⟩, .null⟩
        interactive := false
        spent := .noReplyLeft }
    i.questionnaire.check = .ok i.questionnaire ∧
      ∃ answers : Answers, (i.run []).value.result = .ok answers ∧ answers.name = "demo" ∧
        answers.toJson.member? Answers.nameKey = some (.bool true) ∧
        ((i.again answers false).run []).value.result = .error .nameMissing := by
  intro i
  have told : (i.run []).value.result.toOption.map
      (fun answers => (answers.name, answers.flags.entries)) =
        some ("demo", [("project_name", true)]) := by
    decide +kernel
  let answers : Answers := ⟨"demo", ⟨[("project_name", true)], by decide⟩⟩
  have member : answers.toJson.member? Answers.nameKey = some (.bool true) := by
    rw [answers.member?_toJson]
    rfl
  have fails : (((i.again answers false).run []).value.result.map fun _ => ()) =
      .error .nameMissing := by
    decide +kernel
  refine ⟨rfl, answers, ?_, rfl, member, map_eq_error_iff.1 fails⟩
  cases ended : (i.run []).value.result with
  | error e =>
    rw [ended] at told
    exact nomatch told
  | ok found =>
    obtain ⟨name, ⟨entries, distinct⟩⟩ := found
    rw [ended] at told
    obtain ⟨rfl, rfl⟩ := Prod.ext_iff.1 (Option.some.inj told)
    rfl

end Interview

end Scaffold
