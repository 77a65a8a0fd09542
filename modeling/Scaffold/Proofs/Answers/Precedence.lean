import Mathlib.Tactic.Common
import Scaffold.Proofs.Answers.Session
import Scaffold.Proofs.Json.Order
import Scaffold.Proofs.Table

/-! Where the flags of an interview come from. An override wins over a preloaded answer, and what
neither of them settles is asked for, or taken from the questionnaire where nothing may be asked.
The declared flags come first, then those that are only given. -/

namespace Scaffold.Interview

variable {i : Interview} {offered : String} {offers : Table Bool} {said : List Exchange}

theorem eq_of_heard_truth {spent : PromptFault} {reply : Option Reply} {value : Bool}
    (hears : heard spent Reply.truth reply = .ok value) : reply = some (.bool value) := by
  cases reply with
  | none => exact nomatch hears
  | some reply =>
    cases reply with
    | bool told =>
      cases hears
      rfl
    | _ => exact nomatch hears

def openAmong (i : Interview) (questions : List (String × FlagQuestion)) :
    List (String × FlagQuestion) :=
  questions.filter fun entry => (i.given.answer? entry.1).isNone

def openFlags (i : Interview) : List (String × FlagQuestion) :=
  i.openAmong i.questionnaire.flags.entries

def confirmations (offers : Table Bool) (told : String → Bool)
    (questions : List (String × FlagQuestion)) : List Exchange :=
  questions.map fun entry =>
    (.confirm (entry.2.prompt entry.1) ((offers.get? entry.1).getD false),
      some (.bool (told entry.1)))

namespace FlagsSettled

variable {questions : List (String × FlagQuestion)} {flags : Collected (List (String × Bool))}

theorem induction_ok
    {motive : List (String × FlagQuestion) → Collected (List (String × Bool)) →
      List Exchange → Prop}
    (nil : motive [] ⟨[], false⟩ [])
    (given : ∀ key question rest value flags said, i.given.answer? key = some value →
      motive rest flags said →
      motive ((key, question) :: rest) (addFlag key value false flags) said)
    (offered : ∀ key question rest flags said, i.given.answer? key = none →
      i.interactive = false → motive rest flags said →
      motive ((key, question) :: rest)
        (addFlag key ((offers.get? key).getD false) false flags) said)
    (asked : ∀ key (question : FlagQuestion) rest value flags said, i.given.answer? key = none →
      i.interactive = true → motive rest flags said →
      motive ((key, question) :: rest) (addFlag key value true flags)
        ((.confirm (question.prompt key) ((offers.get? key).getD false), some (.bool value)) ::
          said))
    (settled : FlagsSettled i offers questions (.ok flags) said) :
    motive questions flags said := by
  generalize collected : Except.ok flags = result at settled
  induction settled generalizing flags with
  | nil =>
    cases collected
    exact nil
  | given known more ih =>
    obtain ⟨fewer, rfl, rfl⟩ := map_eq_ok_iff.1 collected.symm
    exact given _ _ _ _ _ _ known (ih rfl)
  | offered unknown may more ih =>
    obtain ⟨fewer, rfl, rfl⟩ := map_eq_ok_iff.1 collected.symm
    exact offered _ _ _ _ _ unknown may (ih rfl)
  | failed => exact nomatch collected
  | asked unknown may hears more ih =>
    obtain ⟨fewer, rfl, rfl⟩ := map_eq_ok_iff.1 collected.symm
    rw [eq_of_heard_truth hears]
    exact asked _ _ _ _ _ _ unknown may (ih rfl)

theorem map_fst (settled : FlagsSettled i offers questions (.ok flags) said) :
    flags.value.map Prod.fst = questions.map Prod.fst := by
  apply settled.induction_ok
  case nil => rfl
  case given =>
    intro key question rest value flags said known ih
    exact congrArg (key :: ·) ih
  case offered =>
    intro key question rest flags said unknown may ih
    exact congrArg (key :: ·) ih
  case asked =>
    intro key question rest value flags said unknown may ih
    exact congrArg (key :: ·) ih

theorem exists_value (settled : FlagsSettled i offers questions (.ok flags) said)
    {entry : String × FlagQuestion} (asks : entry ∈ questions) :
    ∃ value, (entry.1, value) ∈ flags.value := by
  have named : entry.1 ∈ flags.value.map Prod.fst := by
    rw [settled.map_fst]
    exact List.mem_map_of_mem asks
  obtain ⟨⟨key, value⟩, member, rfl⟩ := List.mem_map.1 named
  exact ⟨value, member⟩

/-- A flag that is not asked for has the value that is given, or else the one on offer. -/
theorem eq_getD (settled : FlagsSettled i offers questions (.ok flags) said) :
    ∀ entry ∈ flags.value, (i.given.answer? entry.1).isSome = true ∨ i.interactive = false →
      entry.2 = (i.given.answer? entry.1).getD ((offers.get? entry.1).getD false) := by
  apply settled.induction_ok
  case nil => exact fun entry member => absurd member List.not_mem_nil
  case given =>
    intro key question rest value flags said known ih entry member
    rcases List.mem_cons.1 member with rfl | member
    · exact fun _ => by rw [known]; rfl
    · exact ih entry member
  case offered =>
    intro key question rest flags said unknown may ih entry member
    rcases List.mem_cons.1 member with rfl | member
    · exact fun _ => by rw [unknown]; rfl
    · exact ih entry member
  case asked =>
    intro key question rest value flags said unknown may ih entry member
    rcases List.mem_cons.1 member with rfl | member
    · intro silent
      rw [unknown, may] at silent
      simp at silent
    · exact ih entry member

theorem said_eq_confirmations (settled : FlagsSettled i offers questions (.ok flags) said)
    (may : i.interactive = true) (told : String → Bool)
    (records : ∀ entry ∈ flags.value, told entry.1 = entry.2) :
    said = confirmations offers told (i.openAmong questions) := by
  revert records
  apply settled.induction_ok
  case nil => exact fun _ => rfl
  case given =>
    intro key question rest value flags said known ih records
    have closed : i.openAmong ((key, question) :: rest) = i.openAmong rest := by
      simp [openAmong, known]
    rw [closed]
    exact ih fun entry member => records entry (List.mem_cons_of_mem _ member)
  case offered =>
    intro key question rest flags said unknown silent
    exact nomatch silent.symm.trans may
  case asked =>
    intro key question rest value flags said unknown _ ih records
    have first : i.openAmong ((key, question) :: rest) = (key, question) :: i.openAmong rest := by
      simp [openAmong, unknown]
    have reply : told key = value := records (key, value) List.mem_cons_self
    rw [first, confirmations, List.map_cons, reply]
    exact congrArg _ (ih fun entry member => records entry (List.mem_cons_of_mem _ member))

theorem asked_iff (settled : FlagsSettled i offers questions (.ok flags) said) :
    flags.asked = true ↔ i.interactive = true ∧ i.openAmong questions ≠ [] := by
  apply settled.induction_ok
  case nil => simp [openAmong]
  case given =>
    intro key question rest value flags said known ih
    simpa [addFlag, openAmong, known] using ih
  case offered =>
    intro key question rest flags said unknown silent ih
    simpa [addFlag, silent] using ih
  case asked =>
    intro key question rest value flags said unknown may ih
    simp [addFlag, openAmong, unknown, may]

end FlagsSettled

theorem nodup_declared (i : Interview) {declared : List (String × Bool)}
    (keys : declared.map Prod.fst = i.questionnaire.flags.keys) :
    ((declared ++ i.given.undeclared (i.given.undeclaredKeys i.questionnaire)).map
      Prod.fst).Nodup := by
  rw [List.map_append, keys, Given.map_fst_undeclared, List.nodup_append]
  refine ⟨i.questionnaire.flags.distinct,
    (i.given.nodup_undeclaredKeys i.questionnaire).filter _, ?_⟩
  rintro key declares _ given rfl
  have undeclared := (List.mem_filter.1 (List.mem_filter.1 given).1).2
  have declared : i.questionnaire.declares key = true := List.contains_iff_mem.2 declares
  rw [declared] at undeclared
  exact nomatch undeclared

theorem NameSettled.interactive {chosen : Collected String}
    (settled : NameSettled i offered (.ok chosen) said) (asked : chosen.asked = true) :
    i.interactive = true := by
  generalize named : Except.ok chosen = result at settled
  cases settled with
  | given known =>
    obtain ⟨name, _, rfl⟩ := map_eq_ok_iff.1 named.symm
    exact nomatch asked
  | asked unknown may asks => exact may
  | offered unknown silent =>
    obtain ⟨name, _, rfl⟩ := map_eq_ok_iff.1 named.symm
    exact nomatch asked

namespace Round

variable {answers : Answers} {asked : Bool}

theorem interactive (round : Round i offered offers (.ok ⟨answers, true⟩) said) :
    i.interactive = true := by
  generalize collected : Except.ok (Collected.mk answers true) = result at round
  cases round with
  | unnamed => exact nomatch collected
  | unflagged => exact nomatch collected
  | collected name flags =>
    injection collected with same
    injection same with _ asks
    rcases Bool.or_eq_true_iff.1 asks.symm with asks | asks
    · exact name.interactive asks
    · exact (flags.asked_iff.1 asks).1

/-- The flags of a round are the declared ones, then those that are only given. -/
theorem exists_declared (round : Round i offered offers (.ok ⟨answers, asked⟩) said) :
    ∃ (front more : List Exchange) (declared : Collected (List (String × Bool))),
      said = front ++ more ∧ (declared.asked = true → asked = true) ∧
      FlagsSettled i offers i.questionnaire.flags.entries (.ok declared) more ∧
      answers.flags.entries =
        declared.value ++ i.given.undeclared (i.given.undeclaredKeys i.questionnaire) := by
  cases round with
  | @collected chosen declared front more name flags =>
    refine ⟨front, more, declared, rfl, fun asks => ?_, flags,
      Table.entries_ofList (i.nodup_declared flags.map_fst)⟩
    rw [asks, Bool.or_true]

theorem keys_eq (round : Round i offered offers (.ok ⟨answers, asked⟩) said) :
    answers.flags.keys = i.questionnaire.flags.keys ++
      (i.given.undeclaredKeys i.questionnaire).filter fun key =>
        (i.given.answer? key).isSome := by
  obtain ⟨front, more, declared, _, _, flags, entries⟩ := round.exists_declared
  rw [Table.keys, entries, List.map_append, flags.map_fst, Given.map_fst_undeclared]
  rfl

theorem get?_of_given (round : Round i offered offers (.ok ⟨answers, asked⟩) said) {key : String}
    {value : Bool} (member : key ∈ answers.flags.keys)
    (known : i.given.answer? key = some value) : answers.flags.get? key = some value := by
  obtain ⟨front, more, declared, _, _, flags, entries⟩ := round.exists_declared
  obtain ⟨entry, inside, rfl⟩ := List.mem_map.1 member
  have same : entry.2 = value := by
    rw [entries] at inside
    rcases List.mem_append.1 inside with inside | inside
    · rw [flags.eq_getD entry inside (.inl (known ▸ rfl)), known]
      rfl
    · exact Option.some.inj ((i.given.answer?_of_mem_undeclared inside).symm.trans known)
  exact Table.get?_eq_some_iff.2 (same ▸ inside)

theorem mem_keys (round : Round i offered offers (.ok ⟨answers, asked⟩) said) {key : String}
    {value : Bool} (mentioned : key ∈ i.given.overrides.keys)
    (known : i.given.answer? key = some value) : key ∈ answers.flags.keys := by
  rw [round.keys_eq, List.mem_append]
  by_cases declares : i.questionnaire.declares key = true
  · exact .inl (List.contains_iff_mem.1 declares)
  · right
    have undeclared : key ∈ i.given.undeclaredKeys i.questionnaire := by
      apply List.mem_filter.2
      refine ⟨List.mem_eraseDups.2 (List.mem_append_left _ mentioned), ?_⟩
      simpa using declares
    exact List.mem_filter.2 ⟨undeclared, by rw [known]; rfl⟩

theorem get?_of_enabled (round : Round i offered offers (.ok ⟨answers, asked⟩) said)
    {key : String} (enabled : key ∈ i.given.overrides.enable) :
    answers.flags.get? key = some true := by
  have known : i.given.answer? key = some true := by
    rw [Given.answer?, Overrides.flag?_of_mem_enable enabled]
    rfl
  exact round.get?_of_given (round.mem_keys (List.mem_append_left _ enabled) known) known

theorem get?_of_disabled (round : Round i offered offers (.ok ⟨answers, asked⟩) said)
    {key : String} (notEnabled : key ∉ i.given.overrides.enable)
    (disabled : key ∈ i.given.overrides.disable) : answers.flags.get? key = some false := by
  have known : i.given.answer? key = some false := by
    rw [Given.answer?, Overrides.flag?_of_mem_disable notEnabled disabled]
    rfl
  exact round.get?_of_given (round.mem_keys (List.mem_append_right _ disabled) known) known

theorem get?_of_silent (round : Round i offered offers (.ok ⟨answers, asked⟩) said)
    (silent : i.interactive = false) {entry : String × FlagQuestion}
    (isOpen : entry ∈ i.openFlags) :
    answers.flags.get? entry.1 = some ((offers.get? entry.1).getD false) := by
  obtain ⟨front, more, declared, _, _, flags, entries⟩ := round.exists_declared
  obtain ⟨asks, unknown⟩ := List.mem_filter.1 isOpen
  obtain ⟨value, member⟩ := flags.exists_value asks
  have same : value = (offers.get? entry.1).getD false := by
    have settled := flags.eq_getD (entry.1, value) member (.inr silent)
    rwa [Option.isNone_iff_eq_none.1 unknown] at settled
  rw [← same]
  exact Table.get?_of_mem_front entries member

/-- Where it may, the last questions of the round are those for the open flags, and the answers
have the replies. -/
theorem exists_told (round : Round i offered offers (.ok ⟨answers, asked⟩) said)
    (may : i.interactive = true) : ∃ (front : List Exchange) (told : String → Bool),
      said = front ++ confirmations offers told i.openFlags ∧
      (i.openFlags ≠ [] → asked = true) ∧
      ∀ entry ∈ i.openFlags, answers.flags.get? entry.1 = some (told entry.1) := by
  obtain ⟨front, more, declared, rfl, asks, flags, entries⟩ := round.exists_declared
  have found : ∀ entry ∈ declared.value, answers.flags.get? entry.1 = some entry.2 :=
    fun entry member => Table.get?_of_mem_front entries member
  let told := fun key => (answers.flags.get? key).getD false
  have records : ∀ entry ∈ declared.value, told entry.1 = entry.2 := by
    intro entry member
    show (answers.flags.get? entry.1).getD false = entry.2
    rw [found entry member]
    rfl
  refine ⟨front, told, ?_, fun unsettled => asks (flags.asked_iff.2 ⟨may, unsettled⟩), ?_⟩
  · rw [flags.said_eq_confirmations may told records]
    rfl
  · intro entry isOpen
    obtain ⟨value, member⟩ := flags.exists_value (List.mem_filter.1 isOpen).1
    rw [found _ member, records _ member]

end Round

/-- The round that a session with answers ends with: it is confirmed if anything was asked in
it, and it is the first one where nothing may be asked. -/
theorem Session.exists_round {answers : Answers}
    (session : Session i offered offers (.ok answers) said) :
    ∃ (earlier last : List Exchange) (lastOffered : String) (lastOffers : Table Bool)
      (asked : Bool), Round i lastOffered lastOffers (.ok ⟨answers, asked⟩) last ∧
      (asked = true →
        said = earlier ++ last ++ [(.confirm confirmation true, some (.bool true))]) ∧
      (i.interactive = false → lastOffers = offers) := by
  generalize ended : Except.ok answers = result at session
  induction session with
  | failed => exact nomatch ended
  | unasked round =>
    cases ended
    exact ⟨[], _, _, _, false, round, fun asks => (nomatch asks), fun _ => rfl⟩
  | unconfirmed => exact nomatch ended
  | accepted round hears =>
    cases ended
    rw [eq_of_heard_truth hears]
    exact ⟨[], _, _, _, true, round, fun _ => rfl, fun _ => rfl⟩
  | @declined _ _ _ front _ reply _ round hears next ih =>
    obtain ⟨earlier, last, lastOffered, lastOffers, asked, ends, confirmed, _⟩ := ih ended
    refine ⟨front ++ (.confirm confirmation true, reply) :: earlier, last, lastOffered,
      lastOffers, asked, ends, fun asks => ?_, fun silent => ?_⟩
    · rw [confirmed asks]
      simp only [List.append_assoc, List.cons_append]
    · exact nomatch silent.symm.trans round.interactive

/-- Where the flags of the answers come from, in an interview in which `said` was said. -/
structure Precedence (i : Interview) (said : List Exchange) (answers : Answers) : Prop where
  apart : ∀ key ∈ i.given.overrides.enable, key ∉ i.given.overrides.disable
  distinct : answers.flags.keys.Nodup
  /-- The declared flags come first. Behind them are the undeclared ones that are answered, each
  where it is mentioned first: enabled, disabled, or preloaded, in the order of bytes. -/
  keys : ∃ names : List String,
    (names.Pairwise fun a b => Bytes.ofString a < Bytes.ofString b) ∧
    (∀ key, key ∈ names ↔
      key ≠ Answers.nameKey ∧ (i.given.preloaded.member? key).isSome = true) ∧
    answers.flags.keys = i.questionnaire.flags.keys ++
      ((i.given.overrides.enable ++ i.given.overrides.disable ++ names).eraseDups.filter
        fun key => !i.questionnaire.declares key).filter
        fun key => (i.given.answer? key).isSome
  enabled : ∀ key ∈ i.given.overrides.enable, answers.flags.get? key = some true
  disabled : ∀ key ∈ i.given.overrides.disable, answers.flags.get? key = some false
  preloaded : ∀ key ∈ answers.flags.keys, key ∉ i.given.overrides.enable →
    key ∉ i.given.overrides.disable → ∀ value,
    Preloaded.answer? i.given.preloaded key = some value → answers.flags.get? key = some value
  offered : i.interactive = false → ∀ entry ∈ i.openFlags,
    answers.flags.get? entry.1 = some entry.2.offered
  /-- The last round asks for all open flags and is confirmed; its replies count. -/
  told : i.interactive = true → i.openFlags ≠ [] →
    ∃ (earlier : List Exchange) (offers : Table Bool) (told : String → Bool),
      said = earlier ++ confirmations offers told i.openFlags ++
        [(.confirm confirmation true, some (.bool true))] ∧
      ∀ entry ∈ i.openFlags, answers.flags.get? entry.1 = some (told entry.1)

theorem get?_firstOffers {q : Questionnaire} {entry : String × FlagQuestion}
    (member : entry ∈ q.flags.entries) :
    (firstOffers q).get? entry.1 = some entry.2.offered := by
  have distinct : ((q.flags.entries.map fun entry => (entry.1, entry.2.offered)).map
      Prod.fst).Nodup := by
    rw [List.map_map]
    exact q.flags.distinct
  apply Table.get?_eq_some_iff.2
  rw [firstOffers, Table.entries_ofList distinct]
  exact List.mem_map_of_mem (f := fun entry => (entry.1, entry.2.offered)) member

theorem Session.precedence {answers : Answers} (sorted : i.given.preloaded.IsSorted)
    (apart : ∀ key ∈ i.given.overrides.enable, key ∉ i.given.overrides.disable)
    (session : Session i offered (firstOffers i.questionnaire) (.ok answers) said) :
    i.Precedence said answers := by
  obtain ⟨earlier, last, lastOffered, lastOffers, asked, round, confirmed, first⟩ :=
    session.exists_round
  constructor
  case apart => exact apart
  case distinct => exact answers.flags.distinct
  case keys =>
    have names := (sorted.filter (· ≠ Answers.nameKey)).imp Bytes.ofString_lt
    exact ⟨_, names, fun _ => Preloaded.mem_flagKeys_iff, round.keys_eq⟩
  case enabled => exact fun key enabled => round.get?_of_enabled enabled
  case disabled =>
    intro key disabled
    exact round.get?_of_disabled (fun enabled => apart key enabled disabled) disabled
  case preloaded =>
    intro key member notEnabled notDisabled value known
    apply round.get?_of_given member
    rw [Given.answer?, Overrides.flag?_eq_none notEnabled notDisabled]
    exact known
  case offered =>
    intro silent entry isOpen
    rw [round.get?_of_silent silent isOpen, first silent,
      get?_firstOffers (List.mem_filter.1 isOpen).1]
    rfl
  case told =>
    intro may unsettled
    obtain ⟨front, told, rfl, asks, values⟩ := round.exists_told may
    refine ⟨earlier ++ front, lastOffers, told, ?_, values⟩
    rw [confirmed (asks unsettled), ← List.append_assoc earlier front]

/-- The flags of an interview and their order. A flag that is enabled and disabled at once ends
it before anything is asked. -/
theorem run_precedence (i : Interview) (replies : List Reply)
    (sorted : i.given.preloaded.IsSorted) :
    (∀ answers, (i.run replies).value.result = .ok answers →
      i.Precedence (exchanges (prompts (i.run replies).events) replies) answers) ∧
    ((∃ key ∈ i.given.overrides.enable, key ∈ i.given.overrides.disable) →
      ∃ key ∈ i.given.overrides.enable, key ∈ i.given.overrides.disable ∧
        (i.run replies).value.result = .error (.flagConflict key) ∧
        (Error.flagConflict key).kind = .validation ∧ (i.run replies).events = []) := by
  constructor
  · intro answers ended
    obtain ⟨said, apart, session, took⟩ := exists_session_of_ok ended
    rw [← took.said_eq]
    exact session.precedence sorted (Overrides.conflict?_eq_none_iff.1 apart)
  · rintro ⟨shared, enabled, disabled⟩
    cases conflict : i.given.overrides.conflict? with
    | none => exact absurd disabled (Overrides.conflict?_eq_none_iff.1 conflict shared enabled)
    | some key =>
      obtain ⟨both, too⟩ := Overrides.mem_of_conflict? conflict
      refine ⟨key, both, too, ?_⟩
      rw [run, conflict]
      exact ⟨rfl, rfl, rfl⟩

/-- The answers of the first round are declined, so the open flag is asked for twice. -/
theorem run_precedence_declined :
    let i : Interview :=
      { questionnaire := ⟨.standard, [], .ofList
          [("rest", ⟨"", true⟩), ("grpc", ⟨"", false⟩), ("jobs", ⟨"", false⟩)]⟩
        given := ⟨⟨some "demo", ["extra"], ["rest"]⟩,
          .ofMembers [("grpc", .string "Yes"), ("late", .string "maybe"), ("early", .bool true)]⟩
        interactive := true
        spent := .noReplyLeft }
    let replies : List Reply := [.bool true, .bool false, .bool false, .bool true]
    ∃ answers, (i.run replies).value.result = .ok answers ∧
      answers.flags.entries = [("rest", false), ("grpc", true), ("jobs", false), ("extra", true),
        ("early", true)] ∧
      i.Precedence (exchanges (prompts (i.run replies).events) replies) answers := by
  intro i replies
  have entries : (i.run replies).value.result.toOption.map (fun answers => answers.flags.entries) =
      some [("rest", false), ("grpc", true), ("jobs", false), ("extra", true), ("early", true)] := by
    decide +kernel
  have precedence := (run_precedence i replies (Json.isSorted_ofMembers _)).1
  cases ended : (i.run replies).value.result with
  | error e =>
    rw [ended] at entries
    exact nomatch entries
  | ok answers =>
    rw [ended] at entries
    exact ⟨answers, rfl, Option.some.inj entries, precedence answers ended⟩

end Scaffold.Interview
