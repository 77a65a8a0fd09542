import Mathlib.Tactic.Common
import Scaffold.Proofs.Answers.Precedence

/-! The course of an interview, question by question. It goes in rounds: the name until a reply is
one, the open flags in the order of declaration, and the confirmation if anything was asked. A
round that is declined is followed by one that offers its answers, and the first question that
fails is the last one. -/

namespace Scaffold.Interview

structure Offers where
  name : String
  flag : String → Bool

def offersOf (q : Questionnaire) : Offers where
  name := q.name.offered.getD ""
  flag key := ((q.flags.get? key).map FlagQuestion.offered).getD false

def asksName (i : Interview) : Bool := i.interactive && i.given.name?.isNone

def askedFlags (i : Interview) : List (String × FlagQuestion) :=
  if i.interactive then i.openFlags else []

def asksAnything (i : Interview) : Bool := i.asksName || !i.askedFlags.isEmpty

/-- The replies in a round in which no question fails, and the name that the last one to the
question for it is read as. -/
structure Turn where
  refused : List String
  reply : String
  name : String
  flag : String → Bool
  refuses : ∀ text ∈ refused, ∃ e, ProjectName.read text = .error e
  reads : ProjectName.read reply = .ok name

def nameExchange (question offered text : String) : Exchange :=
  (.text question offered, some (.text text))

def flagExchange (offers : Offers) (told : String → Bool) (entry : String × FlagQuestion) :
    Exchange :=
  (.confirm (entry.2.prompt entry.1) (offers.flag entry.1), some (.bool (told entry.1)))

namespace Turn

def offers (turn : Turn) : Offers := ⟨turn.name, turn.flag⟩

def naming (i : Interview) (offers : Offers) (turn : Turn) : List Exchange :=
  if i.asksName then
    (turn.refused ++ [turn.reply]).map (nameExchange i.questionnaire.name.help offers.name)
  else []

def exchanges (i : Interview) (offers : Offers) (turn : Turn) : List Exchange :=
  turn.naming i offers ++ i.askedFlags.map (flagExchange offers turn.flag)

def answers (i : Interview) (turn : Turn) : Answers where
  name := turn.name
  flags := .ofList (i.questionnaire.flags.entries.map (fun entry => (entry.1, turn.flag entry.1)) ++
    i.given.undeclared (i.given.undeclaredKeys i.questionnaire))

structure Fits (i : Interview) (offers : Offers) (turn : Turn) : Prop where
  name : i.asksName = false → turn.reply = i.given.name?.getD offers.name
  flag : ∀ entry ∈ i.questionnaire.flags.entries, entry ∉ i.askedFlags →
    turn.flag entry.1 = (i.given.answer? entry.1).getD (offers.flag entry.1)

end Turn

inductive Declined (i : Interview) : Offers → List Exchange → Offers → Prop
  | none (offers : Offers) : Declined i offers [] offers
  | round {offers last : Offers} {later : List Exchange} (turn : Turn) (fits : turn.Fits i offers)
      (asks : i.asksAnything = true) (more : Declined i turn.offers later last) :
      Declined i offers
        (turn.exchanges i offers ++ (.confirm confirmation true, some (.bool false)) :: later) last

def Fails (spent : PromptFault) (e : Error) : Exchange → Prop
  | (.text _ _, reply) => heard spent Reply.words reply = .error e
  | (.confirm _ _, reply) => heard spent Reply.truth reply = .error e

/-- The last round of an interview. -/
inductive LastRound (i : Interview) (offers : Offers) :
    Except Error Answers → List Exchange → Prop
  | nameless {e : Error} (silent : i.asksName = false)
      (refuses : ProjectName.read (i.given.name?.getD offers.name) = .error e) :
      LastRound i offers (.error e) []
  | failed {e : Error} {front back : List Exchange} {prompt : Prompt} {told reply : Option Reply}
      (turn : Turn) (fits : turn.Fits i offers)
      (split : turn.exchanges i offers = front ++ (prompt, told) :: back)
      (fails : Fails i.spent e (prompt, reply)) :
      LastRound i offers (.error e) (front ++ [(prompt, reply)])
  | silent (turn : Turn) (fits : turn.Fits i offers) (silent : i.asksAnything = false) :
      LastRound i offers (.ok (turn.answers i)) []
  | accepted (turn : Turn) (fits : turn.Fits i offers) (asks : i.asksAnything = true) :
      LastRound i offers (.ok (turn.answers i))
        (turn.exchanges i offers ++ [(.confirm confirmation true, some (.bool true))])
  | unconfirmed {e : Error} {reply : Option Reply} (turn : Turn) (fits : turn.Fits i offers)
      (asks : i.asksAnything = true)
      (fails : Fails i.spent e (.confirm confirmation true, reply)) :
      LastRound i offers (.error e)
        (turn.exchanges i offers ++ [(.confirm confirmation true, reply)])

variable {i : Interview} {offered : String} {offers : Offers} {table : Table Bool}
  {said : List Exchange}

theorem eq_of_heard_words {spent : PromptFault} {reply : Option Reply} {text : String}
    (hears : heard spent Reply.words reply = .ok text) : reply = some (.text text) := by
  cases reply with
  | none => exact nomatch hears
  | some reply =>
    cases reply with
    | text told =>
      cases hears
      rfl
    | _ => exact nomatch hears

/-- The question for the name is put again after every reply that is no name; the last reply is
one, or makes the question fail. -/
theorem NameAsked.exists_refused {spent : PromptFault} {question : String}
    {result : Except Error String} (asked : NameAsked spent question offered result said) :
    ∃ (refused : List String) (reply : Option Reply),
      (∀ text ∈ refused, ∃ e, ProjectName.read text = .error e) ∧
      said = refused.map (nameExchange question offered) ++ [(.text question offered, reply)] ∧
      ((∃ text name, reply = some (.text text) ∧ ProjectName.read text = .ok name ∧
          result = .ok name) ∨
        ∃ e, heard spent Reply.words reply = .error e ∧ result = .error e) := by
  induction asked with
  | failed fails => exact ⟨[], _, by simp, rfl, .inr ⟨_, fails, rfl⟩⟩
  | accepted hears reads =>
    exact ⟨[], _, by simp, rfl, .inl ⟨_, _, eq_of_heard_words hears, reads, rfl⟩⟩
  | rejected hears refuses _ ih =>
    obtain ⟨refused, last, shapeless, rfl, ends⟩ := ih
    rw [eq_of_heard_words hears]
    exact ⟨_ :: refused, last, List.forall_mem_cons.2 ⟨⟨_, refuses⟩, shapeless⟩, rfl, ends⟩

theorem NameSettled.cases_asksName {result : Except Error (Collected String)}
    (settled : NameSettled i offered result said) :
    (i.asksName = false ∧ said = [] ∧ result =
        (ProjectName.read (i.given.name?.getD offered)).map fun name => ⟨name, false⟩) ∨
      (i.asksName = true ∧ ∃ named,
        NameAsked i.spent i.questionnaire.name.help offered named said ∧
          result = named.map fun name => ⟨name, true⟩) := by
  cases settled with
  | given known => exact .inl ⟨by simp [asksName, known], rfl, by rw [known]; rfl⟩
  | asked unknown may asks => exact .inr ⟨by simp [asksName, unknown, may], _, asks, rfl⟩
  | offered unknown may => exact .inl ⟨by simp [asksName, may], rfl, by rw [unknown]; rfl⟩

theorem askedFlags_eq_of_interactive (may : i.interactive = true) :
    i.askedFlags = i.openFlags := if_pos may

theorem asked_or_settled (entry : String × FlagQuestion)
    (declared : entry ∈ i.questionnaire.flags.entries) (unasked : entry ∉ i.askedFlags) :
    (i.given.answer? entry.1).isSome = true ∨ i.interactive = false := by
  cases may : i.interactive with
  | false => exact .inr rfl
  | true =>
    left
    rw [askedFlags_eq_of_interactive may] at unasked
    cases known : i.given.answer? entry.1 with
    | some value => rfl
    | none => exact absurd (List.mem_filter.2 ⟨declared, by rw [known]; rfl⟩) unasked

def Offers.Holds (offers : Offers) (i : Interview) (table : Table Bool) : Prop :=
  ∀ entry ∈ i.questionnaire.flags.entries,
    (table.get? entry.1).getD false = offers.flag entry.1

theorem mem_of_mem_askedFlags {entry : String × FlagQuestion} (asked : entry ∈ i.askedFlags) :
    entry ∈ i.questionnaire.flags.entries := by
  unfold askedFlags at asked
  split_ifs at asked
  · exact (List.mem_filter.1 asked).1
  · exact absurd asked List.not_mem_nil

theorem Offers.Holds.confirmations_eq (holds : offers.Holds i table) (told : String → Bool)
    {questions : List (String × FlagQuestion)}
    (declared : ∀ entry ∈ questions, entry ∈ i.questionnaire.flags.entries) :
    confirmations table told questions = questions.map (flagExchange offers told) :=
  List.map_congr_left fun entry among => by rw [holds entry (declared entry among), flagExchange]

namespace FlagsSettled

variable {questions : List (String × FlagQuestion)}

theorem exists_failed {e : Error} (distinct : (questions.map Prod.fst).Nodup)
    (settled : FlagsSettled i table questions (.error e) said) :
    i.interactive = true ∧ ∃ told front entry back reply,
      i.openAmong questions = front ++ entry :: back ∧
      said = confirmations table told front ++
        [(.confirm (entry.2.prompt entry.1) ((table.get? entry.1).getD false), reply)] ∧
      heard i.spent Reply.truth reply = .error e := by
  generalize ended : Except.error e = result at settled
  induction settled with
  | nil => exact nomatch ended
  | @given key question rest value result said known _ ih =>
    have closed : i.openAmong ((key, question) :: rest) = i.openAmong rest := by
      simp [openAmong, known]
    rw [closed]
    rw [List.map_cons, List.nodup_cons] at distinct
    exact ih distinct.2 (map_eq_error_iff.1 ended.symm).symm
  | offered _ may _ ih =>
    rw [List.map_cons, List.nodup_cons] at distinct
    have other := (ih distinct.2 (map_eq_error_iff.1 ended.symm).symm).1
    exact absurd (may.symm.trans other) Bool.false_ne_true
  | @failed key question rest reply e' unknown may fails =>
    cases ended
    refine ⟨may, fun _ => false, [], (key, question), i.openAmong rest, reply, ?_, rfl, fails⟩
    simp [openAmong, unknown]
  | @asked key question rest reply value result said unknown may hears _ ih =>
    rw [List.map_cons, List.nodup_cons] at distinct
    obtain ⟨_, told, front, entry, back, last, split, rfl, fails⟩ :=
      ih distinct.2 (map_eq_error_iff.1 ended.symm).symm
    have first : i.openAmong ((key, question) :: rest) =
        ((key, question) :: front) ++ entry :: back := by
      rw [List.cons_append, ← split]
      simp [openAmong, unknown]
    let told' := fun name => if name = key then value else told name
    have later : confirmations table told' front = confirmations table told front := by
      refine List.map_congr_left fun entry among => ?_
      have inside : entry ∈ i.openAmong rest := by
        rw [split]
        exact List.mem_append_left _ among
      have different : entry.1 ≠ key := fun same =>
        distinct.1 (List.mem_map.2 ⟨entry, (List.mem_filter.1 inside).1, same⟩)
      rw [show told' entry.1 = told entry.1 from if_neg different]
    refine ⟨may, told', _, entry, back, last, first, ?_, fails⟩
    have here : told' key = value := if_pos rfl
    rw [eq_of_heard_truth hears, ← later, ← here]
    rfl

/-- Where all questions are answered, the values are those of one function, and the questions that
were put are the open ones. -/
theorem exists_flag {flags : Collected (List (String × Bool))}
    (distinct : (questions.map Prod.fst).Nodup)
    (settled : FlagsSettled i table questions (.ok flags) said) :
    ∃ flag : String → Bool,
      flags.value = questions.map (fun entry => (entry.1, flag entry.1)) ∧
      (∀ entry ∈ questions, (i.given.answer? entry.1).isSome = true ∨ i.interactive = false →
        flag entry.1 = (i.given.answer? entry.1).getD ((table.get? entry.1).getD false)) ∧
      (i.interactive = true → said = confirmations table flag (i.openAmong questions)) := by
  let collected : Table Bool := ⟨flags.value, by rw [settled.map_fst]; exact distinct⟩
  let flag := fun key => (collected.get? key).getD false
  have found : ∀ entry ∈ flags.value, flag entry.1 = entry.2 := by
    intro entry member
    have known : collected.get? entry.1 = some entry.2 := Table.get?_eq_some_iff.2 member
    show (collected.get? entry.1).getD false = entry.2
    rw [known, Option.getD_some]
  refine ⟨flag, ?_, fun entry among settles => ?_, fun may => ?_⟩
  · calc flags.value
        = (flags.value.map Prod.fst).map fun key => (key, flag key) := by
          rw [List.map_map]
          refine (List.map_id _).symm.trans (List.map_congr_left fun entry member => ?_)
          exact Prod.ext rfl (found entry member).symm
      _ = questions.map fun entry => (entry.1, flag entry.1) := by
          rw [settled.map_fst, List.map_map]
          rfl
  · obtain ⟨value, member⟩ := settled.exists_value among
    rw [found _ member]
    exact settled.eq_getD _ member settles
  · exact settled.said_eq_confirmations may flag found

theorem said_of_silent {result : Except Error (Collected (List (String × Bool)))}
    (silent : i.interactive = false) (settled : FlagsSettled i table questions result said) :
    said = [] := by
  induction settled with
  | nil => rfl
  | given _ _ ih | offered _ _ _ ih => exact ih
  | failed _ may | asked _ may => exact nomatch silent.symm.trans may

end FlagsSettled

namespace Turn

theorem exchanges_of_asksName (asks : i.asksName = true) (offers : Offers) (turn : Turn) :
    turn.exchanges i offers =
      turn.refused.map (nameExchange i.questionnaire.name.help offers.name) ++
        nameExchange i.questionnaire.name.help offers.name turn.reply ::
          i.askedFlags.map (flagExchange offers turn.flag) := by
  rw [exchanges, naming, asks, if_pos rfl, List.map_append, List.append_assoc]
  rfl

theorem exchanges_of_askedFlags {front back : List (String × FlagQuestion)}
    {entry : String × FlagQuestion} (split : i.askedFlags = front ++ entry :: back)
    (offers : Offers) (turn : Turn) :
    turn.exchanges i offers =
      (turn.naming i offers ++ front.map (flagExchange offers turn.flag)) ++
        flagExchange offers turn.flag entry :: back.map (flagExchange offers turn.flag) := by
  rw [exchanges, split, List.map_append, List.map_cons, List.append_assoc]

theorem exchanges_of_silent {turn : Turn} (silent : i.asksAnything = false) :
    turn.exchanges i offers = [] := by
  rw [asksAnything, Bool.or_eq_false_iff] at silent
  obtain ⟨unnamed, flagless⟩ := silent
  have flags : i.askedFlags = [] := by simpa using flagless
  rw [exchanges, naming, unnamed, flags]
  rfl

theorem entries_answers (turn : Turn) : (turn.answers i).flags.entries =
    i.questionnaire.flags.entries.map (fun entry => (entry.1, turn.flag entry.1)) ++
      i.given.undeclared (i.given.undeclaredKeys i.questionnaire) := by
  refine Table.entries_ofList (i.nodup_declared ?_)
  rw [List.map_map]
  rfl

theorem holds_extend (turn : Turn) (table : Table Bool) :
    turn.offers.Holds i (table.extend (turn.answers i).flags) := by
  intro entry declared
  have found : (turn.answers i).flags.get? entry.1 = some (turn.flag entry.1) :=
    Table.get?_of_mem_front turn.entries_answers
      (List.mem_map_of_mem (f := fun entry => (entry.1, turn.flag entry.1)) declared)
  rw [Table.get?_extend, found]
  rfl

end Turn

theorem NameSettled.exists_reply {chosen : Collected String}
    (settled : NameSettled i offered (.ok chosen) said) :
    ∃ (refused : List String) (reply : String),
      (∀ text ∈ refused, ∃ e, ProjectName.read text = .error e) ∧
      ProjectName.read reply = .ok chosen.value ∧ chosen.asked = i.asksName ∧
      (i.asksName = false → reply = i.given.name?.getD offered) ∧
      said = if i.asksName then
        (refused ++ [reply]).map (nameExchange i.questionnaire.name.help offered) else [] := by
  rcases settled.cases_asksName with ⟨silent, rfl, result⟩ | ⟨asks, named, asked, result⟩
  · obtain ⟨name, reads, rfl⟩ := map_eq_ok_iff.1 result.symm
    exact ⟨[], _, by simp, reads, silent.symm, fun _ => rfl, by rw [silent]; rfl⟩
  · obtain ⟨name, rfl, rfl⟩ := map_eq_ok_iff.1 result.symm
    obtain ⟨refused, reply, refuses, rfl, ends⟩ := asked.exists_refused
    rcases ends with ⟨text, _, rfl, reads, same⟩ | ⟨e, _, same⟩
    · cases same
      refine ⟨refused, text, refuses, reads, asks.symm, fun silent => ?_, ?_⟩
      · exact nomatch asks.symm.trans silent
      · rw [asks, if_pos rfl, List.map_append]
        rfl
    · exact nomatch same

def settledFlag (i : Interview) (offers : Offers) (told : String → Bool) (key : String) : Bool :=
  (i.given.answer? key).getD (if i.interactive then told key else offers.flag key)

theorem settledFlag_of_unasked (told : String → Bool) {entry : String × FlagQuestion}
    (declared : entry ∈ i.questionnaire.flags.entries) (unasked : entry ∉ i.askedFlags) :
    i.settledFlag offers told entry.1 =
      (i.given.answer? entry.1).getD (offers.flag entry.1) := by
  rw [settledFlag]
  rcases asked_or_settled entry declared unasked with known | silent
  · obtain ⟨value, known⟩ := Option.isSome_iff_exists.1 known
    rw [known, Option.getD_some, Option.getD_some]
  · rw [silent, if_neg Bool.false_ne_true]

theorem settledFlag_of_asked {told : String → Bool} {entry : String × FlagQuestion}
    (asked : entry ∈ i.askedFlags) : i.settledFlag offers told entry.1 = told entry.1 := by
  unfold askedFlags at asked
  split_ifs at asked with may
  · have unknown := Option.isNone_iff_eq_none.1 (List.mem_filter.1 asked).2
    rw [settledFlag, unknown, Option.getD_none, if_pos may]
  · exact absurd asked List.not_mem_nil

namespace Round

variable {result : Except Error (Collected Answers)}

/-- A round without a failure is a turn through its questions. -/
theorem exists_turn {answers : Answers} {asked : Bool} (holds : offers.Holds i table)
    (round : Round i offers.name table (.ok ⟨answers, asked⟩) said) :
    ∃ turn : Turn, turn.Fits i offers ∧ answers = turn.answers i ∧
      said = turn.exchanges i offers ∧ asked = i.asksAnything := by
  generalize collected : Except.ok (Collected.mk answers asked) = result at round
  cases round with
  | unnamed => exact nomatch collected
  | unflagged => exact nomatch collected
  | @collected chosen declared front more name flags =>
    cases collected
    obtain ⟨refused, reply, refuses, reads, asks, unasked, rfl⟩ := name.exists_reply
    obtain ⟨flag, values, settles, confirms⟩ := flags.exists_flag i.questionnaire.flags.distinct
    let turn : Turn := ⟨refused, reply, chosen.value, flag, refuses, reads⟩
    have fits : turn.Fits i offers := by
      refine ⟨unasked, fun entry among silent => ?_⟩
      rw [← holds entry among]
      exact settles entry among (asked_or_settled entry among silent)
    refine ⟨turn, fits, ?_, congrArg _ ?_, ?_⟩
    · rw [values]
      rfl
    · unfold askedFlags
      split_ifs with may
      · rw [confirms may]
        exact holds.confirmations_eq flag fun entry among => (List.mem_filter.1 among).1
      · exact flags.said_of_silent (by simpa using may)
    · rw [asks, asksAnything]
      congr 1
      rw [Bool.eq_iff_iff, flags.asked_iff]
      unfold askedFlags openFlags
      split_ifs with may <;> simp [may]

theorem lastRound {e : Error} (holds : offers.Holds i table)
    (round : Round i offers.name table (.error e) said) : LastRound i offers (.error e) said := by
  generalize ended : Except.error e = result at round
  cases round with
  | collected => exact nomatch ended
  | unnamed name =>
    cases ended
    rcases name.cases_asksName with ⟨silent, rfl, result⟩ | ⟨asks, named, asked, result⟩
    · exact .nameless silent (map_eq_error_iff.1 result.symm)
    · obtain rfl := map_eq_error_iff.1 result.symm
      obtain ⟨refused, reply, refuses, rfl, ends⟩ := asked.exists_refused
      rcases ends with ⟨_, _, _, _, same⟩ | ⟨_, fails, same⟩
      · exact nomatch same
      · cases same
        -- Any name would have gone on from here.
        let turn : Turn := ⟨refused, "a", "a", i.settledFlag offers fun _ => false, refuses, rfl⟩
        have fits : turn.Fits i offers := by
          refine ⟨fun silent => ?_, fun entry declared unasked => ?_⟩
          · exact nomatch asks.symm.trans silent
          · exact settledFlag_of_unasked (fun _ => false) declared unasked
        exact .failed turn fits (Turn.exchanges_of_asksName asks offers turn) fails
  | @unflagged chosen e' front more name flags =>
    cases ended
    obtain ⟨refused, reply, refuses, reads, _, unasked, rfl⟩ := name.exists_reply
    obtain ⟨may, told, before, entry, back, last, split, rfl, fails⟩ :=
      flags.exists_failed i.questionnaire.flags.distinct
    have questions : i.askedFlags = before ++ entry :: back :=
      (askedFlags_eq_of_interactive may).trans split
    have asked : ∀ other ∈ before, other ∈ i.askedFlags := fun other among =>
      questions ▸ List.mem_append_left _ among
    have here : entry ∈ i.askedFlags := questions ▸ List.mem_append_right _ List.mem_cons_self
    let turn : Turn := ⟨refused, reply, chosen.value, i.settledFlag offers told, refuses, reads⟩
    have fits : turn.Fits i offers :=
      ⟨unasked, fun entry declared silent => settledFlag_of_unasked told declared silent⟩
    have tells : ∀ other ∈ before, turn.flag other.1 = told other.1 :=
      fun other among => settledFlag_of_asked (asked other among)
    have answered : confirmations table told before =
        before.map (flagExchange offers turn.flag) := by
      rw [holds.confirmations_eq told fun other among => mem_of_mem_askedFlags (asked other among)]
      exact List.map_congr_left fun other among => by
        rw [flagExchange, flagExchange, tells other among]
    rw [holds entry (mem_of_mem_askedFlags here), ← List.append_assoc, answered]
    exact .failed turn fits (Turn.exchanges_of_askedFlags questions offers turn) fails

end Round

/-- A session is a sequence of rounds. -/
theorem Session.exists_rounds {result : Except Error Answers} (holds : offers.Holds i table)
    (session : Session i offers.name table result said) : ∃ rounds last later,
      said = rounds ++ last ∧ Declined i offers rounds later ∧ LastRound i later result last := by
  generalize named : offers.name = name at session
  induction session generalizing offers with
  | failed round =>
    subst named
    exact ⟨[], _, offers, rfl, .none offers, round.lastRound holds⟩
  | unasked round =>
    subst named
    obtain ⟨turn, fits, rfl, rfl, asks⟩ := round.exists_turn holds
    refine ⟨[], [], offers, turn.exchanges_of_silent asks.symm, .none offers, ?_⟩
    exact .silent turn fits asks.symm
  | unconfirmed round fails =>
    subst named
    obtain ⟨turn, fits, rfl, rfl, asks⟩ := round.exists_turn holds
    exact ⟨[], _, offers, rfl, .none offers, .unconfirmed turn fits asks.symm fails⟩
  | accepted round hears =>
    subst named
    obtain ⟨turn, fits, rfl, rfl, asks⟩ := round.exists_turn holds
    rw [eq_of_heard_truth hears]
    exact ⟨[], _, offers, rfl, .none offers, .accepted turn fits asks.symm⟩
  | @declined offered table answers front more reply result round hears next ih =>
    subst named
    obtain ⟨turn, fits, rfl, rfl, asks⟩ := round.exists_turn holds
    obtain ⟨rounds, last, later, rfl, declined, ends⟩ := ih (turn.holds_extend table) rfl
    rw [eq_of_heard_truth hears]
    refine ⟨_, last, later, ?_, .round turn fits asks.symm declined, ends⟩
    rw [List.append_assoc, List.cons_append]

theorem Declined.of_silent {last : Offers} (silent : i.asksAnything = false)
    (declined : Declined i offers said last) : said = [] ∧ last = offers := by
  cases declined with
  | none => exact ⟨rfl, rfl⟩
  | round _ _ asks => exact nomatch silent.symm.trans asks

theorem LastRound.cases_of_silent {result : Except Error Answers} (silent : i.asksAnything = false)
    (ends : LastRound i offers result said) : said = [] ∧
      ((∃ e, ProjectName.read (i.given.name?.getD offers.name) = .error e ∧ result = .error e) ∨
        ∃ turn : Turn, turn.Fits i offers ∧ result = .ok (turn.answers i)) := by
  cases ends with
  | nameless _ refuses => exact ⟨rfl, .inl ⟨_, refuses, rfl⟩⟩
  | failed turn _ split =>
    rw [turn.exchanges_of_silent silent] at split
    exact absurd split.symm (by simp)
  | silent turn fits => exact ⟨rfl, .inr ⟨turn, fits, rfl⟩⟩
  | accepted _ _ asks | unconfirmed _ _ asks => exact nomatch silent.symm.trans asks

theorem holds_offersOf (q : Questionnaire) {i : Interview} (same : i.questionnaire = q) :
    (offersOf q).Holds i (firstOffers q) := by
  subst same
  intro entry declared
  have known : i.questionnaire.flags.get? entry.1 = some entry.2 :=
    Table.get?_eq_some_iff.2 declared
  show ((firstOffers i.questionnaire).get? entry.1).getD false =
    ((i.questionnaire.flags.get? entry.1).map FlagQuestion.offered).getD false
  rw [get?_firstOffers declared, known]
  rfl

/-- An interview asks round by round. The questions take the replies in turn, and every round asks
for the name, unless it is given, until a reply is one; then for the flags that are declared and
not given, in their order; and at last, if anything was asked, whether all is right. The first
round offers what the questionnaire does, and a round behind one that was declined what was
accepted there. The answers are those of the round that is confirmed. A question that fails is the
last one and ends the interview with its fault. Where nothing is to be asked, as when nothing may
be, there is one round without a question. -/
theorem run_rounds (i : Interview) (replies : List Reply) :
    let said := exchanges (prompts (i.run replies).events) replies
    let ended := (i.run replies).value
    ended.left = replies.drop (prompts (i.run replies).events).length ∧
    ((∃ key, i.given.overrides.conflict? = some key ∧ said = [] ∧
        ended.result = .error (.flagConflict key)) ∨
      (i.given.overrides.conflict? = none ∧ ∃ rounds last offers, said = rounds ++ last ∧
        Declined i (offersOf i.questionnaire) rounds offers ∧
        LastRound i offers ended.result last ∧
        (i.asksAnything = false → rounds = [] ∧ last = [] ∧
          offers = offersOf i.questionnaire))) ∧
    (i.interactive = false → i.asksAnything = false) := by
  intro said ended
  have unasked : i.interactive = false → i.asksAnything = false := by
    intro silent
    simp [asksAnything, asksName, askedFlags, silent]
  cases conflict : i.given.overrides.conflict? with
  | some key =>
    have run_eq : i.run replies = pure (.of replies (.error (.flagConflict key))) := by
      rw [run, conflict]
    refine ⟨?_, .inl ⟨key, rfl, ?_, ?_⟩, unasked⟩
    all_goals
      simp only [said, ended, run_eq]
      rfl
  | none =>
    obtain ⟨told, session, took⟩ := exists_session_run i replies conflict
    have same : told = said := took.said_eq
    subst same
    obtain ⟨rounds, last, offers, split, declined, ends⟩ :=
      Session.exists_rounds (holds_offersOf i.questionnaire rfl) session
    refine ⟨took.left_eq, .inr ⟨rfl, rounds, last, offers, split, declined, ends, ?_⟩, unasked⟩
    intro silent
    obtain ⟨empty, same⟩ := declined.of_silent silent
    exact ⟨empty, (ends.cases_of_silent silent).1, same⟩

end Scaffold.Interview
