import Scaffold.Proofs.Answers.Rounds

/-! How an interview uses up its replies. Each question takes the next reply, and only the last one
may find none. A round that is declined has asked something and has been declined by a reply of its
own, so it takes two replies at least, and there can be no more such rounds than the replies
allow. -/

namespace Scaffold

section Exchanges

variable {asked : List Prompt} {replies : List Reply}

theorem length_exchanges (asked : List Prompt) (replies : List Reply) :
    (exchanges asked replies).length = asked.length := by
  induction asked generalizing replies with
  | nil => rfl
  | cons prompt later ih => rw [exchanges, List.length_cons, ih, List.length_cons]

theorem getElem?_exchanges {n : Nat} {prompt : Prompt} (asks : asked[n]? = some prompt) :
    (exchanges asked replies)[n]? = some (prompt, replies[n]?) := by
  induction asked generalizing n replies with
  | nil => exact nomatch asks
  | cons first later ih =>
    cases n with
    | zero =>
      cases asks
      rw [exchanges, List.getElem?_cons_zero, List.head?_eq_getElem?]
    | succ n =>
      rw [List.getElem?_cons_succ] at asks
      rw [exchanges, List.getElem?_cons_succ, ih asks, List.getElem?_tail]

def Exchange.isReplied (exchange : Exchange) : Bool := exchange.2.isSome

theorem all_isReplied_iff :
    (exchanges asked replies).all Exchange.isReplied = true ↔ asked.length ≤ replies.length := by
  induction asked generalizing replies with
  | nil => simp [exchanges]
  | cons prompt later ih =>
    cases replies with
    | nil => simp [exchanges, Exchange.isReplied]
    | cons reply rest => simp [exchanges, Exchange.isReplied, ih]

theorem length_of_unreplied {front : List Exchange} {prompt : Prompt}
    (split : exchanges asked replies = front ++ [(prompt, none)])
    (replied : front.all Exchange.isReplied = true) : asked.length = replies.length + 1 := by
  induction asked generalizing replies front with
  | nil => simp [exchanges] at split
  | cons first later ih =>
    cases front with
    | nil =>
      obtain ⟨here, rest⟩ := List.cons.inj split
      have empty : replies = [] := List.head?_eq_none_iff.1 (Prod.ext_iff.1 here).2
      have last : later = [] := by rw [← List.length_eq_zero_iff, ← length_exchanges, rest]; rfl
      rw [empty, last]
      rfl
    | cons exchange front =>
      obtain ⟨rfl, rest⟩ := List.cons.inj split
      rw [List.all_cons, Bool.and_eq_true] at replied
      obtain ⟨reply, present⟩ := Option.isSome_iff_exists.1 replied.1
      obtain ⟨more, rfl⟩ := List.head?_eq_some_iff.1 present
      rw [List.length_cons, ih rest replied.2, List.tail_cons, List.length_cons]

end Exchanges

namespace Interview

variable {i : Interview} {offers : Offers} {said : List Exchange}

theorem Turn.all_isReplied (turn : Turn) (i : Interview) (offers : Offers) :
    (turn.exchanges i offers).all Exchange.isReplied = true := by
  have flags :
      (i.askedFlags.map (flagExchange offers turn.flag)).all Exchange.isReplied = true := by
    simp [flagExchange, Exchange.isReplied]
  rw [exchanges, List.all_append, flags, Bool.and_true, naming]
  split_ifs
  · simp [nameExchange, Exchange.isReplied]
  · rfl

theorem Turn.exchanges_ne_nil (turn : Turn) (asks : i.asksAnything = true) :
    turn.exchanges i offers ≠ [] := by
  rw [asksAnything, Bool.or_eq_true_iff] at asks
  intro empty
  obtain ⟨unnamed, unflagged⟩ := List.append_eq_nil_iff.1 empty
  rcases asks with name | flags
  · simp [naming, name] at unnamed
  · rw [List.map_eq_nil_iff.1 unflagged] at flags
    cases flags

inductive DeclinedRounds (i : Interview) : Offers → List (List Exchange) → Offers → Prop
  | none (offers : Offers) : DeclinedRounds i offers [] offers
  | round {offers last : Offers} {later : List (List Exchange)} (turn : Turn)
      (fits : turn.Fits i offers) (asks : i.asksAnything = true)
      (more : DeclinedRounds i turn.offers later last) :
      DeclinedRounds i offers
        ((turn.exchanges i offers ++ [(.confirm confirmation true, some (.bool false))]) :: later)
        last

theorem Declined.exists_rounds {last : Offers} (declined : Declined i offers said last) :
    ∃ rounds, DeclinedRounds i offers rounds last ∧ said = rounds.flatten := by
  induction declined with
  | none offers => exact ⟨[], .none offers, rfl⟩
  | round turn fits asks more ih =>
    obtain ⟨rounds, later, rfl⟩ := ih
    refine ⟨_, .round turn fits asks later, ?_⟩
    rw [List.flatten_cons, List.append_assoc, List.singleton_append]

/-- A round that is declined takes two replies at least, and none of its questions is without. -/
theorem DeclinedRounds.two_le {rounds : List (List Exchange)} {last : Offers}
    (declined : DeclinedRounds i offers rounds last) :
    ∀ round ∈ rounds, 2 ≤ round.length ∧ round.all Exchange.isReplied = true := by
  induction declined with
  | none => exact List.forall_mem_nil _
  | @round offers last later turn fits asks more ih =>
    refine List.forall_mem_cons.2 ⟨⟨?_, ?_⟩, ih⟩
    · have nonempty : 0 < (turn.exchanges i offers).length :=
        List.length_pos_iff.2 (turn.exchanges_ne_nil asks)
      rw [List.length_append, List.length_singleton]
      omega
    · rw [List.all_append, turn.all_isReplied]
      rfl

def RunsOut (i : Interview) (result : Except Error Answers) (said : List Exchange) : Prop :=
  ∃ front prompt, said = front ++ [(prompt, none)] ∧ front.all Exchange.isReplied = true ∧
    result = .error (.prompt i.spent)

theorem Fails.eq_of_unreplied {e : Error} {prompt : Prompt}
    (fails : Fails i.spent e (prompt, none)) : e = .prompt i.spent := by
  cases prompt <;> exact (Except.error.inj fails).symm

theorem Fails.replied_or_runsOut {e : Error} {prompt : Prompt} {reply : Option Reply}
    (fails : Fails i.spent e (prompt, reply)) (replied : said.all Exchange.isReplied = true) :
    (said ++ [(prompt, reply)]).all Exchange.isReplied = true ∨
      RunsOut i (.error e) (said ++ [(prompt, reply)]) := by
  cases reply with
  | some reply =>
    left
    rw [List.all_append, replied]
    rfl
  | none =>
    right
    rw [fails.eq_of_unreplied]
    exact ⟨said, prompt, rfl, replied, rfl⟩

/-- Only the question that an interview fails at may find no reply. -/
theorem LastRound.replied_or_runsOut {result : Except Error Answers}
    (ends : LastRound i offers result said) :
    said.all Exchange.isReplied = true ∨ RunsOut i result said := by
  cases ends with
  | nameless | silent => exact .inl rfl
  | @failed _ front _ _ _ _ turn _ split fails =>
    have replied := turn.all_isReplied i offers
    rw [split, List.all_append, Bool.and_eq_true] at replied
    exact fails.replied_or_runsOut replied.1
  | accepted turn =>
    left
    rw [List.all_append, turn.all_isReplied]
    rfl
  | unconfirmed turn _ _ fails => exact fails.replied_or_runsOut (turn.all_isReplied i offers)

theorem LastRound.silent_of_nil {answers : Answers} (ends : LastRound i offers (.ok answers) []) :
    i.asksAnything = false := by
  generalize empty : [] = said at ends
  cases ends with
  | silent _ _ silent => exact silent
  | accepted => exact absurd empty.symm (by simp)

theorem LastRound.silent_of_noReply {asked : List Prompt} {replies : List Reply}
    {earlier last : List Exchange} {answers : Answers}
    (ends : LastRound i offers (.ok answers) last)
    (split : exchanges asked replies = earlier ++ last)
    (within : asked.length ≤ replies.length) (noReply : replies = []) :
    i.asksAnything = false := by
  rw [noReply, List.length_nil, Nat.le_zero, List.length_eq_zero_iff] at within
  rw [within] at split
  obtain ⟨_, noQuestion⟩ := List.append_eq_nil_iff.1 split.symm
  rw [noQuestion] at ends
  exact ends.silent_of_nil

/-- Unless a flag is enabled and disabled at once, a run goes in rounds, and the last one is the
only one that can be short of a reply. -/
theorem exists_rounds_run (i : Interview) (replies : List Reply)
    (apart : i.given.overrides.conflict? = none) :
    let asked := prompts (i.run replies).events
    let ended := (i.run replies).value
    ended.left = replies.drop asked.length ∧ ∃ rounds last offers,
      exchanges asked replies = rounds.flatten ++ last ∧
      DeclinedRounds i (offersOf i.questionnaire) rounds offers ∧
      LastRound i offers ended.result last := by
  intro asked ended
  obtain ⟨told, session, took⟩ := exists_session_run i replies apart
  have same : told = exchanges asked replies := took.said_eq
  obtain ⟨said, last, offers, split, declined, ends⟩ :=
    Session.exists_rounds (holds_offersOf i.questionnaire rfl) session
  obtain ⟨rounds, eachDeclined, rfl⟩ := declined.exists_rounds
  exact ⟨took.left_eq, rounds, last, offers, same.symm.trans split, eachDeclined, ends⟩

/-- The questions of a run are as many as the replies allow. -/
theorem length_of_rounds {asked : List Prompt} {replies : List Reply}
    {rounds : List (List Exchange)} {last : List Exchange} {first : Offers}
    {result : Except Error Answers} (split : exchanges asked replies = rounds.flatten ++ last)
    (declined : DeclinedRounds i first rounds offers) (ends : LastRound i offers result last) :
    asked.length ≤ replies.length ∨
      asked.length = replies.length + 1 ∧ result = .error (.prompt i.spent) := by
  have earlier : rounds.flatten.all Exchange.isReplied = true := by
    rw [List.all_flatten, List.all_eq_true]
    exact fun round member => (declined.two_le round member).2
  rcases ends.replied_or_runsOut with replied | ⟨front, prompt, rfl, replied, same⟩
  · left
    rw [← all_isReplied_iff, split, List.all_append, earlier, replied]
    rfl
  · right
    have before : (rounds.flatten ++ front).all Exchange.isReplied = true := by
      rw [List.all_append, earlier, replied]
      rfl
    rw [← List.append_assoc] at split
    exact ⟨length_of_unreplied split before, same⟩

structure Pending where
  name : String
  flags : Table Bool
  replies : List Reply

inductive Pass (i : Interview) (earlier : Pending) : Pending → Prop
  | declined {answers : Answers} {left : List Reply} {reply : Reply}
      (collected : (i.collect earlier.name earlier.flags earlier.replies).value.result =
        .ok ⟨answers, true⟩)
      (remain : (i.collect earlier.name earlier.flags earlier.replies).value.left = reply :: left)
      (declines : reply.truth = .ok false) :
      Pass i earlier ⟨answers.name, earlier.flags.extend answers.flags, left⟩

theorem Round.length_left {offered : String} {table : Table Bool} {answers : Answers} {asked : Bool}
    (round : Round i offered table (.ok ⟨answers, asked⟩) said) {replies left : List Reply}
    {events : List Event} (took : Took replies events said left) :
    said.length + left.length = replies.length ∧ (asked = true → 0 < said.length) := by
  let offers : Offers := ⟨offered, fun key => (table.get? key).getD false⟩
  have holds : offers.Holds i table := fun _ _ => rfl
  obtain ⟨turn, _, _, split, asks⟩ := Round.exists_turn holds round
  have replied := turn.all_isReplied i offers
  rw [← split, took.said_eq, all_isReplied_iff] at replied
  constructor
  · rw [took.said_eq, took.left_eq, length_exchanges, List.length_drop]
    omega
  · rintro rfl
    rw [split]
    exact List.length_pos_iff.2 (turn.exchanges_ne_nil asks.symm)

theorem Pass.shorter {earlier later : Pending} (pass : Pass i earlier later) :
    later.replies.length + 2 ≤ earlier.replies.length := by
  obtain ⟨said, round, took⟩ := exists_round i earlier.name earlier.flags earlier.replies
  cases pass with
  | declined collected remain declines =>
    rw [collected] at round
    rw [remain] at took
    obtain ⟨length, replied⟩ := round.length_left took
    have present := replied rfl
    rw [List.length_cons] at length
    dsimp only
    omega

theorem Pass.wellFounded (i : Interview) :
    WellFounded fun later earlier => Pass i earlier later := by
  have fewer : WellFounded fun later earlier : Pending =>
      later.replies.length < earlier.replies.length :=
    InvImage.wf (fun pending : Pending => pending.replies.length) Nat.lt_wfRel.wf
  refine Subrelation.wf (fun {later earlier} pass => ?_) fewer
  have shorter := pass.shorter
  show later.replies.length < earlier.replies.length
  omega

theorem Pass.result_rounds {earlier later : Pending} (pass : Pass i earlier later) :
    (i.rounds earlier.name earlier.flags earlier.replies).value.result =
      (i.rounds later.name later.flags later.replies).value.result := by
  cases pass with
  | declined collected remain declines =>
    rw [rounds, Recorded.value_bind]
    generalize i.collect earlier.name earlier.flags earlier.replies = round at collected remain ⊢
    obtain ⟨⟨result, left, shorter⟩, events⟩ := round
    subst collected remain
    simp only [Recorded.value_bind, declines]
    rfl

/-- An interview ends. Each of its questions takes the next reply while there is one, and only the
question that it fails at can find none; so an interview with answers has taken as many replies as
it has asked questions, and without a reply there are answers only if there is nothing to ask. Its
rounds but the last one take two replies at least, and no loop over the rounds goes on forever. -/
theorem run_replies (i : Interview) (replies : List Reply) :
    let asked := prompts (i.run replies).events
    let said := exchanges asked replies
    let ended := (i.run replies).value
    (∀ (n : Nat) (prompt : Prompt), asked[n]? = some prompt →
      said[n]? = some (prompt, replies[n]?)) ∧
    ended.left = replies.drop asked.length ∧
    (asked.length ≤ replies.length ∨
      asked.length = replies.length + 1 ∧ ended.result = .error (.prompt i.spent)) ∧
    (∀ answers, ended.result = .ok answers →
      asked.length + ended.left.length = replies.length ∧
        (replies = [] → i.asksAnything = false)) ∧
    ((∃ key, i.given.overrides.conflict? = some key ∧ asked = [] ∧
        ended.result = .error (.flagConflict key)) ∨
      (i.given.overrides.conflict? = none ∧ ∃ rounds last offers, said = rounds.flatten ++ last ∧
        DeclinedRounds i (offersOf i.questionnaire) rounds offers ∧
        LastRound i offers ended.result last ∧
        ∀ round ∈ rounds, 2 ≤ round.length ∧ round.all Exchange.isReplied = true)) ∧
    (∀ earlier later, Pass i earlier later →
      later.replies.length + 2 ≤ earlier.replies.length ∧
        (i.rounds earlier.name earlier.flags earlier.replies).value.result =
          (i.rounds later.name later.flags later.replies).value.result) ∧
    WellFounded fun later earlier => Pass i earlier later := by
  intro asked said ended
  have passes : ∀ earlier later, Pass i earlier later →
      later.replies.length + 2 ≤ earlier.replies.length ∧
        (i.rounds earlier.name earlier.flags earlier.replies).value.result =
          (i.rounds later.name later.flags later.replies).value.result :=
    fun _ _ pass => ⟨pass.shorter, pass.result_rounds⟩
  refine ⟨fun n prompt => getElem?_exchanges, ?_⟩
  cases conflict : i.given.overrides.conflict? with
  | some key =>
    have run_eq : i.run replies = pure (.of replies (.error (.flagConflict key))) := by
      rw [run, conflict]
    have unasked : asked = [] := congrArg (fun r => prompts r.events) run_eq
    have result : ended.result = .error (.flagConflict key) :=
      congrArg (fun r => r.value.result) run_eq
    have left : ended.left = replies := congrArg (fun r => r.value.left) run_eq
    rw [unasked, result, left]
    refine ⟨rfl, .inl (Nat.zero_le _), fun answers ok => ?_, ?_, passes, Pass.wellFounded i⟩
    · cases ok
    · exact .inl ⟨key, rfl, rfl, rfl⟩
  | none =>
    obtain ⟨left, rounds, last, offers, split, declined, ends⟩ :=
      exists_rounds_run i replies conflict
    have length := length_of_rounds split declined ends
    refine ⟨left, length, fun answers ok => ?_, ?_, passes, Pass.wellFounded i⟩
    · rcases length with within | ⟨_, fails⟩
      · rw [ok] at ends
        refine ⟨?_, ends.silent_of_noReply split within⟩
        rw [left, List.length_drop]
        exact Nat.add_sub_cancel' within
      · cases ok.symm.trans fails
    · exact .inr ⟨rfl, rounds, last, offers, split, declined, ends, declined.two_le⟩

/-- A name that is refused, a round that is declined, and a reply that is not taken. -/
theorem run_replies_declined :
    let i : Interview :=
      { questionnaire := ⟨.standard, [], .ofList [("rest", ⟨"", true⟩)]⟩
        given := ⟨⟨none, [], []⟩, .null⟩
        interactive := true
        spent := .noReplyLeft }
    let replies : List Reply := [.text "-", .text "a", .bool true, .bool false, .text "b",
      .bool false, .bool true, .cancel]
    ∃ answers, (i.run replies).value.result = .ok answers ∧ answers.name = "b" ∧
      (prompts (i.run replies).events).length = 7 ∧ (i.run replies).value.left = [.cancel] ∧
      ∃ next, Pass i ⟨"", firstOffers i.questionnaire, replies⟩ next ∧ next.replies.length = 4 ∧
        (i.rounds "" (firstOffers i.questionnaire) replies).value.result =
          (i.rounds next.name next.flags next.replies).value.result := by
  intro i replies
  have name : (i.run replies).value.result.toOption.map Answers.name = some "b" := by
    decide +kernel
  have seven : (prompts (i.run replies).events).length = 7 := by decide +kernel
  let round := (i.collect "" (firstOffers i.questionnaire) replies).value
  have asks : round.result.toOption.map Collected.asked = some true := by decide +kernel
  have remain : round.left = [.bool false, .text "b", .bool false, .bool true, .cancel] := by
    decide +kernel
  obtain ⟨_, left, _, _, _, passes, _⟩ := run_replies i replies
  cases ended : (i.run replies).value.result with
  | error e =>
    rw [ended] at name
    exact nomatch name
  | ok answers =>
    rw [ended] at name
    refine ⟨answers, rfl, Option.some.inj name, seven, by rw [left, seven]; rfl, ?_⟩
    cases collected : round.result with
    | error e =>
      rw [collected] at asks
      exact nomatch asks
    | ok first =>
      rw [collected] at asks
      obtain ⟨declined, asked⟩ := first
      cases asks
      have pass : Pass i ⟨"", firstOffers i.questionnaire, replies⟩ _ :=
        .declined collected remain rfl
      exact ⟨_, pass, rfl, (passes _ _ pass).2⟩

end Interview

end Scaffold
