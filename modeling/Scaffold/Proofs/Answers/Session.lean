import Mathlib.Tactic.Common
import Scaffold.Proofs.Answers.Given
import Scaffold.Proofs.Except

/-! The protocol of an interview: the questions of a round in their order, the answers they
offer, what is made of the replies, and how a session ends. Every run is such a session, in which
the first question takes the first reply, and so on. -/

namespace Scaffold

abbrev Exchange := Prompt × Option Reply

def exchanges : List Prompt → List Reply → List Exchange
  | [], _ => []
  | prompt :: later, replies => (prompt, replies.head?) :: exchanges later replies.tail

theorem exchanges_append (first second : List Prompt) (replies : List Reply) :
    exchanges (first ++ second) replies =
      exchanges first replies ++ exchanges second (replies.drop first.length) := by
  induction first generalizing replies with
  | nil => rfl
  | cons prompt later ih =>
    rw [List.cons_append, exchanges, exchanges, ih, List.length_cons, ← List.drop_tail]
    rfl

structure Took (replies : List Reply) (events : List Event) (said : List Exchange)
    (left : List Reply) : Prop where
  said_eq : said = exchanges (prompts events) replies
  left_eq : left = replies.drop (prompts events).length

namespace Took

variable {replies mid left : List Reply} {events later : List Event} {said more : List Exchange}

theorem append (first : Took replies events said mid) (second : Took mid later more left) :
    Took replies (events ++ later) (said ++ more) left where
  said_eq := by
    rw [prompts_append, exchanges_append, ← first.left_eq, ← first.said_eq, ← second.said_eq]
  left_eq := by
    rw [second.left_eq, first.left_eq, prompts_append, List.drop_drop, List.length_append]

theorem of_quiet (quiet : prompts events = []) : Took replies events [] replies :=
  ⟨by rw [quiet]; rfl, by rw [quiet]; rfl⟩

theorem after_quiet (quiet : prompts events = []) (rest : Took replies later said left) :
    Took replies (events ++ later) said left :=
  (of_quiet quiet).append rest

theorem before_quiet (first : Took replies events said left) (quiet : prompts later = []) :
    Took replies (events ++ later) said left := by
  have both := first.append (of_quiet quiet)
  rwa [List.append_nil] at both

theorem single {prompt : Prompt} (asked : prompts events = [prompt]) :
    Took replies events [(prompt, replies.head?)] replies.tail :=
  ⟨by rw [asked]; rfl, by rw [asked]; exact List.drop_one.symm⟩

end Took

namespace Interview

def heard {α : Type} (spent : PromptFault) (read : Reply → Except Error α) :
    Option Reply → Except Error α
  | none => .error (.prompt spent)
  | some reply => read reply

inductive NameAsked (spent : PromptFault) (question offered : String) :
    Except Error String → List Exchange → Prop
  | failed {reply : Option Reply} {e : Error} (fails : heard spent Reply.words reply = .error e) :
      NameAsked spent question offered (.error e) [(.text question offered, reply)]
  | accepted {reply : Option Reply} {text name : String}
      (hears : heard spent Reply.words reply = .ok text)
      (reads : ProjectName.read text = .ok name) :
      NameAsked spent question offered (.ok name) [(.text question offered, reply)]
  | rejected {reply : Option Reply} {text : String} {e : Error} {result : Except Error String}
      {said : List Exchange} (hears : heard spent Reply.words reply = .ok text)
      (refuses : ProjectName.read text = .error e)
      (again : NameAsked spent question offered result said) :
      NameAsked spent question offered result ((.text question offered, reply) :: said)

inductive NameSettled (i : Interview) (offered : String) :
    Except Error (Collected String) → List Exchange → Prop
  | given {text : String} (known : i.given.name? = some text) :
      NameSettled i offered ((ProjectName.read text).map fun name => ⟨name, false⟩) []
  | asked {result : Except Error String} {said : List Exchange} (unknown : i.given.name? = none)
      (may : i.interactive = true)
      (asks : NameAsked i.spent i.questionnaire.name.help offered result said) :
      NameSettled i offered (result.map fun name => ⟨name, true⟩) said
  | offered (unknown : i.given.name? = none) (may : i.interactive = false) :
      NameSettled i offered ((ProjectName.read offered).map fun name => ⟨name, false⟩) []

inductive FlagsSettled (i : Interview) (offers : Table Bool) :
    List (String × FlagQuestion) → Except Error (Collected (List (String × Bool))) →
      List Exchange → Prop
  | nil : FlagsSettled i offers [] (.ok ⟨[], false⟩) []
  | given {key : String} {question : FlagQuestion} {rest : List (String × FlagQuestion)}
      {value : Bool} {result : Except Error (Collected (List (String × Bool)))}
      {said : List Exchange} (known : i.given.answer? key = some value)
      (more : FlagsSettled i offers rest result said) :
      FlagsSettled i offers ((key, question) :: rest) (result.map (addFlag key value false)) said
  | offered {key : String} {question : FlagQuestion} {rest : List (String × FlagQuestion)}
      {result : Except Error (Collected (List (String × Bool)))} {said : List Exchange}
      (unknown : i.given.answer? key = none) (may : i.interactive = false)
      (more : FlagsSettled i offers rest result said) :
      FlagsSettled i offers ((key, question) :: rest)
        (result.map (addFlag key ((offers.get? key).getD false) false)) said
  | failed {key : String} {question : FlagQuestion} {rest : List (String × FlagQuestion)}
      {reply : Option Reply} {e : Error} (unknown : i.given.answer? key = none)
      (may : i.interactive = true) (fails : heard i.spent Reply.truth reply = .error e) :
      FlagsSettled i offers ((key, question) :: rest) (.error e)
        [(.confirm (question.prompt key) ((offers.get? key).getD false), reply)]
  | asked {key : String} {question : FlagQuestion} {rest : List (String × FlagQuestion)}
      {reply : Option Reply} {value : Bool}
      {result : Except Error (Collected (List (String × Bool)))} {said : List Exchange}
      (unknown : i.given.answer? key = none) (may : i.interactive = true)
      (hears : heard i.spent Reply.truth reply = .ok value)
      (more : FlagsSettled i offers rest result said) :
      FlagsSettled i offers ((key, question) :: rest) (result.map (addFlag key value true))
        ((.confirm (question.prompt key) ((offers.get? key).getD false), reply) :: said)

/-- A round: the name, then the declared flags; the undeclared ones are not asked for. -/
inductive Round (i : Interview) (offered : String) (offers : Table Bool) :
    Except Error (Collected Answers) → List Exchange → Prop
  | unnamed {e : Error} {said : List Exchange} (name : NameSettled i offered (.error e) said) :
      Round i offered offers (.error e) said
  | unflagged {chosen : Collected String} {e : Error} {said more : List Exchange}
      (name : NameSettled i offered (.ok chosen) said)
      (flags : FlagsSettled i offers i.questionnaire.flags.entries (.error e) more) :
      Round i offered offers (.error e) (said ++ more)
  | collected {chosen : Collected String} {declared : Collected (List (String × Bool))}
      {said more : List Exchange} (name : NameSettled i offered (.ok chosen) said)
      (flags : FlagsSettled i offers i.questionnaire.flags.entries (.ok declared) more) :
      Round i offered offers
        (.ok ⟨⟨chosen.value, .ofList (declared.value ++
          i.given.undeclared (i.given.undeclaredKeys i.questionnaire))⟩,
          chosen.asked || declared.asked⟩) (said ++ more)

/-- Rounds until one has nothing to ask or its answers are confirmed. A round behind another
offers the answers of that one. -/
inductive Session (i : Interview) :
    String → Table Bool → Except Error Answers → List Exchange → Prop
  | failed {offered : String} {offers : Table Bool} {e : Error} {said : List Exchange}
      (round : Round i offered offers (.error e) said) : Session i offered offers (.error e) said
  | unasked {offered : String} {offers : Table Bool} {answers : Answers} {said : List Exchange}
      (round : Round i offered offers (.ok ⟨answers, false⟩) said) :
      Session i offered offers (.ok answers) said
  | unconfirmed {offered : String} {offers : Table Bool} {answers : Answers}
      {said : List Exchange} {reply : Option Reply} {e : Error}
      (round : Round i offered offers (.ok ⟨answers, true⟩) said)
      (fails : heard i.spent Reply.truth reply = .error e) :
      Session i offered offers (.error e) (said ++ [(.confirm confirmation true, reply)])
  | accepted {offered : String} {offers : Table Bool} {answers : Answers} {said : List Exchange}
      {reply : Option Reply} (round : Round i offered offers (.ok ⟨answers, true⟩) said)
      (hears : heard i.spent Reply.truth reply = .ok true) :
      Session i offered offers (.ok answers) (said ++ [(.confirm confirmation true, reply)])
  | declined {offered : String} {offers : Table Bool} {answers : Answers}
      {said more : List Exchange} {reply : Option Reply} {result : Except Error Answers}
      (round : Round i offered offers (.ok ⟨answers, true⟩) said)
      (hears : heard i.spent Reply.truth reply = .ok false)
      (next : Session i answers.name (offers.extend answers.flags) result more) :
      Session i offered offers result
        (said ++ (.confirm confirmation true, reply) :: more)

theorem exists_nameAsked (spent : PromptFault) (question offered : String)
    (replies : List Reply) : ∃ said,
      NameAsked spent question offered (askName spent question offered replies).value.result said ∧
      Took replies (askName spent question offered replies).events said
        (askName spent question offered replies).value.left := by
  induction replies with
  | nil =>
    have fails : heard spent Reply.words none = .error (.prompt spent) := rfl
    exact ⟨_, .failed fails, .single rfl⟩
  | cons reply rest ih =>
    have first : Took (reply :: rest) [.asked (.text question offered)] _ rest := .single rfl
    rw [askName, Recorded.value_bind, Recorded.events_bind]
    cases worded : reply.words with
    | error e =>
      have fails : heard spent Reply.words (some reply) = .error e := worded
      exact ⟨_, .failed fails, first⟩
    | ok text =>
      have hears : heard spent Reply.words (some reply) = .ok text := worded
      dsimp only
      cases reads : ProjectName.read text with
      | ok name => exact ⟨_, .accepted hears reads, first⟩
      | error e =>
        obtain ⟨said, asks, took⟩ := ih
        refine ⟨_, .rejected hears reads asks, first.append ?_⟩
        rw [Recorded.events_bind, Recorded.events_bind]
        exact (took.before_quiet rfl).after_quiet rfl

theorem exists_nameSettled (i : Interview) (offered : String) (replies : List Reply) : ∃ said,
    NameSettled i offered (i.collectName offered replies).value.result said ∧
      Took replies (i.collectName offered replies).events said
        (i.collectName offered replies).value.left := by
  unfold collectName
  cases known : i.given.name? with
  | some text =>
    dsimp only [Recorded.value_pure, Outcome.of]
    exact ⟨[], .given known, .of_quiet rfl⟩
  | none =>
    cases may : i.interactive with
    | false =>
      rw [if_neg Bool.false_ne_true]
      dsimp only [Recorded.value_pure, Outcome.of]
      exact ⟨[], .offered known may, .of_quiet rfl⟩
    | true =>
      obtain ⟨said, asks, took⟩ :=
        exists_nameAsked i.spent i.questionnaire.name.help offered replies
      exact ⟨said, .asked known may asks, took.before_quiet rfl⟩

theorem result_confirm (spent : PromptFault) (question : String) (offered : Bool)
    (replies : List Reply) : (confirm spent question offered replies).value.result =
      heard spent Reply.truth replies.head? := by
  cases replies <;> rfl

theorem took_confirm (spent : PromptFault) (question : String) (offered : Bool)
    (replies : List Reply) : Took replies (confirm spent question offered replies).events
      [(.confirm question offered, replies.head?)]
      (confirm spent question offered replies).value.left := by
  cases replies <;> exact .single rfl

theorem exists_flagsSettled (i : Interview) (offers : Table Bool)
    (questions : List (String × FlagQuestion)) (replies : List Reply) : ∃ said,
    FlagsSettled i offers questions (i.collectFlags offers questions replies).value.result said ∧
      Took replies (i.collectFlags offers questions replies).events said
        (i.collectFlags offers questions replies).value.left := by
  induction questions generalizing replies with
  | nil => exact ⟨[], .nil, .of_quiet rfl⟩
  | cons entry rest ih =>
    obtain ⟨key, question⟩ := entry
    have quiet := i.given.prompts_flag? key
    rw [collectFlags, Recorded.value_bind, Recorded.events_bind, Given.value_flag?]
    cases known : i.given.answer? key with
    | some value =>
      obtain ⟨said, more, took⟩ := ih replies
      exact ⟨said, .given known more, (took.before_quiet rfl).after_quiet quiet⟩
    | none =>
      cases may : i.interactive with
      | false =>
        obtain ⟨said, more, took⟩ := ih replies
        exact ⟨said, .offered known may more, (took.before_quiet rfl).after_quiet quiet⟩
      | true =>
        let offered := (offers.get? key).getD false
        have told := took_confirm i.spent (question.prompt key) offered replies
        have heard := result_confirm i.spent (question.prompt key) offered replies
        rw [if_pos rfl, Recorded.value_bind, Recorded.events_bind]
        generalize confirm i.spent (question.prompt key) offered replies = answer at told heard ⊢
        cases result : answer.value.result with
        | error e =>
          exact ⟨_, .failed known may (heard.symm.trans result),
            (told.before_quiet rfl).after_quiet quiet⟩
        | ok value =>
          obtain ⟨said, more, took⟩ := ih answer.value.left
          exact ⟨_, .asked known may (heard.symm.trans result) more,
            (told.append (took.before_quiet rfl)).after_quiet quiet⟩

theorem exists_round (i : Interview) (offered : String) (offers : Table Bool)
    (replies : List Reply) : ∃ said,
    Round i offered offers (i.collect offered offers replies).value.result said ∧
      Took replies (i.collect offered offers replies).events said
        (i.collect offered offers replies).value.left := by
  obtain ⟨said, settled, took⟩ := exists_nameSettled i offered replies
  rw [collect, Recorded.value_bind, Recorded.events_bind]
  generalize i.collectName offered replies = name at settled took ⊢
  cases named : name.value.result with
  | error e => exact ⟨said, .unnamed (named ▸ settled), took.before_quiet rfl⟩
  | ok chosen =>
    rw [named] at settled
    obtain ⟨more, answered, told⟩ :=
      exists_flagsSettled i offers i.questionnaire.flags.entries name.value.left
    dsimp only
    rw [Recorded.value_bind, Recorded.events_bind]
    generalize i.collectFlags offers i.questionnaire.flags.entries name.value.left = flags
      at answered told ⊢
    refine ⟨said ++ more, ?_⟩
    cases collected : flags.value.result with
    | error e =>
      exact ⟨.unflagged settled (collected ▸ answered), took.append (told.before_quiet rfl)⟩
    | ok declared =>
      have round := Round.collected settled (collected ▸ answered)
      rw [← Given.value_undeclaredFlags] at round
      have quiet := i.given.prompts_undeclaredFlags (i.given.undeclaredKeys i.questionnaire)
      refine ⟨round, took.append (told.before_quiet ?_)⟩
      rw [Recorded.events_bind, prompts_append, quiet]
      rfl

theorem exists_session (i : Interview) (offered : String) (offers : Table Bool)
    (replies : List Reply) : ∃ said,
    Session i offered offers (i.rounds offered offers replies).value.result said ∧
      Took replies (i.rounds offered offers replies).events said
        (i.rounds offered offers replies).value.left := by
  fun_induction rounds i offered offers replies with
  | case1 offered offers replies ih =>
    obtain ⟨said, round, took⟩ := exists_round i offered offers replies
    rw [Recorded.value_bind, Recorded.events_bind]
    generalize i.collect offered offers replies = collected at round took ⊢
    obtain ⟨⟨result, left, shorter⟩, events⟩ := collected
    cases result with
    | error e => exact ⟨said, .failed round, took.before_quiet rfl⟩
    | ok collected =>
      obtain ⟨answers, asked⟩ := collected
      cases asked with
      | false => exact ⟨said, .unasked round, took.before_quiet rfl⟩
      | true =>
        dsimp only
        simp only [Recorded.value_bind, Recorded.events_bind]
        cases left with
        | nil =>
          have fails : heard i.spent Reply.truth none = .error (.prompt i.spent) := rfl
          exact ⟨_, .unconfirmed round fails, took.append (.after_quiet rfl (.single rfl))⟩
        | cons reply later =>
          have last : Took (reply :: later) [.asked (.confirm confirmation true)] _ later :=
            .single rfl
          dsimp only
          cases told : reply.truth with
          | error e =>
            have fails : heard i.spent Reply.truth (some reply) = .error e := told
            exact ⟨_, .unconfirmed round fails, took.append (last.after_quiet rfl)⟩
          | ok confirmed =>
            have hears : heard i.spent Reply.truth (some reply) = .ok confirmed := told
            cases confirmed with
            | true => exact ⟨_, .accepted round hears, took.append (last.after_quiet rfl)⟩
            | false =>
              obtain ⟨more, next, rest⟩ := ih answers reply later shorter
              refine ⟨_, .declined round hears next, took.append ?_⟩
              exact (last.append (rest.before_quiet rfl)).after_quiet rfl

/-- What a run asks, in order, and how it ends is a session of the protocol, unless a flag is
enabled and disabled at once. -/
theorem exists_session_run (i : Interview) (replies : List Reply)
    (apart : i.given.overrides.conflict? = none) : ∃ said,
    Session i (i.questionnaire.name.offered.getD "") (firstOffers i.questionnaire)
        (i.run replies).value.result said ∧
      Took replies (i.run replies).events said (i.run replies).value.left := by
  obtain ⟨said, session, took⟩ := exists_session i (i.questionnaire.name.offered.getD "")
    (firstOffers i.questionnaire) replies
  rw [run, apart]
  exact ⟨said, session, took.after_quiet (i.given.prompts_noteUndeclared i.questionnaire)⟩

theorem exists_session_of_ok {i : Interview} {replies : List Reply} {answers : Answers}
    (ended : (i.run replies).value.result = .ok answers) : ∃ said,
    i.given.overrides.conflict? = none ∧
      Session i (i.questionnaire.name.offered.getD "") (firstOffers i.questionnaire)
        (.ok answers) said ∧
      Took replies (i.run replies).events said (i.run replies).value.left := by
  cases conflict : i.given.overrides.conflict? with
  | some key =>
    rw [run, conflict] at ended
    exact nomatch ended
  | none =>
    obtain ⟨said, session, took⟩ := exists_session_run i replies conflict
    exact ⟨said, rfl, ended ▸ session, took⟩

end Interview

end Scaffold
