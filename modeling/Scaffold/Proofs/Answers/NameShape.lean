import Scaffold.Proofs.Answers.Names
import Scaffold.Proofs.Answers.Replies

/-! The shape of a project name, and what becomes of a text that has not got it. Where the text is
fixed before the first question, the interview fails without one. A reply is refused, and the same
question is put once more. -/

namespace Scaffold

namespace ProjectName

def IsLetterOrDigit (c : Char) : Prop :=
  ('a' ≤ c ∧ c ≤ 'z') ∨ ('A' ≤ c ∧ c ≤ 'Z') ∨ ('0' ≤ c ∧ c ≤ '9')

/-- An ASCII letter or digit, and behind it ASCII letters, digits, dots, underscores and hyphens. -/
def HasShape (name : String) : Prop :=
  ∃ first rest, name.toList = first :: rest ∧ IsLetterOrDigit first ∧
    ∀ c ∈ rest, IsLetterOrDigit c ∨ c = '.' ∨ c = '_' ∨ c = '-'

variable {text name : String}

theorem isAlphanum_iff (c : Char) : c.isAlphanum = true ↔ IsLetterOrDigit c := by
  have lower : c.isLower = true ↔ 'a' ≤ c ∧ c ≤ 'z' :=
    Bool.and_eq_true_iff.trans (and_congr decide_eq_true_iff decide_eq_true_iff)
  have upper : c.isUpper = true ↔ 'A' ≤ c ∧ c ≤ 'Z' := decide_eq_true_iff
  have digit : c.isDigit = true ↔ '0' ≤ c ∧ c ≤ '9' :=
    Bool.and_eq_true_iff.trans (and_congr decide_eq_true_iff decide_eq_true_iff)
  show ((c.isUpper || c.isLower) || c.isDigit) = true ↔ _
  rw [Bool.or_eq_true, Bool.or_eq_true, lower, upper, digit]
  unfold IsLetterOrDigit
  tauto

theorem isValid_iff : isValid name.toList = true ↔ HasShape name := by
  unfold HasShape
  cases name.toList with
  | nil => exact iff_of_false Bool.false_ne_true fun ⟨_, _, split, _⟩ => nomatch split
  | cons first rest =>
    simp only [isValid, isFirstChar, isLaterChar, Bool.and_eq_true, List.all_eq_true,
      Bool.or_eq_true, beq_iff_eq, isAlphanum_iff, or_assoc]
    constructor
    · rintro ⟨begins, later⟩
      exact ⟨first, rest, rfl, begins, later⟩
    · rintro ⟨_, _, split, begins, later⟩
      cases split
      exact ⟨begins, later⟩

theorem read_eq_ok_iff :
    read text = .ok name ↔ HasShape (trimmed text) ∧ name = trimmed text := by
  unfold read
  dsimp only
  rw [← isValid_iff]
  split_ifs with empty valid
  · rw [empty]
    exact iff_of_false (fun same => nomatch same) fun found => nomatch found.1
  · rw [Except.ok.injEq, eq_comm, and_iff_right valid]
  · exact iff_of_false (fun same => nomatch same) fun found => valid found.1

theorem read_eq_error (shapeless : ¬ HasShape (trimmed text)) :
    ∃ e, read text = .error e ∧ e.kind = .validation := by
  unfold read
  dsimp only
  split_ifs with empty valid
  · exact ⟨_, rfl, rfl⟩
  · exact absurd (isValid_iff.1 valid) shapeless
  · exact ⟨_, rfl, rfl⟩

end ProjectName

namespace Interview

open ProjectName

variable {i : Interview} {offered : String} {offers : Table Bool} {said more : List Exchange}

/-- The text that is fixed for the name before the first question: that of an override, else one
that is preloaded, else the one on offer if nothing may be asked. -/
inductive NameInEffect (i : Interview) : String → Prop
  | override {name : String} (given : i.given.overrides.name = some name) : NameInEffect i name
  | preloaded {name : String} (unset : i.given.overrides.name = none)
      (given : i.given.preloaded.member? Answers.nameKey = some (.string name)) :
      NameInEffect i name
  | offered (unknown : i.given.name? = none) (silent : i.interactive = false) :
      NameInEffect i (i.questionnaire.name.offered.getD "")

theorem name?_eq_some_iff {name : String} :
    i.given.name? = some name ↔
      i.given.overrides.name = some name ∨ (i.given.overrides.name = none ∧
        i.given.preloaded.member? Answers.nameKey = some (.string name)) := by
  have preloaded : Preloaded.name? i.given.preloaded = some name ↔
      i.given.preloaded.member? Answers.nameKey = some (.string name) := by
    rw [Preloaded.name?, Option.bind_eq_some_iff]
    constructor
    · rintro ⟨value, found, isString⟩
      cases value with
      | string text =>
        cases isString
        exact found
      | _ => exact nomatch isString
    · exact fun found => ⟨_, found, rfl⟩
  rw [Given.name?, Option.or_eq_some_iff, preloaded]

theorem nameInEffect_iff {name : String} :
    NameInEffect i name ↔
      i.asksName = false ∧ name = i.given.name?.getD (i.questionnaire.name.offered.getD "") := by
  constructor
  · intro inEffect
    have given : i.given.name? = some name →
        i.asksName = false ∧ name = i.given.name?.getD (i.questionnaire.name.offered.getD "") := by
      intro known
      rw [asksName, known]
      exact ⟨Bool.and_false _, rfl⟩
    cases inEffect with
    | override found => exact given (name?_eq_some_iff.2 (.inl found))
    | preloaded unnamed found => exact given (name?_eq_some_iff.2 (.inr ⟨unnamed, found⟩))
    | offered unknown silent =>
      rw [asksName, unknown, silent]
      exact ⟨rfl, rfl⟩
  · rintro ⟨settled, rfl⟩
    cases known : i.given.name? with
    | none =>
      rw [asksName, known, Option.isNone_none, Bool.and_true] at settled
      exact .offered known settled
    | some name =>
      rcases name?_eq_some_iff.1 known with found | ⟨unnamed, found⟩
      · exact .override found
      · exact .preloaded unnamed found

/-- A round for which no name is read ends without a question. -/
theorem Round.of_nameless {result : Except Error (Collected Answers)} {e : Error}
    (silent : i.asksName = false)
    (refuses : ProjectName.read (i.given.name?.getD offered) = .error e)
    (round : Round i offered offers result said) : result = .error e ∧ said = [] := by
  have fails : ∀ {chosen : Except Error (Collected String)} {front : List Exchange},
      NameSettled i offered chosen front → chosen = .error e ∧ front = [] := by
    intro chosen front settled
    rcases settled.cases_asksName with ⟨_, rfl, rfl⟩ | ⟨asks, _⟩
    · exact ⟨by rw [refuses]; rfl, rfl⟩
    · exact nomatch silent.symm.trans asks
  cases round with
  | unnamed name =>
    obtain ⟨same, rfl⟩ := fails name
    cases same
    exact ⟨rfl, rfl⟩
  | unflagged name | collected name => exact nomatch (fails name).1

theorem Session.of_nameless {result : Except Error Answers} {e : Error}
    (silent : i.asksName = false)
    (refuses : ProjectName.read (i.given.name?.getD offered) = .error e)
    (session : Session i offered offers result said) : result = .error e ∧ said = [] := by
  cases session with
  | failed round =>
    obtain ⟨same, rfl⟩ := round.of_nameless silent refuses
    cases same
    exact ⟨rfl, rfl⟩
  | unasked round | unconfirmed round | accepted round | declined round =>
    exact nomatch (round.of_nameless silent refuses).1

/-- A text that is fixed for the name and has not got its shape ends the interview before the first
question. -/
theorem run_of_nameless {replies : List Reply} {name : String} (inEffect : NameInEffect i name)
    (shapeless : ¬ HasShape (trimmed name)) :
    ∃ e, (i.run replies).value.result = .error e ∧ e.kind = .validation ∧
      prompts (i.run replies).events = [] ∧ (i.run replies).value.left = replies := by
  obtain ⟨silent, rfl⟩ := nameInEffect_iff.1 inEffect
  obtain ⟨e, refuses, kind⟩ := read_eq_error shapeless
  cases conflict : i.given.overrides.conflict? with
  | some key =>
    rw [run, conflict]
    exact ⟨_, rfl, rfl, rfl, rfl⟩
  | none =>
    obtain ⟨said, session, took⟩ := exists_session_run i replies conflict
    obtain ⟨same, rfl⟩ := session.of_nameless silent refuses
    have unasked : prompts (i.run replies).events = [] := by
      rw [← List.length_eq_zero_iff, ← length_exchanges _ replies, ← took.said_eq]
      rfl
    have left := took.left_eq
    rw [unasked] at left
    exact ⟨e, same, kind, unasked, left⟩

/-- Every reply that has not got the shape of a name is followed by the same question. -/
def AsksAgain (said : List Exchange) : Prop :=
  ∀ front question offered text back,
    said = front ++ (.text question offered, some (.text text)) :: back →
      ¬ HasShape (trimmed text) → ∃ reply later, back = (.text question offered, reply) :: later

theorem asksAgain_nil : AsksAgain [] := by
  intro front question offered text back split
  exact absurd split.symm (by simp)

theorem AsksAgain.append (first : AsksAgain said) (second : AsksAgain more) :
    AsksAgain (said ++ more) := by
  intro front question offered text back split shapeless
  rcases List.append_eq_append_iff.1 split with ⟨gap, rfl, inside⟩ | ⟨gap, rfl, behind⟩
  · exact second gap question offered text back inside shapeless
  · cases gap with
    | nil => exact second [] question offered text back behind.symm shapeless
    | cons exchange gap =>
      obtain ⟨rfl, rfl⟩ := List.cons.inj behind
      obtain ⟨reply, later, rfl⟩ := first front question offered text gap rfl shapeless
      exact ⟨reply, later ++ more, rfl⟩

theorem AsksAgain.cons {exchange : Exchange}
    (here : ∀ question offered text, exchange = (.text question offered, some (.text text)) →
      ¬ HasShape (trimmed text) → ∃ reply later, said = (.text question offered, reply) :: later)
    (behind : AsksAgain said) : AsksAgain (exchange :: said) := by
  intro front question offered text back split shapeless
  cases front with
  | nil =>
    obtain ⟨same, rfl⟩ := List.cons.inj split
    exact here question offered text same shapeless
  | cons first front =>
    obtain ⟨_, rfl⟩ := List.cons.inj split
    exact behind front question offered text back rfl shapeless

theorem asksAgain_confirm {question : String} {value : Bool} {reply : Option Reply}
    (behind : AsksAgain said) : AsksAgain ((.confirm question value, reply) :: said) :=
  .cons (fun _ _ _ same => nomatch same) behind

theorem NameAsked.exists_cons {spent : PromptFault} {question : String}
    {result : Except Error String} (asked : NameAsked spent question offered result said) :
    ∃ reply later, said = (.text question offered, reply) :: later := by
  cases asked with
  | failed | accepted | rejected => exact ⟨_, _, rfl⟩

theorem NameAsked.asksAgain {spent : PromptFault} {question : String}
    {result : Except Error String} (asked : NameAsked spent question offered result said) :
    AsksAgain said := by
  induction asked with
  | failed fails =>
    refine .cons (fun _ _ text same _ => ?_) asksAgain_nil
    cases same
    exact nomatch fails
  | accepted hears reads =>
    refine .cons (fun _ _ text same shapeless => ?_) asksAgain_nil
    cases same
    cases hears
    exact absurd (read_eq_ok_iff.1 reads).1 shapeless
  | rejected hears refuses again ih =>
    refine .cons (fun _ _ text same _ => ?_) ih
    cases same
    exact again.exists_cons

theorem NameSettled.asksAgain {result : Except Error (Collected String)}
    (settled : NameSettled i offered result said) : AsksAgain said := by
  cases settled with
  | given | offered => exact asksAgain_nil
  | asked _ _ asks => exact asks.asksAgain

theorem FlagsSettled.asksAgain {questions : List (String × FlagQuestion)}
    {result : Except Error (Collected (List (String × Bool)))}
    (settled : FlagsSettled i offers questions result said) : AsksAgain said := by
  induction settled with
  | nil => exact asksAgain_nil
  | given _ _ ih | offered _ _ _ ih => exact ih
  | failed => exact asksAgain_confirm asksAgain_nil
  | asked _ _ _ _ ih => exact asksAgain_confirm ih

theorem Round.asksAgain {result : Except Error (Collected Answers)}
    (round : Round i offered offers result said) : AsksAgain said := by
  cases round with
  | unnamed name => exact name.asksAgain
  | unflagged name flags | collected name flags => exact name.asksAgain.append flags.asksAgain

theorem Session.asksAgain {result : Except Error Answers}
    (session : Session i offered offers result said) : AsksAgain said := by
  induction session with
  | failed round | unasked round => exact round.asksAgain
  | unconfirmed round | accepted round =>
    exact round.asksAgain.append (asksAgain_confirm asksAgain_nil)
  | declined round _ _ ih => exact round.asksAgain.append (asksAgain_confirm ih)

theorem asksAgain_run (i : Interview) (replies : List Reply) :
    AsksAgain (exchanges (prompts (i.run replies).events) replies) := by
  cases conflict : i.given.overrides.conflict? with
  | some key =>
    rw [run, conflict]
    exact asksAgain_nil
  | none =>
    obtain ⟨said, session, took⟩ := exists_session_run i replies conflict
    rw [← took.said_eq]
    exact session.asksAgain

theorem LastRound.exists_turn {offers : Offers} {answers : Answers}
    (ends : LastRound i offers (.ok answers) said) : ∃ turn : Turn, turn.Fits i offers ∧
      answers = turn.answers i ∧ ∀ exchange ∈ turn.exchanges i offers, exchange ∈ said := by
  cases ends with
  | silent turn fits silent =>
    refine ⟨turn, fits, rfl, ?_⟩
    rw [turn.exchanges_of_silent silent]
    exact List.forall_mem_nil _
  | accepted turn fits =>
    exact ⟨turn, fits, rfl, fun _ member => List.mem_append_left _ member⟩

/-- The name that an interview ends with is the text that was fixed for it, or a reply to the
question for it, without the blanks around it. -/
theorem exists_source_of_run {replies : List Reply} {answers : Answers}
    (ended : (i.run replies).value.result = .ok answers) :
    (∃ text, NameInEffect i text ∧ answers.name = trimmed text) ∨
      (i.asksName = true ∧ ∃ offered text,
        (.text i.questionnaire.name.help offered, some (.text text)) ∈
          exchanges (prompts (i.run replies).events) replies ∧ answers.name = trimmed text) := by
  obtain ⟨said, _, session, took⟩ := exists_session_of_ok ended
  obtain ⟨rounds, last, offers, split, declined, ends⟩ :=
    Session.exists_rounds (holds_offersOf i.questionnaire rfl) session
  obtain ⟨turn, fits, rfl, within⟩ := ends.exists_turn
  have name : turn.name = trimmed turn.reply := (read_eq_ok_iff.1 turn.reads).2
  cases asks : i.asksName with
  | false =>
    refine .inl ⟨turn.reply, nameInEffect_iff.2 ⟨asks, ?_⟩, name⟩
    rw [fits.name asks]
    cases known : i.given.name? with
    | some text => rfl
    | none =>
      -- Nothing may be asked, so this is the first round.
      rw [asksName, known, Option.isNone_none, Bool.and_true] at asks
      have silent : i.asksAnything = false := by simp [asksAnything, asksName, askedFlags, asks]
      rw [(declined.of_silent silent).2]
      rfl
  | true =>
    refine .inr ⟨rfl, offers.name, turn.reply, ?_, name⟩
    rw [← took.said_eq, split]
    apply List.mem_append_right
    apply within
    rw [turn.exchanges_of_asksName asks]
    exact List.mem_append_right _ List.mem_cons_self

end Interview

end Scaffold
