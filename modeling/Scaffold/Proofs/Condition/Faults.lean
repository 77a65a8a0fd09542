import Mathlib.Algebra.GroupWithZero.Nat
import Scaffold.Proofs.Condition.Grammar
import Scaffold.Proofs.Condition.Lookups

/-! What is wrong with a condition, found in one pass over its tokens from left to right. The pass
counts the open parentheses and the `NOT`s before each of them and looks at one token and the one
before it. Reading goal by goal meets the same faults: a token that cannot follow a complete
condition stops every goal and is what is left in the end, and a parenthesis or a `NOT` that
stands too deep fails at once. -/

namespace Scaffold.Condition

def Token.nests : Token → Bool
  | .opening | .not => true
  | _ => false

/-- What is known between two tokens. -/
structure Place where
  /-- For each parenthesis that is open, the innermost first, the `NOT`s directly before it. -/
  outer : List Nat
  nots : Nat
  last : Option Token

namespace Place

def start : Place := ⟨[], 0, none⟩

def after (p : Place) : Token → Place
  | .not => ⟨p.outer, p.nots + 1, some .not⟩
  | .opening => ⟨p.nots :: p.outer, 0, some .opening⟩
  | .closing => ⟨p.outer.tail, 0, some .closing⟩
  | t => ⟨p.outer, 0, some t⟩

def depth (p : Place) : Nat := p.outer.length + p.outer.sum + p.nots

def misplaces (p : Place) : Token → Bool
  | .opening | .not => p.last == some .closing || p.last.any Token.isWord
  | .word _ => p.last == some .closing
  | .closing => p.outer.isEmpty
  | .and | .or => false

def fault? (p : Place) (t : Token) : Option ParseError :=
  if p.misplaces t then some (.trailing t)
  else if t.nests && p.depth == maxDepth then some .tooDeep
  else none

end Place

def firstFault? (p : Place) : List Token → Option ParseError
  | [] => none
  | t :: rest =>
    match p.fault? t with
    | some e => some e
    | none => firstFault? (p.after t) rest

def Place.Free (p : Place) : Prop := p.last ≠ some .closing ∧ ∀ t ∈ p.last, t.isWord = false

def Place.AfterWord (p : Place) : Prop := ∃ t, p.last = some t ∧ t.isWord = true

structure Place.Begins (outer : List Nat) (depth : Nat) (p : Place) : Prop where
  outer_eq : p.outer = outer
  nots_eq : p.nots = 0
  depth_eq : p.depth = depth
  free : p.Free

/-- Behind an operand stands the end, a token that goes on with the condition or closes it inside
the same parentheses, or a token that has no place there. -/
inductive Place.Behind (outer : List Nat) (p : Place) : List Lexeme → Prop where
  | done : Behind outer p []
  | ends {lexeme : Lexeme} {rest : List Lexeme}
      (kind : lexeme.token = .and ∨ lexeme.token = .or ∨ lexeme.token = .closing)
      (same : p.outer = outer) : Behind outer p (lexeme :: rest)
  | stuck {lexeme : Lexeme} {rest : List Lexeme} (notClosing : lexeme.token ≠ .closing)
      (misplaced : p.misplaces lexeme.token = true) : Behind outer p (lexeme :: rest)

def Goal.At (outer : List Nat) (depth : Nat) (p : Place) (input : List Lexeme) : Goal → Prop
  | .disjunction | .conjunction => p.Begins outer depth
  | .moreDisjuncts _ | .moreConjuncts _ => p.Behind outer input ∧ outer.length + outer.sum = depth
  | .operand => p.outer = outer ∧ p.depth = depth ∧ p.Free

section Steps

variable {outer : List Nat} {depth : Nat} {p : Place} {lexeme : Lexeme} {input : List Lexeme}

theorem firstFault?_cons_of_none {t : Token} {rest : List Token} (faultless : p.fault? t = none) :
    firstFault? p (t :: rest) = firstFault? (p.after t) rest := by
  rw [firstFault?, faultless]

theorem firstFault?_cons_of_some {t : Token} {rest : List Token} {e : ParseError}
    (faulty : p.fault? t = some e) : firstFault? p (t :: rest) = e := by
  rw [firstFault?, faulty]

theorem Place.fault?_of_misplaces {t : Token} (misplaced : p.misplaces t = true) :
    p.fault? t = some (.trailing t) := by
  rw [fault?, if_pos misplaced]

theorem Place.Free.not_misplaces (free : p.Free) {t : Token} (other : t ≠ .closing) :
    p.misplaces t = false := by
  obtain ⟨notClosing, notWord⟩ := free
  have noWord : p.last.any Token.isWord = false := by
    cases last : p.last with
    | none => rfl
    | some t => exact notWord t (last ▸ rfl)
  cases t <;> simp_all [misplaces]

theorem Place.Free.fault?_eq_none (free : p.Free) {t : Token} (other : t ≠ .closing)
    (shallow : p.depth < maxDepth) : p.fault? t = none := by
  rw [fault?, free.not_misplaces other]
  simp [Nat.ne_of_lt shallow]

theorem Place.Free.fault?_eq_tooDeep (free : p.Free) {t : Token} (nests : t.nests = true)
    (deep : p.depth = maxDepth) : p.fault? t = some .tooDeep := by
  have other : t ≠ .closing := by
    rintro rfl
    exact nomatch nests
  rw [fault?, free.not_misplaces other]
  simp [nests, deep]

theorem Place.Begins.operand (begins : p.Begins outer depth) :
    Goal.operand.At outer depth p input :=
  ⟨begins.outer_eq, begins.depth_eq, begins.free⟩

theorem Place.Begins.level (begins : p.Begins outer depth) :
    outer.length + outer.sum = depth := by
  rw [← begins.depth_eq, Place.depth, begins.outer_eq, begins.nots_eq, Nat.add_zero]

theorem Place.Behind.join (behind : p.Behind outer (lexeme :: input))
    (isJoin : lexeme.token = .and ∨ lexeme.token = .or) :
    (p.after lexeme.token).Begins outer (outer.length + outer.sum) ∧
      firstFault? p ((lexeme :: input).map Lexeme.token) =
        firstFault? (p.after lexeme.token) (input.map Lexeme.token) := by
  have faultless : p.fault? lexeme.token = none := by
    rcases isJoin with token | token <;> rw [token] <;> rfl
  refine ⟨?_, firstFault?_cons_of_none faultless⟩
  cases behind with
  | ends _ same =>
    subst same
    rcases isJoin with token | token <;> rw [token] <;>
      exact ⟨rfl, rfl, rfl, by simp [after], by simp [after, Token.isWord]⟩
  | stuck _ misplaced =>
    rcases isJoin with token | token <;> rw [token] at misplaced <;> cases misplaced

theorem Goal.At.behind_not (stands : operand.At outer depth p (lexeme :: input))
    (isNot : lexeme.token = .not) (shallow : depth < maxDepth) :
    operand.At outer (depth + 1) (p.after .not) input ∧
      firstFault? p ((lexeme :: input).map Lexeme.token) =
        firstFault? (p.after .not) (input.map Lexeme.token) := by
  obtain ⟨rfl, rfl, free⟩ := stands
  rw [List.map_cons, isNot]
  exact ⟨⟨rfl, rfl, by simp [Place.after], by simp [Place.after, Token.isWord]⟩,
    firstFault?_cons_of_none (free.fault?_eq_none (by decide) shallow)⟩

theorem Goal.At.behind_opening (stands : operand.At outer depth p (lexeme :: input))
    (opens : lexeme.token = .opening) (shallow : depth < maxDepth) :
    disjunction.At (p.nots :: outer) (depth + 1) (p.after .opening) input ∧
      firstFault? p ((lexeme :: input).map Lexeme.token) =
        firstFault? (p.after .opening) (input.map Lexeme.token) := by
  obtain ⟨rfl, rfl, free⟩ := stands
  rw [List.map_cons, opens]
  refine ⟨⟨rfl, rfl, ?_, by simp [Place.after], by simp [Place.after, Token.isWord]⟩,
    firstFault?_cons_of_none (free.fault?_eq_none (by decide) shallow)⟩
  simp only [Place.depth, Place.after, List.length_cons, List.sum_cons]
  omega

theorem Goal.At.tooDeep (stands : operand.At outer depth p (lexeme :: input))
    (nests : lexeme.token.nests = true) (deep : depth = maxDepth) :
    firstFault? p ((lexeme :: input).map Lexeme.token) = some .tooDeep := by
  obtain ⟨_, rfl, free⟩ := stands
  exact firstFault?_cons_of_some (free.fault?_eq_tooDeep nests deep)

theorem Place.behind_of_last (same : p.outer = outer)
    (last : p.last = some .closing ∨
      p.AfterWord ∧ ∀ lexeme ∈ input.head?, lexeme.token.isWord = false) :
    p.Behind outer input := by
  cases input with
  | nil => exact .done
  | cons lexeme rest =>
    cases token : lexeme.token with
    | and | or | closing => exact .ends (by simp [token]) same
    | opening | not | word =>
      refine .stuck (by simp [token]) ?_
      rcases last with closing | ⟨⟨t, word, isWord⟩, ends⟩
      · simp [misplaces, token, closing]
      · have stops := ends lexeme rfl
        rw [token] at stops
        simp_all [misplaces, Token.isWord]

theorem Token.exists_word {t : Token} (isWord : t.isWord = true) : ∃ text, t = .word text := by
  cases t with
  | word text => exact ⟨text, rfl⟩
  | and | or | not | opening | closing => exact nomatch isWord

theorem firstFault?_cons_word {t : Token} {rest : List Token} (isWord : t.isWord = true)
    (follows : p.last ≠ some .closing) :
    firstFault? p (t :: rest) = firstFault? ⟨p.outer, 0, some t⟩ rest := by
  obtain ⟨text, rfl⟩ := t.exists_word isWord
  have faultless : p.fault? (.word text) = none := by
    simp [Place.fault?, Place.misplaces, Token.nests, follows]
  rw [firstFault?_cons_of_none faultless]
  rfl

theorem Place.AfterWord.last_ne_closing (afterWord : p.AfterWord) : p.last ≠ some .closing := by
  obtain ⟨t, last, isWord⟩ := afterWord
  intro closing
  rw [closing] at last
  cases last
  exact nomatch isWord

theorem Place.AfterWord.exists_place (afterWord : p.AfterWord) (input : List Lexeme) :
    ∃ q : Place, q.outer = p.outer ∧ q.AfterWord ∧
      firstFault? p (input.map Lexeme.token) =
        firstFault? q ((input.dropWhile isWordLexeme).map Lexeme.token) := by
  induction input generalizing p with
  | nil => exact ⟨p, rfl, afterWord, rfl⟩
  | cons lexeme input ih =>
    rw [List.dropWhile_cons]
    split_ifs with isWord
    · have next : Place.AfterWord ⟨p.outer, 0, some lexeme.token⟩ := ⟨_, rfl, isWord⟩
      obtain ⟨q, same, behind, rest⟩ := ih next
      exact ⟨q, same, behind,
        (firstFault?_cons_word isWord afterWord.last_ne_closing).trans rest⟩
    · exact ⟨p, rfl, afterWord, rfl⟩

theorem Place.Behind.close {nots : Nat} {rest : List Lexeme}
    (behind : p.Behind (nots :: outer) rest) (ended : Goal.disjunction.Ends rest) :
    ∃ q : Place, q.Behind outer (afterClosing rest) ∧
      firstFault? p (rest.map Lexeme.token) =
        firstFault? q ((afterClosing rest).map Lexeme.token) := by
  cases behind with
  | done => exact ⟨p, .done, rfl⟩
  | @ends lexeme rest kind same =>
    have notJoin := ended lexeme rfl
    have closes : lexeme.token = .closing :=
      (kind.resolve_left notJoin.1).resolve_left notJoin.2
    have faultless : p.fault? lexeme.token = none := by
      rw [closes]
      simp [fault?, misplaces, same, Token.nests]
    rw [Condition.afterClosing, if_pos closes, List.map_cons,
      firstFault?_cons_of_none faultless, closes]
    refine ⟨_, behind_of_last ?_ (.inl rfl), rfl⟩
    rw [after, same, List.tail_cons]
  | stuck notClosing misplaced =>
    rw [Condition.afterClosing, if_neg notClosing]
    exact ⟨p, .stuck notClosing misplaced, rfl⟩

end Steps

/-- A reading that succeeds meets no fault in what it reads. -/
theorem Reads.exists_place {goal : Goal} {depth : Nat} {input rest : List Lexeme}
    {whole : Condition} (reads : Reads goal depth input whole rest) {outer : List Nat} {p : Place}
    (stands : goal.At outer depth p input) :
    ∃ q : Place, q.Behind outer rest ∧
      firstFault? p (input.map Lexeme.token) = firstFault? q (rest.map Lexeme.token) := by
  induction reads generalizing outer p with
  | disjunction _ _ head tail =>
    obtain ⟨between, behind, first⟩ := head stands
    obtain ⟨q, behind, second⟩ := tail ⟨behind, Place.Begins.level stands⟩
    exact ⟨q, behind, first.trans second⟩
  | conjunction _ _ head tail =>
    obtain ⟨between, behind, first⟩ := head (Place.Begins.operand stands)
    obtain ⟨q, behind, second⟩ := tail ⟨behind, Place.Begins.level stands⟩
    exact ⟨q, behind, first.trans second⟩
  | noDisjunct | noConjunct => exact ⟨p, stands.1, rfl⟩
  | disjunct isOr _ _ head tail =>
    obtain ⟨behind, rfl⟩ := stands
    obtain ⟨next, step⟩ := behind.join (.inr isOr)
    obtain ⟨between, behind, first⟩ := head next
    obtain ⟨q, behind, second⟩ := tail ⟨behind, rfl⟩
    exact ⟨q, behind, step.trans (first.trans second)⟩
  | conjunct isAnd _ _ head tail =>
    obtain ⟨behind, rfl⟩ := stands
    obtain ⟨next, step⟩ := behind.join (.inl isAnd)
    obtain ⟨between, behind, first⟩ := head next.operand
    obtain ⟨q, behind, second⟩ := tail ⟨behind, rfl⟩
    exact ⟨q, behind, step.trans (first.trans second)⟩
  | not isNot shallow _ inner =>
    obtain ⟨next, step⟩ := stands.behind_not isNot shallow
    obtain ⟨q, behind, same⟩ := inner next
    exact ⟨q, behind, step.trans same⟩
  | parentheses opens shallow reads inner =>
    obtain ⟨next, step⟩ := stands.behind_opening opens shallow
    obtain ⟨between, behind, first⟩ := inner next
    obtain ⟨q, behind, second⟩ := behind.close (reads.ends trivial)
    exact ⟨q, behind, step.trans (first.trans second)⟩
  | @words _ lexeme input isWord =>
    obtain ⟨rfl, _, free⟩ := stands
    have afterWord : Place.AfterWord ⟨p.outer, 0, some lexeme.token⟩ := ⟨_, rfl, isWord⟩
    obtain ⟨q, same, behind, rest⟩ := afterWord.exists_place input
    have step := (firstFault?_cons_word isWord free.1).trans rest
    refine ⟨q, Place.behind_of_last same (.inr ⟨behind, fun next first => ?_⟩), step⟩
    have stops := List.head?_dropWhile_not isWordLexeme input
    rw [first] at stops
    exact stops
  | @missing _ input ends =>
    refine ⟨p, ?_, rfl⟩
    cases input with
    | nil => exact .done
    | cons lexeme rest => exact .ends (ends lexeme rfl) stands.1

/-- A reading that fails has gone too deep, and that is the first fault. -/
theorem firstFault?_of_reading (goal : Goal) (depth : Nat) (input : List Lexeme) {e : ParseError}
    (fails : reading goal depth input = .error e) {outer : List Nat} {p : Place}
    (stands : goal.At outer depth p input) (within : depth ≤ maxDepth) :
    e = .tooDeep ∧ firstFault? p (input.map Lexeme.token) = some .tooDeep := by
  -- Where the first part of a goal is read, the scan goes on from the place behind that part.
  match goal, input with
  | .disjunction, input =>
    rw [reading_disjunction] at fails
    rcases bind_eq_error_iff.1 fails with fails | ⟨⟨first, between⟩, head, fails⟩
    · exact firstFault?_of_reading _ _ _ fails stands within
    · have bound := length_le_of_reading head
      obtain ⟨q, behind, same⟩ := (reads_of_reading _ _ _ head).exists_place stands
      rw [same]
      exact firstFault?_of_reading _ _ _ fails ⟨behind, Place.Begins.level stands⟩ within
  | .conjunction, input =>
    rw [reading_conjunction] at fails
    have operand : Goal.operand.At outer depth p input := Place.Begins.operand stands
    rcases bind_eq_error_iff.1 fails with fails | ⟨⟨first, between⟩, head, fails⟩
    · exact firstFault?_of_reading _ _ _ fails operand within
    · have bound := length_le_of_reading head
      obtain ⟨q, behind, same⟩ := (reads_of_reading _ _ _ head).exists_place operand
      rw [same]
      exact firstFault?_of_reading _ _ _ fails ⟨behind, Place.Begins.level stands⟩ within
  | .moreDisjuncts lhs, [] =>
    rw [reading_moreDisjuncts_nil] at fails
    exact nomatch fails
  | .moreDisjuncts lhs, lexeme :: input =>
    by_cases isOr : lexeme.token = .or
    · rw [reading_moreDisjuncts_or _ _ _ _ isOr] at fails
      obtain ⟨behind, rfl⟩ := stands
      obtain ⟨next, step⟩ := behind.join (.inr isOr)
      rw [step]
      rcases bind_eq_error_iff.1 fails with fails | ⟨⟨rhs, between⟩, head, fails⟩
      · exact firstFault?_of_reading _ _ _ fails next within
      · have bound := length_le_of_reading head
        obtain ⟨q, behind, same⟩ := (reads_of_reading _ _ _ head).exists_place next
        rw [same]
        exact firstFault?_of_reading _ _ _ fails ⟨behind, rfl⟩ within
    · rw [reading_moreDisjuncts_stop _ _ _ _ isOr] at fails
      exact nomatch fails
  | .moreConjuncts lhs, [] =>
    rw [reading_moreConjuncts_nil] at fails
    exact nomatch fails
  | .moreConjuncts lhs, lexeme :: input =>
    by_cases isAnd : lexeme.token = .and
    · rw [reading_moreConjuncts_and _ _ _ _ isAnd] at fails
      obtain ⟨behind, rfl⟩ := stands
      obtain ⟨next, step⟩ := behind.join (.inl isAnd)
      rw [step]
      rcases bind_eq_error_iff.1 fails with fails | ⟨⟨rhs, between⟩, head, fails⟩
      · exact firstFault?_of_reading _ _ _ fails next.operand within
      · have bound := length_le_of_reading head
        obtain ⟨q, behind, same⟩ := (reads_of_reading _ _ _ head).exists_place next.operand
        rw [same]
        exact firstFault?_of_reading _ _ _ fails ⟨behind, rfl⟩ within
    · rw [reading_moreConjuncts_stop _ _ _ _ isAnd] at fails
      exact nomatch fails
  | .operand, [] =>
    rw [reading_operand_nil] at fails
    exact nomatch fails
  | .operand, lexeme :: input =>
    cases token : lexeme.token with
    | not =>
      rw [reading_operand_not _ _ _ token] at fails
      split_ifs at fails with deep
      · cases fails
        exact ⟨rfl, stands.tooDeep (by rw [token]; rfl) (Nat.le_antisymm within deep)⟩
      · obtain ⟨next, step⟩ := stands.behind_not token (Nat.not_le.1 deep)
        rw [step]
        exact firstFault?_of_reading _ _ _ (map_eq_error_iff.1 fails) next (Nat.not_le.1 deep)
    | opening =>
      rw [reading_operand_opening _ _ _ token] at fails
      split_ifs at fails with deep
      · cases fails
        exact ⟨rfl, stands.tooDeep (by rw [token]; rfl) (Nat.le_antisymm within deep)⟩
      · obtain ⟨next, step⟩ := stands.behind_opening token (Nat.not_le.1 deep)
        rw [step]
        exact firstFault?_of_reading _ _ _ (map_eq_error_iff.1 fails) next (Nat.not_le.1 deep)
    | word text =>
      have isWord : lexeme.token.isWord = true := by rw [token]; rfl
      rw [reading_operand_word _ _ _ isWord] at fails
      exact nomatch fails
    | and | or | closing =>
      rw [reading_operand_missing _ _ _ (by simp [token])] at fails
      exact nomatch fails
termination_by (input.length, goal.rank)
decreasing_by
  all_goals simp only [Goal.rank, List.length_cons, Prod.lex_def, true_and]
  all_goals omega

theorem exists_fault_of_firstFault? {p : Place} {ts : List Token} {e : ParseError}
    (found : firstFault? p ts = some e) : ∃ (q : Place) (t : Token), q.fault? t = some e := by
  induction ts generalizing p with
  | nil => exact nomatch found
  | cons t rest ih =>
    cases fault : p.fault? t with
    | none =>
      rw [firstFault?_cons_of_none fault] at found
      exact ih found
    | some e' =>
      rw [firstFault?_cons_of_some fault] at found
      exact ⟨p, t, fault.trans found⟩

theorem Place.fault?_cases {p : Place} {t : Token} {e : ParseError} (fault : p.fault? t = some e) :
    (p.misplaces t = true ∧ e = .trailing t) ∨ e = .tooDeep := by
  unfold fault? at fault
  split_ifs at fault with misplaced deep
  · exact .inl ⟨misplaced, (Option.some.inj fault).symm⟩
  · exact .inr (Option.some.inj fault).symm

theorem firstFault?_ne_empty (p : Place) (ts : List Token) : firstFault? p ts ≠ some .empty := by
  intro found
  obtain ⟨q, t, fault⟩ := exists_fault_of_firstFault? found
  rcases q.fault?_cases fault with ⟨_, same⟩ | same <;> cases same

theorem firstFault?_ne_trailing_join {t : Token} (isJoin : t = .and ∨ t = .or) (p : Place)
    (ts : List Token) : firstFault? p ts ≠ some (.trailing t) := by
  intro found
  obtain ⟨q, _, fault⟩ := exists_fault_of_firstFault? found
  rcases q.fault?_cases fault with ⟨misplaced, same⟩ | same
  · cases same
    rcases isJoin with rfl | rfl <;> cases misplaced
  · cases same

theorem begins_start : Place.start.Begins [] 0 :=
  ⟨rfl, rfl, rfl, nofun, nofun⟩

/-- Lexemes are refused for their first fault, and for no other reason. -/
theorem parseLexemes_eq_error_iff {input : List Lexeme} (present : input ≠ []) (e : ParseError) :
    parseLexemes input = .error e ↔
      firstFault? .start (input.map Lexeme.token) = some e := by
  rw [parseLexemes_eq_bind present]
  cases read : reading .disjunction 0 input with
  | error e' =>
    obtain ⟨rfl, deep⟩ := firstFault?_of_reading _ _ _ read begins_start (Nat.zero_le _)
    rw [deep]
    simp [Except.bind]
  | ok found =>
    obtain ⟨whole, rest⟩ := found
    have reads := reads_of_reading _ _ _ read
    obtain ⟨q, behind, same⟩ := reads.exists_place begins_start
    -- What is left is misplaced: behind the outermost condition nothing is open.
    have misplaced : ∀ lexeme ∈ rest.head?, q.misplaces lexeme.token = true := by
      intro lexeme first
      cases behind with
      | done => exact nomatch first
      | ends kind outer =>
        cases first
        have notJoin := reads.ends trivial lexeme rfl
        rw [(kind.resolve_left notJoin.1).resolve_left notJoin.2, Place.misplaces, outer]
        rfl
      | stuck _ misplaced =>
        cases first
        exact misplaced
    rw [same]
    cases rest with
    | nil => simp [Except.bind, complete, firstFault?]
    | cons lexeme rest =>
      have fault := Place.fault?_of_misplaces (misplaced lexeme rfl)
      rw [List.map_cons, firstFault?_cons_of_some fault]
      simp [Except.bind, complete]

theorem map_token_placed (start : Nat) (ls : List Lexeme) :
    (placed start ls).map Spanned.token = ls.map Lexeme.token := by
  induction ls generalizing start with
  | nil => rfl
  | cons lexeme rest ih => rw [placed, List.map_cons, List.map_cons, ih]

theorem lexemes_eq_nil_iff (cs : Text) : lexemes cs = [] ↔ Text.isAllBlank cs = true := by
  constructor
  · intro empty
    obtain ⟨tail, whole, blank⟩ := exists_lexemes_append cs
    rw [empty, List.flatMap_nil, List.nil_append] at whole
    rwa [← whole]
  · intro blank
    have gone : cs.dropWhile Text.isBlank = [] :=
      List.dropWhile_eq_nil_iff.2 (List.all_eq_true.1 blank)
    rw [lexemes.eq_def]
    split
    · rfl
    next behind => exact absurd (gone.symm.trans behind) (List.cons_ne_nil _ _).symm

def fault? (text : String) : Option ParseError :=
  firstFault? .start ((tokens text).map Spanned.token)

theorem fault?_ne_empty (text : String) : fault? text ≠ some .empty := firstFault?_ne_empty _ _

section Parse

variable {text : String} {e : ParseError}

theorem parse_eq_error_iff : parse text = .error e ↔
    (Text.isAllBlank text.toList = true ∧ e = .empty) ∨ fault? text = some e := by
  rw [fault?, tokens, map_token_placed, parse, ← lexemes_eq_nil_iff]
  by_cases present : lexemes text.toList = []
  · rw [present]
    simp [parseLexemes, firstFault?, eq_comm]
  · rw [parseLexemes_eq_error_iff present]
    simp [present]

theorem parse_eq_empty_iff :
    parse text = .error .empty ↔ Text.isAllBlank text.toList = true := by
  simp [parse_eq_error_iff, fault?_ne_empty]

theorem parse_eq_fault_iff (other : e ≠ .empty) : parse text = .error e ↔ fault? text = some e := by
  simp [parse_eq_error_iff, other]

theorem parse_of_fault? (found : fault? text = some e) : parse text = .error e :=
  parse_eq_error_iff.2 (.inr found)

theorem exists_parse_iff : (∃ c, parse text = .ok c) ↔
    Text.isAllBlank text.toList = false ∧ fault? text = none := by
  constructor
  · rintro ⟨c, parsed⟩
    constructor
    · rw [← Bool.not_eq_true, ← parse_eq_empty_iff, parsed]
      exact nofun
    · rw [Option.eq_none_iff_forall_not_mem]
      intro e found
      rw [parse_of_fault? found] at parsed
      exact nomatch parsed
  · rintro ⟨present, faultless⟩
    cases parsed : parse text with
    | ok c => exact ⟨c, rfl⟩
    | error e =>
      rw [parse_eq_error_iff, present, faultless] at parsed
      simp at parsed

theorem evaluate_of_fault? (found : fault? text = some e) (flags : FlagSet) :
    evaluate flags text = (do
      note (.conditionReadAsName (trimmed text) e.message)
      flags.lookup (trimmed text)) := by
  rw [evaluate, read, parse_of_fault? found]
  cases e with
  | empty => exact absurd found (fault?_ne_empty text)
  | trailing | tooDeep => rfl

theorem readAsName_mem_iff (flags : FlagSet) :
    (∃ name fault, .notice (.conditionReadAsName name fault) ∈ (evaluate flags text).events) ↔
      ∃ e, fault? text = some e := by
  constructor
  · rintro ⟨name, fault, member⟩
    rw [evaluate, Recorded.events_bind, value_read, List.mem_append] at member
    cases parsed : parse text with
    | ok c =>
      rw [read, parsed] at member
      rcases member with first | second
      · cases List.eq_of_mem_replicate first
      · exact absurd second (notice_not_mem_decide flags c _)
    | error e =>
      rcases parse_eq_error_iff.1 parsed with ⟨_, rfl⟩ | found
      · rw [read, parsed] at member
        rcases member with first | second
        · exact absurd first List.not_mem_nil
        · exact absurd second List.not_mem_nil
      · exact ⟨e, found⟩
  · rintro ⟨e, found⟩
    refine ⟨trimmed text, e.message, ?_⟩
    rw [evaluate_of_fault? found]
    exact List.mem_cons_self

end Parse

/-- Blank text is no condition. Any other text is one unless a token of it has a fault, and then it
is refused for the first of them, which is never that of a join; so a text is looked up as a whole
exactly if there is a fault in it. -/
theorem parse_faults (text : String) :
    (parse text = .error .empty ↔ Text.isAllBlank text.toList = true) ∧
    (∀ e, e ≠ .empty → (parse text = .error e ↔ fault? text = some e)) ∧
    ((∃ c, parse text = .ok c) ↔
      Text.isAllBlank text.toList = false ∧ fault? text = none) ∧
    (parse text ≠ .error (.trailing .and) ∧ parse text ≠ .error (.trailing .or)) ∧
    ∀ flags : FlagSet,
      (∀ e, fault? text = some e → evaluate flags text = (do
        note (.conditionReadAsName (trimmed text) e.message)
        flags.lookup (trimmed text))) ∧
      ((∃ name fault, .notice (.conditionReadAsName name fault) ∈ (evaluate flags text).events) ↔
        ∃ e, fault? text = some e) := by
  have joins : ∀ t, t = .and ∨ t = .or → parse text ≠ .error (.trailing t) := fun t isJoin fails =>
    firstFault?_ne_trailing_join isJoin _ _ ((parse_eq_fault_iff (e := .trailing t) nofun).1 fails)
  exact ⟨parse_eq_empty_iff, fun _ => parse_eq_fault_iff, exists_parse_iff,
    ⟨joins _ (.inl rfl), joins _ (.inr rfl)⟩,
    fun flags => ⟨fun _ found => evaluate_of_fault? found flags, readAsName_mem_iff flags⟩⟩

/-- The word behind the parenthesis has no place, and what stands behind it does not matter. -/
theorem parse_faults_behind_parenthesis :
    parse "NOT (a b OR ) c AND ) (" = .error (.trailing (.word "c")) ∧
      (evaluate FlagSet.all "NOT (a b OR ) c AND ) (").value = true := by
  obtain ⟨-, refused, -, -, looked⟩ := parse_faults "NOT (a b OR ) c AND ) ("
  have found : fault? "NOT (a b OR ) c AND ) (" = some (.trailing (.word "c")) := by decide +kernel
  refine ⟨(refused _ (by decide)).2 found, ?_⟩
  rw [(looked FlagSet.all).1 _ found]
  rfl

end Scaffold.Condition
