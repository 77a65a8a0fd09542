import Mathlib.Tactic.Common
import Scaffold.Proofs.Condition.Derivation
import Scaffold.Proofs.Condition.Reading

/-! Reading a condition against its grammar. What a derivation spans is read as the condition
it stands for, and what is read without error has a derivation, unless the reading went on
behind a parenthesis that was not closed; then a token is left that nothing around can take. -/

namespace Scaffold.Condition

def Symbol.goal (lhs : Condition) : Symbol → Goal
  | .disjunction => .disjunction
  | .disjuncts => .moreDisjuncts lhs
  | .conjunction => .conjunction
  | .conjuncts => .moreConjuncts lhs
  | .negation | .primary => .operand

def Goal.symbol : Goal → Symbol
  | .disjunction => .disjunction
  | .moreDisjuncts _ => .disjuncts
  | .conjunction => .conjunction
  | .moreConjuncts _ => .conjuncts
  | .operand => .negation

def Goal.lhs : Goal → Condition
  | .moreDisjuncts lhs | .moreConjuncts lhs => lhs
  | .disjunction | .conjunction | .operand => .missing

section Words

theorem head_dropWhile (ts : List Spanned) :
    ∀ t ∈ (ts.dropWhile isWordToken).head?, isWordToken t = false := by
  intro t first
  have stopped := List.head?_dropWhile_not isWordToken ts
  rw [first] at stopped
  exact stopped

variable {source : Text} {ls : List Lexeme} {ts : List Spanned}

theorem StandAt.length_takeWhile (stand : StandAt source ls ts) :
    (ts.takeWhile isWordToken).length = (ls.takeWhile isWordLexeme).length := by
  induction ls generalizing ts with
  | nil => rw [stand.nil_iff.1 rfl]; rfl
  | cons lexeme rest ih =>
    obtain ⟨t, ts, rfl, token, behind⟩ := stand.cons
    have kind : isWordToken t = isWordLexeme lexeme := congrArg Token.isWord token
    rw [List.takeWhile_cons, List.takeWhile_cons, kind]
    split
    · rw [List.length_cons, List.length_cons, ih behind]
    · rfl

theorem StandAt.dropWhile (stand : StandAt source ls ts) :
    StandAt source (ls.dropWhile isWordLexeme) (ts.dropWhile isWordToken) := by
  induction ls generalizing ts with
  | nil =>
    obtain rfl := stand.nil_iff.1 rfl
    exact stand
  | cons lexeme rest ih =>
    obtain ⟨t, ts, rfl, token, behind⟩ := stand.cons
    have kind : isWordToken t = isWordLexeme lexeme := congrArg Token.isWord token
    rw [List.dropWhile_cons, List.dropWhile_cons, kind]
    split
    · exact ih behind
    · exact stand

theorem StandAt.runName_takeWhile {lexeme : Lexeme} {t : Spanned}
    (stand : StandAt source (lexeme :: ls) (t :: ts)) :
    runName source (t :: ts.takeWhile isWordToken) =
      flagName (lexeme :: ls.takeWhile isWordLexeme) := by
  obtain ⟨_, _, same, _, behind⟩ := stand.cons
  cases same
  rw [← List.takeWhile_append_dropWhile (p := isWordToken) (l := ts),
    ← List.takeWhile_append_dropWhile (p := isWordLexeme) (l := ls)] at stand
  exact stand.runName_eq behind.length_takeWhile

end Words

theorem StandAt.afterClosing {source : Text} {rest : List Lexeme} {closing : Option Spanned}
    {after : List Spanned} (stand : StandAt source rest (closing.toList ++ after))
    (closes : ∀ t ∈ closing, t.token = .closing) (ends : closing = none → after = []) :
    StandAt source (afterClosing rest) after := by
  cases closing with
  | none =>
    obtain rfl := ends rfl
    obtain rfl := stand.nil_iff.2 rfl
    exact stand
  | some closing =>
    obtain ⟨closer, rest, rfl, token, behind⟩ := stand.exists_cons
    have closed : closer.token = .closing := token ▸ closes closing rfl
    rw [Condition.afterClosing, if_pos closed]
    exact behind

/-- The tokens of a derivation are read as its condition, and the reading stops behind them. -/
theorem Derivation.reads {source : Text} {s : Symbol} (d : Derivation s)
    {after : List Spanned} {depth : Nat} {lhs : Condition} {ls : List Lexeme}
    (stand : StandAt source ls (d.yield ++ after)) (fits : d.Fits after)
    (follows : s.Follows after) (shallow : depth + d.nesting ≤ maxDepth) :
    ∃ rest, Reads (s.goal lhs) depth ls (d.treeFrom source lhs) rest ∧
      StandAt source rest after := by
  induction d generalizing after depth lhs ls with
  | disjunction first more firstReads moreReads =>
    rw [nesting, ← Nat.add_max_add_left, Nat.max_le] at shallow
    rw [yield, List.append_assoc] at stand
    obtain ⟨between, head, stand⟩ := firstReads stand fits.1
      (follows_before_disjuncts more fits.2 follows) shallow.1
    obtain ⟨rest, tail, stand⟩ := moreReads stand fits.2 follows shallow.2
    exact ⟨rest, .disjunction head tail, stand⟩
  | conjunction first more firstReads moreReads =>
    rw [nesting, ← Nat.add_max_add_left, Nat.max_le] at shallow
    rw [yield, List.append_assoc] at stand
    obtain ⟨between, head, stand⟩ := firstReads stand fits.1
      (follows_before_conjuncts more fits.2 follows) shallow.1
    obtain ⟨rest, tail, stand⟩ := moreReads stand fits.2 follows shallow.2
    exact ⟨rest, .conjunction head tail, stand⟩
  | noDisjunct =>
    refine ⟨ls, .noDisjunct ?_, stand⟩
    refine stand.of_head (· ≠ .or) fun t first => ?_
    rw [follows t first]
    decide
  | noConjunct =>
    refine ⟨ls, .noConjunct ?_, stand⟩
    refine stand.of_head (· ≠ .and) fun t first => ?_
    rcases follows t first with token | token <;> rw [token] <;> decide
  | nothing =>
    refine ⟨ls, .missing ?_, stand⟩
    refine stand.of_head (fun kind => kind = .and ∨ kind = .or ∨ kind = .closing) fun t first => ?_
    rcases follows t first with token | token | token <;> rw [token] <;> decide
  | disjunct join next more nextReads moreReads =>
    obtain ⟨isOr, fitsNext, fitsMore⟩ := fits
    rw [nesting, ← Nat.add_max_add_left, Nat.max_le] at shallow
    obtain ⟨lexeme, input, rfl, token, stand⟩ := stand.exists_cons
    rw [List.append_eq, List.append_assoc] at stand
    obtain ⟨between, head, stand⟩ := nextReads stand fitsNext
      (follows_before_disjuncts more fitsMore follows) shallow.1
    obtain ⟨rest, tail, stand⟩ := moreReads stand fitsMore follows shallow.2
    exact ⟨rest, .disjunct (token ▸ isOr) head tail, stand⟩
  | conjunct join next more nextReads moreReads =>
    obtain ⟨isAnd, fitsNext, fitsMore⟩ := fits
    rw [nesting, ← Nat.add_max_add_left, Nat.max_le] at shallow
    obtain ⟨lexeme, input, rfl, token, stand⟩ := stand.exists_cons
    rw [List.append_eq, List.append_assoc] at stand
    obtain ⟨between, head, stand⟩ := nextReads stand fitsNext
      (follows_before_conjuncts more fitsMore follows) shallow.1
    obtain ⟨rest, tail, stand⟩ := moreReads stand fitsMore follows shallow.2
    exact ⟨rest, .conjunct (token ▸ isAnd) head tail, stand⟩
  | not keyword inner innerReads =>
    rw [nesting, Nat.add_comm inner.nesting, ← Nat.add_assoc] at shallow
    obtain ⟨lexeme, input, rfl, token, stand⟩ := stand.exists_cons
    obtain ⟨rest, reads, stand⟩ := innerReads stand fits.2 follows shallow
    exact ⟨rest, .not (token ▸ fits.1) (by omega) reads, stand⟩
  | operand inner innerReads => exact innerReads stand fits follows shallow
  | parentheses opening inner closing innerReads =>
    obtain ⟨opens, fits, closes, ends⟩ := fits
    rw [nesting, Nat.add_comm inner.nesting, ← Nat.add_assoc] at shallow
    obtain ⟨lexeme, input, rfl, token, stand⟩ := stand.exists_cons
    rw [List.append_eq, List.append_assoc] at stand
    obtain ⟨rest, reads, stand⟩ := innerReads stand fits
      (follows_before_closing closing closes ends) shallow
    exact ⟨afterClosing rest, .parentheses (token ▸ opens) (by omega) reads,
      stand.afterClosing closes ends⟩
  | words first more =>
    obtain ⟨isWord, words, ends⟩ := fits
    obtain ⟨lexeme, input, rfl, token, behind⟩ := stand.exists_cons
    have name := stand.runName_takeWhile
    have rest := behind.dropWhile
    rw [List.append_eq, takeWhile_append_of_stop words ends] at name
    rw [List.append_eq, dropWhile_append_of_stop words ends] at rest
    refine ⟨_, ?_, rest⟩
    rw [treeFrom, name]
    exact .words (token ▸ isWord)

def Goal.Ends : Goal → List Lexeme → Prop
  | .disjunction, rest | .moreDisjuncts _, rest =>
    ∀ lexeme ∈ rest.head?, lexeme.token ≠ .and ∧ lexeme.token ≠ .or
  | .conjunction, rest | .moreConjuncts _, rest => ∀ lexeme ∈ rest.head?, lexeme.token ≠ .and
  | .operand, _ => True

def Goal.Begins : Goal → List Lexeme → Prop
  | .moreDisjuncts _, input => Goal.conjunction.Ends input
  | _, _ => True

theorem Reads.ends {goal : Goal} {depth : Nat} {input rest : List Lexeme} {whole : Condition}
    (reads : Reads goal depth input whole rest) (begins : goal.Begins input) :
    goal.Ends rest := by
  induction reads with
  | disjunction _ _ head tail => exact tail (head trivial)
  | noDisjunct stops => exact fun lexeme first => ⟨begins lexeme first, stops lexeme first⟩
  | disjunct _ _ _ head tail => exact tail (head trivial)
  | conjunction _ _ _ tail => exact tail trivial
  | noConjunct stops => exact stops
  | conjunct _ _ _ _ tail => exact tail trivial
  | not | parentheses | words | missing => trivial

def Blocked (input : List Lexeme) : Prop :=
  ∃ lexeme ∈ input.head?, lexeme.token ≠ .and ∧ lexeme.token ≠ .or ∧ lexeme.token ≠ .closing

section Blocked

variable {depth : Nat} {input rest : List Lexeme} {lhs whole : Condition}

theorem Blocked.disjuncts (blocked : Blocked input)
    (reads : Reads (.moreDisjuncts lhs) depth input whole rest) : Blocked rest := by
  cases reads with
  | noDisjunct => exact blocked
  | disjunct isOr =>
    obtain ⟨_, first, _, notOr, _⟩ := blocked
    cases first
    exact absurd isOr notOr

theorem Blocked.conjuncts (blocked : Blocked input)
    (reads : Reads (.moreConjuncts lhs) depth input whole rest) : Blocked rest := by
  cases reads with
  | noConjunct => exact blocked
  | conjunct isAnd =>
    obtain ⟨_, first, notAnd, _⟩ := blocked
    cases first
    exact absurd isAnd notAnd

theorem Blocked.afterClosing (blocked : Blocked rest) : Blocked (afterClosing rest) := by
  obtain ⟨lexeme, first, kinds⟩ := blocked
  cases rest with
  | nil => exact nomatch first
  | cons _ rest =>
    cases first
    rw [Condition.afterClosing, if_neg kinds.2.2]
    exact ⟨lexeme, rfl, kinds⟩

end Blocked

/-- Behind the condition inside a parenthesis stands the closing one, the end, or a token that
blocks what is read next. -/
theorem exists_closing {source : Text} {rest : List Lexeme} {after : List Spanned}
    (stand : StandAt source rest after) (ended : Goal.disjunction.Ends rest) :
    Blocked (afterClosing rest) ∨ ∃ (closing : Option Spanned) (behind : List Spanned),
      after = closing.toList ++ behind ∧ StandAt source (afterClosing rest) behind ∧
        (∀ t ∈ closing, t.token = .closing) ∧ (closing = none → behind = []) := by
  cases rest with
  | nil =>
    obtain rfl := stand.nil_iff.1 rfl
    exact .inr ⟨none, [], rfl, stand, fun t absent => absurd absent (Option.not_mem_none t),
      fun _ => rfl⟩
  | cons closer rest =>
    obtain ⟨closing, behind, rfl, kind, stand⟩ := stand.cons
    rw [afterClosing]
    split_ifs with closes
    · refine .inr ⟨some closing, behind, rfl, stand, ?_,
        fun absent => absurd absent (Option.some_ne_none closing)⟩
      intro t same
      cases same
      exact kind.trans closes
    · have notJoin := ended closer rfl
      exact .inl ⟨closer, rfl, notJoin.1, notJoin.2, closes⟩

/-- What was read has a derivation, or the reading is stuck: some parenthesis was taken for
closed though another token stands there, and no later step gets past that token. -/
theorem Reads.exists_derivation {source : Text} {goal : Goal} {depth : Nat}
    {ls rest : List Lexeme} {whole : Condition} {ts : List Spanned}
    (reads : Reads goal depth ls whole rest) (stand : StandAt source ls ts)
    (shallow : depth ≤ maxDepth) :
    Blocked rest ∨ ∃ (d : Derivation goal.symbol) (after : List Spanned),
      ts = d.yield ++ after ∧ StandAt source rest after ∧ d.Fits after ∧
        depth + d.nesting ≤ maxDepth ∧ d.treeFrom source goal.lhs = whole := by
  -- A blocked part blocks the whole, since what is read behind it stops at once.
  induction reads generalizing ts with
  | @disjunction depth _ _ _ _ _ head tail headIH tailIH =>
    rcases headIH stand shallow with
      blocked | ⟨first, _, rfl, stand, fitsFirst, deepFirst, rfl⟩
    · exact .inl (blocked.disjuncts tail)
    rcases tailIH stand shallow with
      blocked | ⟨more, after, rfl, stand, fitsMore, deepMore, rfl⟩
    · exact .inl blocked
    have deep : depth + max first.nesting more.nesting ≤ maxDepth := by omega
    exact .inr ⟨.disjunction first more, after, (List.append_assoc ..).symm, stand,
      ⟨fitsFirst, fitsMore⟩, deep, rfl⟩
  | noDisjunct stops => exact .inr ⟨.noDisjunct, ts, rfl, stand, trivial, shallow, rfl⟩
  | @disjunct depth _ _ _ _ _ _ _ isOr head tail headIH tailIH =>
    obtain ⟨join, ts, rfl, token, stand⟩ := stand.cons
    rcases headIH stand shallow with
      blocked | ⟨next, _, rfl, stand, fitsNext, deepNext, rfl⟩
    · exact .inl (blocked.disjuncts tail)
    rcases tailIH stand shallow with
      blocked | ⟨more, after, rfl, stand, fitsMore, deepMore, rfl⟩
    · exact .inl blocked
    have deep : depth + max next.nesting more.nesting ≤ maxDepth := by omega
    exact .inr ⟨.disjunct join next more, after, congrArg _ (List.append_assoc ..).symm, stand,
      ⟨token.trans isOr, fitsNext, fitsMore⟩, deep, rfl⟩
  | @conjunction depth _ _ _ _ _ head tail headIH tailIH =>
    rcases headIH stand shallow with
      blocked | ⟨first, _, rfl, stand, fitsFirst, deepFirst, rfl⟩
    · exact .inl (blocked.conjuncts tail)
    rcases tailIH stand shallow with
      blocked | ⟨more, after, rfl, stand, fitsMore, deepMore, rfl⟩
    · exact .inl blocked
    have deep : depth + max first.nesting more.nesting ≤ maxDepth := by omega
    exact .inr ⟨.conjunction first more, after, (List.append_assoc ..).symm, stand,
      ⟨fitsFirst, fitsMore⟩, deep, rfl⟩
  | noConjunct stops => exact .inr ⟨.noConjunct, ts, rfl, stand, trivial, shallow, rfl⟩
  | @conjunct depth _ _ _ _ _ _ _ isAnd head tail headIH tailIH =>
    obtain ⟨join, ts, rfl, token, stand⟩ := stand.cons
    rcases headIH stand shallow with
      blocked | ⟨next, _, rfl, stand, fitsNext, deepNext, rfl⟩
    · exact .inl (blocked.conjuncts tail)
    rcases tailIH stand shallow with
      blocked | ⟨more, after, rfl, stand, fitsMore, deepMore, rfl⟩
    · exact .inl blocked
    have deep : depth + max next.nesting more.nesting ≤ maxDepth := by omega
    exact .inr ⟨.conjunct join next more, after, congrArg _ (List.append_assoc ..).symm, stand,
      ⟨token.trans isAnd, fitsNext, fitsMore⟩, deep, rfl⟩
  | @not depth _ _ _ _ isNot bound _ ih =>
    obtain ⟨keyword, ts, rfl, token, stand⟩ := stand.cons
    rcases ih stand bound with blocked | ⟨inner, after, rfl, stand, fits, deep, rfl⟩
    · exact .inl blocked
    have deep : depth + (inner.nesting + 1) ≤ maxDepth := by omega
    exact .inr ⟨.not keyword inner, after, rfl, stand, ⟨token.trans isNot, fits⟩, deep, rfl⟩
  | @parentheses depth _ _ rest _ opens bound reads ih =>
    obtain ⟨opening, ts, rfl, token, stand⟩ := stand.cons
    rcases ih stand bound with blocked | ⟨inner, after, rfl, stand, fits, deep, rfl⟩
    · exact .inl blocked.afterClosing
    have deep : depth + (inner.nesting + 1) ≤ maxDepth := by omega
    -- The reading goes on as if the parenthesis were closed whatever stands there.
    rcases exists_closing stand (reads.ends trivial) with
      blocked | ⟨closing, behind, rfl, stand, closes, ends⟩
    · exact .inl blocked
    exact .inr ⟨.operand (.parentheses opening inner closing), behind,
      congrArg _ (List.append_assoc ..).symm, stand,
      ⟨token.trans opens, fits, closes, ends⟩, deep, rfl⟩
  | words isWord =>
    obtain ⟨first, ts, rfl, token, behind⟩ := stand.cons
    refine .inr ⟨.operand (.words first (ts.takeWhile isWordToken)), ts.dropWhile isWordToken,
      congrArg _ List.takeWhile_append_dropWhile.symm, behind.dropWhile, ⟨?_, ?_, ?_⟩,
      shallow, congrArg _ stand.runName_takeWhile⟩
    · rw [isWordToken, token]
      exact isWord
    · exact fun t member => List.mem_takeWhile_imp member
    · exact head_dropWhile ts
  | missing ends =>
    exact .inr ⟨.operand .nothing, ts, rfl, stand, trivial, shallow, rfl⟩

def wordRuns : List Spanned → List (List Spanned)
  | [] => []
  | t :: rest =>
    if isWordToken t then
      (t :: rest.takeWhile isWordToken) :: wordRuns (rest.dropWhile isWordToken)
    else wordRuns rest
termination_by ts => ts.length
decreasing_by
  · exact Nat.lt_succ_of_le (length_dropWhile_le isWordToken rest)
  · exact Nat.lt_succ_self _

theorem flatten_wordRuns (ts : List Spanned) :
    (wordRuns ts).flatten = ts.filter isWordToken := by
  fun_induction wordRuns ts with
  | case1 => rfl
  | case2 t rest isWord ih =>
    have run : (rest.takeWhile isWordToken).filter isWordToken = rest.takeWhile isWordToken :=
      List.filter_eq_self.2 fun _ member => List.mem_takeWhile_imp member
    have split : rest.filter isWordToken =
        rest.takeWhile isWordToken ++ (rest.dropWhile isWordToken).filter isWordToken := by
      calc rest.filter isWordToken
          = (rest.takeWhile isWordToken ++ rest.dropWhile isWordToken).filter isWordToken := by
            rw [List.takeWhile_append_dropWhile]
        _ = rest.takeWhile isWordToken ++ (rest.dropWhile isWordToken).filter isWordToken := by
            rw [List.filter_append, run]
    rw [List.flatten_cons, ih, List.filter_cons_of_pos isWord, split, List.cons_append]
  | case3 t rest notWord ih => rw [ih, List.filter_cons_of_neg notWord]

theorem wordRuns_cons_of_not_word {t : Spanned} (notWord : isWordToken t = false)
    (rest : List Spanned) : wordRuns (t :: rest) = wordRuns rest := by
  rw [wordRuns, if_neg (by simp [notWord])]

namespace Derivation

def runs : {s : Symbol} → Derivation s → List (List Spanned)
  | _, .disjunction first more | _, .conjunction first more => first.runs ++ more.runs
  | _, .disjunct _ next more | _, .conjunct _ next more => next.runs ++ more.runs
  | _, .not _ inner | _, .operand inner | _, .parentheses _ inner _ => inner.runs
  | _, .words first more => [first :: more]
  | _, .noDisjunct | _, .noConjunct | _, .nothing => []

theorem wordRuns_yield {s : Symbol} (d : Derivation s) {after : List Spanned}
    (fits : d.Fits after) : wordRuns (d.yield ++ after) = d.runs ++ wordRuns after := by
  induction d generalizing after with
  | disjunction first more firstRuns moreRuns | conjunction first more firstRuns moreRuns =>
    rw [yield, runs, List.append_assoc, firstRuns fits.1, moreRuns fits.2, List.append_assoc]
  | noDisjunct | noConjunct | nothing => rfl
  | disjunct join next more nextRuns moreRuns | conjunct join next more nextRuns moreRuns =>
    obtain ⟨kind, fitsNext, fitsMore⟩ := fits
    rw [yield, runs, List.cons_append, wordRuns_cons_of_not_word (by rw [isWordToken, kind]; rfl),
      List.append_assoc, nextRuns fitsNext, moreRuns fitsMore, List.append_assoc]
  | not keyword inner innerRuns =>
    rw [yield, runs, List.cons_append,
      wordRuns_cons_of_not_word (by rw [isWordToken, fits.1]; rfl), innerRuns fits.2]
  | operand inner innerRuns => exact innerRuns fits
  | parentheses opening inner closing innerRuns =>
    obtain ⟨opens, fits, closes, _⟩ := fits
    have skipped : wordRuns (closing.toList ++ after) = wordRuns after := by
      cases closing with
      | none => rfl
      | some closing =>
        exact wordRuns_cons_of_not_word (by rw [isWordToken, closes closing rfl]; rfl) after
    rw [yield, runs, List.cons_append, wordRuns_cons_of_not_word (by rw [isWordToken, opens]; rfl),
      List.append_assoc, innerRuns fits, skipped]
  | words first more =>
    obtain ⟨isWord, words, ends⟩ := fits
    rw [yield, runs, List.cons_append, wordRuns, if_pos isWord, takeWhile_append_of_stop words ends,
      dropWhile_append_of_stop words ends, List.singleton_append]

theorem flags_treeFrom (source : Text) {s : Symbol} (d : Derivation s) (lhs : Condition) :
    (d.treeFrom source lhs).flags =
      (s.goal lhs).lhs.flags ++ d.runs.map (runName source) := by
  induction d generalizing lhs with
  | disjunction first more firstFlags moreFlags | conjunction first more firstFlags moreFlags =>
    rw [treeFrom, moreFlags, runs, List.map_append, ← List.append_assoc]
    exact congrArg (· ++ _) (firstFlags .missing)
  | disjunct join next more nextFlags moreFlags | conjunct join next more nextFlags moreFlags =>
    have left := nextFlags .missing
    rw [treeFrom, moreFlags, runs, List.map_append, ← List.append_assoc]
    exact congrArg (· ++ _) (congrArg (lhs.flags ++ ·) left)
  | noDisjunct | noConjunct => exact (List.append_nil _).symm
  | not keyword inner innerFlags => exact innerFlags .missing
  | operand inner innerFlags => exact innerFlags .missing
  | parentheses opening inner closing innerFlags => exact innerFlags .missing
  | words first more => rfl
  | nothing => rfl

end Derivation

structure Derives (text : String) (d : Derivation .disjunction) : Prop where
  spans : d.yield = tokens text
  fits : d.Fits []

theorem Symbol.follows_nil (s : Symbol) : s.Follows [] := by
  cases s <;> exact fun t first => nomatch first

theorem Derives.unique {text : String} {d d' : Derivation .disjunction} (derives : Derives text d)
    (derives' : Derives text d') : d = d' := by
  have same : d.yield ++ [] = d'.yield ++ [] := by rw [derives.spans, derives'.spans]
  exact (d.unique d' same derives.fits derives'.fits (Symbol.follows_nil _)
    (Symbol.follows_nil _)).1

theorem parse_eq_ok_of_derives {text : String} {d : Derivation .disjunction}
    (derives : Derives text d) (nonempty : tokens text ≠ []) (shallow : d.nesting ≤ maxDepth) :
    parse text = .ok (d.tree text.toList) := by
  have stand := standAt_tokens text
  have present : lexemes text.toList ≠ [] := fun empty => nonempty (stand.nil_iff.1 empty)
  rw [← derives.spans, ← List.append_nil d.yield] at stand
  obtain ⟨rest, reads, stand⟩ := d.reads stand derives.fits (Symbol.follows_nil _)
    (Nat.le_trans (Nat.le_of_eq (Nat.zero_add _)) shallow)
  obtain rfl := stand.nil_iff.2 rfl
  exact (parseLexemes_eq_ok_iff _ _).2 ⟨present, reads⟩

theorem exists_derives_of_parse {text : String} {whole : Condition}
    (parsed : parse text = .ok whole) :
    tokens text ≠ [] ∧ ∃ d, Derives text d ∧ d.nesting ≤ maxDepth ∧
      d.tree text.toList = whole := by
  obtain ⟨present, reads⟩ := (parseLexemes_eq_ok_iff _ _).1 parsed
  have stand := standAt_tokens text
  refine ⟨fun empty => present (stand.nil_iff.2 empty), ?_⟩
  rcases reads.exists_derivation stand (Nat.zero_le _) with
    ⟨_, first, _⟩ | ⟨d, after, spans, stand, fits, shallow, tree⟩
  · exact nomatch first
  obtain rfl := stand.nil_iff.1 rfl
  rw [Nat.zero_add] at shallow
  rw [List.append_nil] at spans
  exact ⟨d, ⟨spans.symm, fits⟩, shallow, tree⟩

/-- A text is read as a condition exactly if its tokens are derived as that condition, nested
128 deep at most. It has no second derivation, and the flags of the condition are the runs of
words of the text in their order. -/
theorem parse_eq_ok_iff_derives (text : String) :
    (∀ whole, parse text = .ok whole ↔
      tokens text ≠ [] ∧ ∃ d, Derives text d ∧ d.nesting ≤ 128 ∧ d.tree text.toList = whole) ∧
    (∀ d d', Derives text d → Derives text d' → d = d') ∧
    (∀ whole, parse text = .ok whole →
      whole.flags = (wordRuns (tokens text)).map (runName text.toList)) ∧
    (wordRuns (tokens text)).flatten = (tokens text).filter isWordToken := by
  refine ⟨fun whole => ⟨exists_derives_of_parse, ?_⟩, fun d d' => Derives.unique, ?_,
    flatten_wordRuns _⟩
  · rintro ⟨nonempty, d, derives, shallow, rfl⟩
    exact parse_eq_ok_of_derives derives nonempty shallow
  · intro whole parsed
    obtain ⟨_, d, derives, _, rfl⟩ := exists_derives_of_parse parsed
    have runs := d.wordRuns_yield derives.fits
    rw [List.append_nil, derives.spans, wordRuns, List.append_nil] at runs
    rw [runs]
    exact d.flags_treeFrom text.toList .missing

theorem derives_open_at_end :
    ∃ d, Derives "a OR b c AND NOT (d" d ∧ (∀ d', Derives "a OR b c AND NOT (d" d' → d' = d) ∧
      d.tree "a OR b c AND NOT (d".toList =
        .or (.flag "a") (.and (.flag "b c") (.not (.flag "d"))) ∧
      ["a", "b c", "d"] = (wordRuns (tokens "a OR b c AND NOT (d")).map
        (runName "a OR b c AND NOT (d".toList) := by
  have parsed : parse "a OR b c AND NOT (d" =
      .ok (.or (.flag "a") (.and (.flag "b c") (.not (.flag "d")))) := by decide +kernel
  obtain ⟨accepts, unique, flags, _⟩ := parse_eq_ok_iff_derives "a OR b c AND NOT (d"
  obtain ⟨_, d, derives, _, tree⟩ := (accepts _).1 parsed
  exact ⟨d, derives, fun d' other => unique d' d other derives, tree, flags _ parsed⟩

end Scaffold.Condition
