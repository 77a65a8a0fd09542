import Mathlib.Tactic.Common
import Scaffold.Condition.Parser
import Scaffold.Proofs.Except

/-! What reading a condition does at each goal, one equation for each kind of input, and the
readings that succeed as a relation: from a goal, a depth and the lexemes to read, to the
condition that was read and the lexemes behind it. -/

namespace Scaffold.Condition

def reading (goal : Goal) (depth : Nat) (input : List Lexeme) :
    Except ParseError (Condition × List Lexeme) :=
  (parseGoal goal depth input).map fun p => (p.tree, p.rest)

section Equations

variable (depth : Nat) (lhs : Condition) (lexeme : Lexeme) (input rest : List Lexeme)

theorem reading_disjunction :
    reading .disjunction depth input =
      (reading .conjunction depth input).bind fun p =>
        reading (.moreDisjuncts p.1) depth p.2 := by
  unfold reading
  rw [parseGoal]
  cases parseGoal .conjunction depth input with
  | error e => rfl
  | ok first =>
    simp only [Except.map, Except.bind]
    cases parseGoal (.moreDisjuncts first.tree) depth first.rest <;> rfl

theorem reading_moreDisjuncts_nil : reading (.moreDisjuncts lhs) depth [] = .ok (lhs, []) := by
  unfold reading
  rw [parseGoal]
  rfl

theorem reading_moreDisjuncts_or (isOr : lexeme.token = .or) :
    reading (.moreDisjuncts lhs) depth (lexeme :: rest) =
      (reading .conjunction depth rest).bind fun p =>
        reading (.moreDisjuncts (.or lhs p.1)) depth p.2 := by
  unfold reading
  rw [parseGoal]
  simp only [isOr, if_true]
  cases parseGoal .conjunction depth rest with
  | error e => rfl
  | ok next =>
    simp only [Except.map, Except.bind]
    cases parseGoal (.moreDisjuncts (.or lhs next.tree)) depth next.rest <;> rfl

theorem reading_moreDisjuncts_stop (notOr : lexeme.token ≠ .or) :
    reading (.moreDisjuncts lhs) depth (lexeme :: rest) = .ok (lhs, lexeme :: rest) := by
  unfold reading
  rw [parseGoal]
  simp only [notOr, if_false]
  rfl

theorem reading_conjunction :
    reading .conjunction depth input =
      (reading .operand depth input).bind fun p =>
        reading (.moreConjuncts p.1) depth p.2 := by
  unfold reading
  rw [parseGoal]
  cases parseGoal .operand depth input with
  | error e => rfl
  | ok first =>
    simp only [Except.map, Except.bind]
    cases parseGoal (.moreConjuncts first.tree) depth first.rest <;> rfl

theorem reading_moreConjuncts_nil : reading (.moreConjuncts lhs) depth [] = .ok (lhs, []) := by
  unfold reading
  rw [parseGoal]
  rfl

theorem reading_moreConjuncts_and (isAnd : lexeme.token = .and) :
    reading (.moreConjuncts lhs) depth (lexeme :: rest) =
      (reading .operand depth rest).bind fun p =>
        reading (.moreConjuncts (.and lhs p.1)) depth p.2 := by
  unfold reading
  rw [parseGoal]
  simp only [isAnd, if_true]
  cases parseGoal .operand depth rest with
  | error e => rfl
  | ok next =>
    simp only [Except.map, Except.bind]
    cases parseGoal (.moreConjuncts (.and lhs next.tree)) depth next.rest <;> rfl

theorem reading_moreConjuncts_stop (notAnd : lexeme.token ≠ .and) :
    reading (.moreConjuncts lhs) depth (lexeme :: rest) = .ok (lhs, lexeme :: rest) := by
  unfold reading
  rw [parseGoal]
  simp only [notAnd, if_false]
  rfl

theorem reading_operand_nil : reading .operand depth [] = .ok (.missing, []) := by
  unfold reading
  rw [parseGoal]
  rfl

theorem reading_operand_not (isNot : lexeme.token = .not) :
    reading .operand depth (lexeme :: rest) =
      if maxDepth ≤ depth then .error .tooDeep
      else (reading .operand (depth + 1) rest).map fun p => (.not p.1, p.2) := by
  unfold reading
  rw [parseGoal]
  simp only [isNot]
  split_ifs
  · rfl
  · cases parseGoal .operand (depth + 1) rest <;> rfl

theorem reading_operand_opening (opens : lexeme.token = .opening) :
    reading .operand depth (lexeme :: rest) =
      if maxDepth ≤ depth then .error .tooDeep
      else (reading .disjunction (depth + 1) rest).map fun p => (p.1, afterClosing p.2) := by
  rw [reading, parseGoal]
  simp only [opens]
  split_ifs
  · rfl
  · unfold reading
    cases parseGoal .disjunction (depth + 1) rest <;> rfl

theorem reading_operand_word (isWord : lexeme.token.isWord = true) :
    reading .operand depth (lexeme :: rest) =
      .ok (.flag (flagName (lexeme :: rest.takeWhile isWordLexeme)),
        rest.dropWhile isWordLexeme) := by
  unfold reading
  rw [parseGoal]
  cases token : lexeme.token with
  | word text => rfl
  | and | or | not | opening | closing =>
    rw [token] at isWord
    exact absurd isWord (by decide)

/-- A join and a closing parenthesis are left to what stands around. -/
theorem reading_operand_missing
    (ends : lexeme.token = .and ∨ lexeme.token = .or ∨ lexeme.token = .closing) :
    reading .operand depth (lexeme :: rest) = .ok (.missing, lexeme :: rest) := by
  unfold reading
  rw [parseGoal]
  rcases ends with token | token | token <;> simp only [token] <;> rfl

end Equations

inductive Reads : Goal → Nat → List Lexeme → Condition → List Lexeme → Prop where
  | disjunction {depth : Nat} {input between rest : List Lexeme} {first whole : Condition}
      (head : Reads .conjunction depth input first between)
      (tail : Reads (.moreDisjuncts first) depth between whole rest) :
      Reads .disjunction depth input whole rest
  | noDisjunct {depth : Nat} {input : List Lexeme} {lhs : Condition}
      (stops : ∀ lexeme ∈ input.head?, lexeme.token ≠ .or) :
      Reads (.moreDisjuncts lhs) depth input lhs input
  | disjunct {depth : Nat} {lexeme : Lexeme} {input between rest : List Lexeme}
      {lhs next whole : Condition} (isOr : lexeme.token = .or)
      (head : Reads .conjunction depth input next between)
      (tail : Reads (.moreDisjuncts (.or lhs next)) depth between whole rest) :
      Reads (.moreDisjuncts lhs) depth (lexeme :: input) whole rest
  | conjunction {depth : Nat} {input between rest : List Lexeme} {first whole : Condition}
      (head : Reads .operand depth input first between)
      (tail : Reads (.moreConjuncts first) depth between whole rest) :
      Reads .conjunction depth input whole rest
  | noConjunct {depth : Nat} {input : List Lexeme} {lhs : Condition}
      (stops : ∀ lexeme ∈ input.head?, lexeme.token ≠ .and) :
      Reads (.moreConjuncts lhs) depth input lhs input
  | conjunct {depth : Nat} {lexeme : Lexeme} {input between rest : List Lexeme}
      {lhs next whole : Condition} (isAnd : lexeme.token = .and)
      (head : Reads .operand depth input next between)
      (tail : Reads (.moreConjuncts (.and lhs next)) depth between whole rest) :
      Reads (.moreConjuncts lhs) depth (lexeme :: input) whole rest
  | not {depth : Nat} {lexeme : Lexeme} {input rest : List Lexeme} {inner : Condition}
      (isNot : lexeme.token = .not) (shallow : depth < maxDepth)
      (reads : Reads .operand (depth + 1) input inner rest) :
      Reads .operand depth (lexeme :: input) (.not inner) rest
  | parentheses {depth : Nat} {lexeme : Lexeme} {input rest : List Lexeme} {inner : Condition}
      (opens : lexeme.token = .opening) (shallow : depth < maxDepth)
      (reads : Reads .disjunction (depth + 1) input inner rest) :
      Reads .operand depth (lexeme :: input) inner (afterClosing rest)
  | words {depth : Nat} {lexeme : Lexeme} {input : List Lexeme}
      (isWord : lexeme.token.isWord = true) :
      Reads .operand depth (lexeme :: input)
        (.flag (flagName (lexeme :: input.takeWhile isWordLexeme)))
        (input.dropWhile isWordLexeme)
  | missing {depth : Nat} {input : List Lexeme}
      (ends : ∀ lexeme ∈ input.head?,
        lexeme.token = .and ∨ lexeme.token = .or ∨ lexeme.token = .closing) :
      Reads .operand depth input .missing input

section Parentheses

variable {depth : Nat} {join opening closing : Lexeme} {input between after : List Lexeme}
  {first second whole : Condition}

theorem Reads.parenthesized (opens : opening.token = .opening) (closes : closing.token = .closing)
    (shallow : depth < maxDepth)
    (inside : Reads .disjunction (depth + 1) input whole (closing :: after)) :
    Reads .operand depth (opening :: input) whole after := by
  have reads := Reads.parentheses opens shallow inside
  rwa [afterClosing, if_pos closes] at reads

theorem Reads.alone (closes : closing.token = .closing)
    (operand : Reads .operand depth input first (closing :: after)) :
    Reads .disjunction depth input first (closing :: after) :=
  .disjunction (.conjunction operand (.noConjunct (by simp [closes])))
    (.noDisjunct (by simp [closes]))

theorem Reads.joined_or (isOr : join.token = .or) (closes : closing.token = .closing)
    (left : Reads .operand depth input first (join :: between))
    (right : Reads .operand depth between second (closing :: after)) :
    Reads .disjunction depth input (.or first second) (closing :: after) :=
  .disjunction (.conjunction left (.noConjunct (by simp [isOr])))
    (.disjunct isOr (.conjunction right (.noConjunct (by simp [closes])))
      (.noDisjunct (by simp [closes])))

theorem Reads.joined_and (isAnd : join.token = .and) (closes : closing.token = .closing)
    (left : Reads .operand depth input first (join :: between))
    (right : Reads .operand depth between second (closing :: after)) :
    Reads .disjunction depth input (.and first second) (closing :: after) :=
  .disjunction (.conjunction left (.conjunct isAnd right (.noConjunct (by simp [closes]))))
    (.noDisjunct (by simp [closes]))

end Parentheses

theorem Reads.reading_eq {goal : Goal} {depth : Nat} {input rest : List Lexeme}
    {whole : Condition} (reads : Reads goal depth input whole rest) :
    reading goal depth input = .ok (whole, rest) := by
  induction reads with
  | disjunction _ _ head tail =>
    rw [reading_disjunction]
    exact bind_eq_ok_iff.2 ⟨_, head, tail⟩
  | @noDisjunct _ input _ stops =>
    cases input with
    | nil => exact reading_moreDisjuncts_nil ..
    | cons lexeme rest => exact reading_moreDisjuncts_stop _ _ _ _ (stops lexeme rfl)
  | disjunct isOr _ _ head tail =>
    rw [reading_moreDisjuncts_or _ _ _ _ isOr]
    exact bind_eq_ok_iff.2 ⟨_, head, tail⟩
  | conjunction _ _ head tail =>
    rw [reading_conjunction]
    exact bind_eq_ok_iff.2 ⟨_, head, tail⟩
  | @noConjunct _ input _ stops =>
    cases input with
    | nil => exact reading_moreConjuncts_nil ..
    | cons lexeme rest => exact reading_moreConjuncts_stop _ _ _ _ (stops lexeme rfl)
  | conjunct isAnd _ _ head tail =>
    rw [reading_moreConjuncts_and _ _ _ _ isAnd]
    exact bind_eq_ok_iff.2 ⟨_, head, tail⟩
  | not isNot shallow _ inner =>
    rw [reading_operand_not _ _ _ isNot, if_neg (Nat.not_le.2 shallow)]
    exact map_eq_ok_iff.2 ⟨_, inner, rfl⟩
  | parentheses opens shallow _ inner =>
    rw [reading_operand_opening _ _ _ opens, if_neg (Nat.not_le.2 shallow)]
    exact map_eq_ok_iff.2 ⟨_, inner, rfl⟩
  | words isWord => exact reading_operand_word _ _ _ isWord
  | @missing _ input ends =>
    cases input with
    | nil => exact reading_operand_nil ..
    | cons lexeme rest => exact reading_operand_missing _ _ _ (ends lexeme rfl)

theorem length_le_of_reading {goal : Goal} {depth : Nat} {input rest : List Lexeme}
    {whole : Condition} (h : reading goal depth input = .ok (whole, rest)) :
    rest.length ≤ input.length := by
  obtain ⟨parsed, _, same⟩ := map_eq_ok_iff.1 h
  cases same
  exact parsed.shorter

theorem reads_of_reading (goal : Goal) (depth : Nat) (input : List Lexeme) {rest : List Lexeme}
    {whole : Condition} (h : reading goal depth input = .ok (whole, rest)) :
    Reads goal depth input whole rest := by
  match goal, input with
  | .disjunction, input =>
    rw [reading_disjunction] at h
    obtain ⟨⟨first, between⟩, head, tail⟩ := bind_eq_ok_iff.1 h
    have bound := length_le_of_reading head
    exact .disjunction (reads_of_reading _ _ _ head) (reads_of_reading _ _ _ tail)
  | .conjunction, input =>
    rw [reading_conjunction] at h
    obtain ⟨⟨first, between⟩, head, tail⟩ := bind_eq_ok_iff.1 h
    have bound := length_le_of_reading head
    exact .conjunction (reads_of_reading _ _ _ head) (reads_of_reading _ _ _ tail)
  | .moreDisjuncts lhs, [] =>
    rw [reading_moreDisjuncts_nil] at h
    cases h
    exact .noDisjunct (by simp)
  | .moreDisjuncts lhs, lexeme :: input =>
    by_cases isOr : lexeme.token = .or
    · rw [reading_moreDisjuncts_or _ _ _ _ isOr] at h
      obtain ⟨⟨next, between⟩, head, tail⟩ := bind_eq_ok_iff.1 h
      have bound := length_le_of_reading head
      exact .disjunct isOr (reads_of_reading _ _ _ head) (reads_of_reading _ _ _ tail)
    · rw [reading_moreDisjuncts_stop _ _ _ _ isOr] at h
      cases h
      exact .noDisjunct (by simpa using isOr)
  | .moreConjuncts lhs, [] =>
    rw [reading_moreConjuncts_nil] at h
    cases h
    exact .noConjunct (by simp)
  | .moreConjuncts lhs, lexeme :: input =>
    by_cases isAnd : lexeme.token = .and
    · rw [reading_moreConjuncts_and _ _ _ _ isAnd] at h
      obtain ⟨⟨next, between⟩, head, tail⟩ := bind_eq_ok_iff.1 h
      have bound := length_le_of_reading head
      exact .conjunct isAnd (reads_of_reading _ _ _ head) (reads_of_reading _ _ _ tail)
    · rw [reading_moreConjuncts_stop _ _ _ _ isAnd] at h
      cases h
      exact .noConjunct (by simpa using isAnd)
  | .operand, [] =>
    rw [reading_operand_nil] at h
    cases h
    exact .missing (by simp)
  | .operand, lexeme :: input =>
    cases token : lexeme.token with
    | not =>
      rw [reading_operand_not _ _ _ token] at h
      split_ifs at h with deep
      obtain ⟨⟨inner, between⟩, reads, same⟩ := map_eq_ok_iff.1 h
      cases same
      exact .not token (Nat.not_le.1 deep) (reads_of_reading _ _ _ reads)
    | opening =>
      rw [reading_operand_opening _ _ _ token] at h
      split_ifs at h with deep
      obtain ⟨⟨inner, between⟩, reads, same⟩ := map_eq_ok_iff.1 h
      cases same
      exact .parentheses token (Nat.not_le.1 deep) (reads_of_reading _ _ _ reads)
    | word text =>
      have isWord : lexeme.token.isWord = true := by rw [token]; rfl
      rw [reading_operand_word _ _ _ isWord] at h
      cases h
      exact .words isWord
    | and | or | closing =>
      rw [reading_operand_missing _ _ _ (by simp [token])] at h
      cases h
      exact .missing (by simp [token])
termination_by (input.length, goal.rank)
decreasing_by
  all_goals simp only [Goal.rank, List.length_cons, Prod.lex_def, true_and]
  all_goals omega

theorem reading_eq_ok_iff (goal : Goal) (depth : Nat) (input rest : List Lexeme)
    (whole : Condition) :
    reading goal depth input = .ok (whole, rest) ↔ Reads goal depth input whole rest :=
  ⟨reads_of_reading goal depth input, Reads.reading_eq⟩

def complete : Condition × List Lexeme → Except ParseError Condition
  | (whole, []) => .ok whole
  | (_, lexeme :: _) => .error (.trailing lexeme.token)

theorem parseLexemes_eq_bind {input : List Lexeme} (present : input ≠ []) :
    parseLexemes input = (reading .disjunction 0 input).bind complete := by
  rw [parseLexemes, if_neg (by simpa using present), reading]
  cases parseGoal .disjunction 0 input with
  | error e => rfl
  | ok parsed =>
    obtain ⟨tree, rest, shorter⟩ := parsed
    cases rest <;> rfl

theorem parseLexemes_eq_ok_iff (input : List Lexeme) (whole : Condition) :
    parseLexemes input = .ok whole ↔ input ≠ [] ∧ Reads .disjunction 0 input whole [] := by
  cases input with
  | nil => simp [parseLexemes]
  | cons lexeme input =>
    rw [parseLexemes_eq_bind (List.cons_ne_nil lexeme input), bind_eq_ok_iff, ← reading_eq_ok_iff]
    constructor
    · rintro ⟨⟨tree, rest⟩, reads, done⟩
      cases rest with
      | nil =>
        cases done
        exact ⟨List.cons_ne_nil lexeme input, reads⟩
      | cons => exact nomatch done
    · exact fun ⟨_, reads⟩ => ⟨_, reads, rfl⟩

end Scaffold.Condition
