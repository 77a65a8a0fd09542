import Scaffold.Proofs.Condition.Spelling

/-! The written form of a condition, read again. Its lexemes are known from the condition, and
reading them goes down one level for each `OR`, `AND` and `NOT` around a flag. So the form is
read as the condition it was made from, with the name that stands for a missing operand, unless
these nest too deep; then it is refused for its depth. -/

namespace Scaffold.Condition

def height : Condition → Nat
  | .or lhs rhs | .and lhs rhs => max lhs.height rhs.height + 1
  | .not inner => inner.height + 1
  | .flag _ | .missing => 0

/-- The condition with a flag called `<missing>` for every missing operand. -/
def named : Condition → Condition
  | .or lhs rhs => .or lhs.named rhs.named
  | .and lhs rhs => .and lhs.named rhs.named
  | .not inner => .not inner.named
  | .flag name => .flag name
  | .missing => .flag "<missing>"

theorem holds_named {flags : FlagSet} (off : flags "<missing>" = false) (c : Condition) :
    c.named.holds flags = c.holds flags := by
  induction c with
  | or lhs rhs left right | and lhs rhs left right => rw [named, holds, holds, left, right]
  | not inner ih => rw [named, holds, holds, ih]
  | flag name => rfl
  | missing => exact off

def withGap (gap : Text) : List Lexeme → List Lexeme
  | [] => []
  | first :: more => ⟨gap, first.text⟩ :: more

def closer : Lexeme := ⟨[], [')']⟩

theorem token_closer : closer.token = .closing := by decide

def orWord : Lexeme := ⟨[' '], ['O', 'R']⟩

def andWord : Lexeme := ⟨[' '], ['A', 'N', 'D']⟩

theorem token_opening (gap : Text) : Lexeme.token ⟨gap, ['(']⟩ = .opening := by
  change Token.ofText ['('] = .opening
  decide

theorem token_notWord (gap : Text) : Lexeme.token ⟨gap, ['N', 'O', 'T']⟩ = .not := by
  change Token.ofText ['N', 'O', 'T'] = .not
  decide

theorem token_orWord : orWord.token = .or := by decide

theorem token_andWord : andWord.token = .and := by decide

def joined (gap : Text) (lhs : List Lexeme) (join : Lexeme) (rhs : List Lexeme) : List Lexeme :=
  ⟨gap, ['(']⟩ :: (lhs ++ join :: (rhs ++ [closer]))

def spelled (gap : Text) : Condition → List Lexeme
  | .or lhs rhs => joined gap (lhs.spelled []) orWord (rhs.spelled [' '])
  | .and lhs rhs => joined gap (lhs.spelled []) andWord (rhs.spelled [' '])
  | .not inner => ⟨gap, ['N', 'O', 'T']⟩ :: inner.spelled [' ']
  | .flag name => withGap gap (lexemes name.toList)
  | .missing => [⟨gap, "<missing>".toList⟩]

section Joined

variable {gap : Text} {join : Lexeme} {lhs rhs rest : List Lexeme}

theorem whole_joined :
    (joined gap lhs join rhs).flatMap Lexeme.whole =
      gap ++ '(' :: (lhs.flatMap Lexeme.whole ++
        (join.whole ++ (rhs.flatMap Lexeme.whole ++ [')']))) := by
  simp [joined, closer, Lexeme.whole]

theorem joined_append :
    joined gap lhs join rhs ++ rest =
      ⟨gap, ['(']⟩ :: (lhs ++ join :: (rhs ++ closer :: rest)) := by
  simp [joined]

theorem separated_joined (blank : Text.isAllBlank gap = true) (left : Separated lhs)
    (right : Separated rhs) (space : (rhs.flatMap Lexeme.whole).head? = some ' ')
    (isJoin : join = orWord ∨ join = andWord) : Separated (joined gap lhs join rhs) := by
  have closing : Separated [closer] := .parenthesis rfl rfl .nil
  have endsAtClosing : EndsWord ([closer].flatMap Lexeme.whole) := by
    intro c first
    cases first
    decide
  have endsAtSpace : EndsWord ((rhs ++ [closer]).flatMap Lexeme.whole) := by
    intro c first
    rw [List.flatMap_append, List.head?_append, space] at first
    cases first
    decide
  have behind := right.append closing endsAtClosing
  rcases isJoin with rfl | rfl
  all_goals
    refine .parenthesis blank rfl (left.append
      (.word rfl (by decide) (List.all_eq_true.1 (by decide)) endsAtSpace behind) ?_)
    intro c first
    cases first
    decide

variable {depth : Nat} {first second whole : Condition}

theorem reads_joined (shallow : depth < maxDepth)
    (inside : Reads .disjunction (depth + 1) (lhs ++ join :: (rhs ++ closer :: rest)) whole
      (closer :: rest)) : Reads .operand depth (joined gap lhs join rhs ++ rest) whole rest := by
  rw [joined_append]
  exact inside.parenthesized (token_opening gap) token_closer shallow

theorem reading_joined_tooDeep
    (deep : depth < maxDepth → reading .disjunction (depth + 1)
      (lhs ++ join :: (rhs ++ closer :: rest)) = .error .tooDeep) :
    reading .operand depth (joined gap lhs join rhs ++ rest) = .error .tooDeep := by
  rw [joined_append, reading_operand_opening _ _ _ (token_opening gap)]
  split_ifs with atLimit
  · rfl
  · rw [deep (Nat.not_le.1 atLimit)]
    rfl

theorem reading_disjunction_tooDeep {input : List Lexeme}
    (deep : reading .operand depth input = .error .tooDeep) :
    reading .disjunction depth input = .error .tooDeep := by
  rw [reading_disjunction, reading_conjunction, deep]
  rfl

theorem reading_or_tooDeep
    (left : Reads .operand depth (lhs ++ orWord :: rest) first (orWord :: rest))
    (deep : reading .operand depth rest = .error .tooDeep) :
    reading .disjunction depth (lhs ++ orWord :: rest) = .error .tooDeep := by
  have conjunction : Reads .conjunction depth (lhs ++ orWord :: rest) first (orWord :: rest) :=
    .conjunction left (.noConjunct (by simp [token_orWord]))
  rw [reading_disjunction, conjunction.reading_eq]
  change reading (.moreDisjuncts first) depth (orWord :: rest) = _
  rw [reading_moreDisjuncts_or _ _ _ _ token_orWord, reading_conjunction, deep]
  rfl

theorem reading_and_tooDeep
    (left : Reads .operand depth (lhs ++ andWord :: rest) first (andWord :: rest))
    (deep : reading .operand depth rest = .error .tooDeep) :
    reading .disjunction depth (lhs ++ andWord :: rest) = .error .tooDeep := by
  have conjunction : reading .conjunction depth (lhs ++ andWord :: rest) = .error .tooDeep := by
    rw [reading_conjunction, left.reading_eq]
    change reading (.moreConjuncts first) depth (andWord :: rest) = _
    rw [reading_moreConjuncts_and _ _ _ _ token_andWord, deep]
    rfl
  rw [reading_disjunction, conjunction]
  rfl

end Joined

theorem IsName.exists_lexemes {name : String} (isName : IsName name) :
    ∃ first more, lexemes name.toList = first :: more ∧ isWordLexeme first = true ∧
      (∀ lexeme ∈ more, isWordLexeme lexeme = true) ∧ flagName (first :: more) = name := by
  obtain ⟨first, more, read⟩ := List.exists_cons_of_ne_nil isName.present
  have words := isName.words
  have whole := isName.whole
  rw [read] at words whole
  exact ⟨first, more, read, words first List.mem_cons_self,
    fun lexeme member => words lexeme (List.mem_cons_of_mem first member), whole⟩

section Spelled

variable {c : Condition}

def HasNames (c : Condition) : Prop := ∀ name ∈ c.flags, IsName name

theorem hasNames_append {lhs rhs : Condition} (names : ∀ name ∈ lhs.flags ++ rhs.flags, IsName name) :
    lhs.HasNames ∧ rhs.HasNames :=
  ⟨fun name member => names name (List.mem_append_left _ member),
    fun name member => names name (List.mem_append_right _ member)⟩

theorem whole_spelled (names : c.HasNames) (gap : Text) :
    (c.spelled gap).flatMap Lexeme.whole = gap ++ c.display.toList := by
  induction c generalizing gap with
  | or lhs rhs left right | and lhs rhs left right =>
    obtain ⟨namesLeft, namesRight⟩ := hasNames_append names
    rw [spelled, whole_joined, left namesLeft, right namesRight, display]
    simp [Lexeme.whole, orWord, andWord]
  | not inner ih =>
    rw [spelled, List.flatMap_cons, ih names, display, Lexeme.whole]
    simp
  | flag name =>
    obtain ⟨first, more, read, _, _, whole⟩ :=
      (names name (List.mem_singleton.2 rfl)).exists_lexemes
    rw [spelled, read, withGap, display, ← whole, flagName, String.toList_ofList,
      List.flatMap_cons, Lexeme.whole, List.append_assoc]
    rfl
  | missing => simp [spelled, Lexeme.whole, display]

theorem separated_spelled (names : c.HasNames) {gap : Text} (blank : Text.isAllBlank gap = true) :
    Separated (c.spelled gap) := by
  induction c generalizing gap with
  | or lhs rhs left right | and lhs rhs left right =>
    obtain ⟨namesLeft, namesRight⟩ := hasNames_append names
    refine separated_joined blank (left namesLeft rfl) (right namesRight rfl) ?_ (by simp)
    rw [whole_spelled namesRight]
    rfl
  | not inner ih =>
    refine .word blank (by decide) (List.all_eq_true.1 (by decide)) ?_ (ih names rfl)
    rw [whole_spelled (c := inner) names]
    intro c first
    cases first
    decide
  | flag name =>
    obtain ⟨first, more, read, _⟩ := (names name (List.mem_singleton.2 rfl)).exists_lexemes
    have separated := separated_lexemes name.toList
    rw [read] at separated
    rw [spelled, read]
    exact separated.with_gap blank
  | missing =>
    exact .word blank (by decide) (List.all_eq_true.1 (by decide)) endsWord_nil .nil

theorem lexemes_display (names : c.HasNames) : lexemes c.display.toList = c.spelled [] := by
  have whole := whole_spelled names []
  rw [List.nil_append] at whole
  rw [← whole]
  exact (separated_spelled names rfl).lexemes_eq

variable {depth : Nat} {gap : Text} {rest : List Lexeme}

theorem reads_run {lexeme : Lexeme} {more : List Lexeme} (isWord : isWordLexeme lexeme = true)
    (words : ∀ next ∈ more, isWordLexeme next = true)
    (ends : ∀ next ∈ rest.head?, isWordLexeme next = false) :
    Reads .operand depth (lexeme :: (more ++ rest)) (.flag (flagName (lexeme :: more))) rest := by
  have reads : Reads .operand depth (lexeme :: (more ++ rest)) _ _ := .words isWord
  rwa [takeWhile_append_of_stop words ends, dropWhile_append_of_stop words ends] at reads

/-- The lexemes of a written form that is not too deep are read as its condition. -/
theorem reads_spelled (names : c.HasNames) (shallow : depth + c.height ≤ maxDepth)
    (ends : ∀ lexeme ∈ rest.head?, isWordLexeme lexeme = false) :
    Reads .operand depth (c.spelled gap ++ rest) c.named rest := by
  induction c generalizing depth gap rest with
  | or lhs rhs left right =>
    obtain ⟨namesLeft, namesRight⟩ := hasNames_append names
    rw [height, ← Nat.add_assoc, Nat.add_right_comm, ← Nat.add_max_add_left, Nat.max_le]
      at shallow
    exact reads_joined (by omega)
      (.joined_or token_orWord token_closer
        (left namesLeft shallow.1 (by simp [isWordLexeme, token_orWord, Token.isWord]))
        (right namesRight shallow.2 (by simp [isWordLexeme, token_closer, Token.isWord])))
  | and lhs rhs left right =>
    obtain ⟨namesLeft, namesRight⟩ := hasNames_append names
    rw [height, ← Nat.add_assoc, Nat.add_right_comm, ← Nat.add_max_add_left, Nat.max_le]
      at shallow
    exact reads_joined (by omega)
      (.joined_and token_andWord token_closer
        (left namesLeft shallow.1 (by simp [isWordLexeme, token_andWord, Token.isWord]))
        (right namesRight shallow.2 (by simp [isWordLexeme, token_closer, Token.isWord])))
  | not inner ih =>
    rw [height, ← Nat.add_assoc, Nat.add_right_comm] at shallow
    exact .not (token_notWord gap) (by omega) (ih names shallow ends)
  | flag name =>
    obtain ⟨first, more, read, isWord, words, whole⟩ :=
      (names name (List.mem_singleton.2 rfl)).exists_lexemes
    rw [spelled, read, named, ← whole]
    exact reads_run isWord words ends
  | missing =>
    have isWord : (Token.ofText "<missing>".toList).isWord = true := by decide +kernel
    exact reads_run isWord (List.forall_mem_nil _) ends

/-- Those of a form that is too deep are refused, whatever follows. The left side is read first,
so where it is shallow the right side is reached. -/
theorem reading_spelled_tooDeep (names : c.HasNames) (within : depth ≤ maxDepth)
    (deep : maxDepth < depth + c.height) :
    reading .operand depth (c.spelled gap ++ rest) = .error .tooDeep := by
  induction c generalizing depth gap rest with
  | or lhs rhs left right =>
    obtain ⟨namesLeft, namesRight⟩ := hasNames_append names
    rw [height, ← Nat.add_assoc, Nat.add_right_comm, ← Nat.add_max_add_left] at deep
    refine reading_joined_tooDeep fun inside => ?_
    rcases Nat.lt_or_ge maxDepth (depth + 1 + lhs.height) with deepLeft | shallow
    · exact reading_disjunction_tooDeep (left namesLeft inside deepLeft)
    · exact reading_or_tooDeep (reads_spelled namesLeft shallow
        (by simp [isWordLexeme, token_orWord, Token.isWord]))
        (right namesRight inside (by omega))
  | and lhs rhs left right =>
    obtain ⟨namesLeft, namesRight⟩ := hasNames_append names
    rw [height, ← Nat.add_assoc, Nat.add_right_comm, ← Nat.add_max_add_left] at deep
    refine reading_joined_tooDeep fun inside => ?_
    rcases Nat.lt_or_ge maxDepth (depth + 1 + lhs.height) with deepLeft | shallow
    · exact reading_disjunction_tooDeep (left namesLeft inside deepLeft)
    · exact reading_and_tooDeep (reads_spelled namesLeft shallow
        (by simp [isWordLexeme, token_andWord, Token.isWord]))
        (right namesRight inside (by omega))
  | not inner ih =>
    rw [height, ← Nat.add_assoc, Nat.add_right_comm] at deep
    rw [spelled, List.cons_append, reading_operand_not _ _ _ (token_notWord gap)]
    split_ifs with atLimit
    · rfl
    · rw [ih names (Nat.not_le.1 atLimit) deep]
      rfl
  | flag | missing =>
    rw [height] at deep
    exact absurd deep (Nat.not_lt.2 within)

end Spelled

theorem parseLexemes_eq_error {input : List Lexeme} {e : ParseError} (present : input ≠ [])
    (fails : reading .disjunction 0 input = .error e) : parseLexemes input = .error e := by
  rw [parseLexemes_eq_bind present, fails]
  rfl

theorem spelled_ne_nil {c : Condition} (names : c.HasNames) : c.spelled [] ≠ [] := by
  cases c with
  | or | and | not | missing => exact List.cons_ne_nil _ _
  | flag name =>
    obtain ⟨first, more, read, _⟩ := (names name (List.mem_singleton.2 rfl)).exists_lexemes
    rw [spelled, read]
    exact List.cons_ne_nil _ _

theorem parse_display_of_hasNames {c : Condition} (names : c.HasNames)
    (shallow : c.height ≤ maxDepth) : parse c.display = .ok c.named := by
  have operand : Reads .operand 0 (c.spelled [] ++ []) c.named [] :=
    reads_spelled names (by omega) fun _ first => nomatch first
  have reads : Reads .disjunction 0 (c.spelled []) c.named [] := by
    rw [List.append_nil] at operand
    exact .disjunction (.conjunction operand (.noConjunct fun _ first => nomatch first))
      (.noDisjunct fun _ first => nomatch first)
  rw [parse, lexemes_display names]
  exact (parseLexemes_eq_ok_iff _ _).2 ⟨spelled_ne_nil names, reads⟩

/-- The written form of a condition that was read is read as the same condition, every missing
operand now being a flag of that name. It holds for the same flags where that flag is off. Only
if more than 128 joins and `NOT`s lie around one point is the written form refused, and then
for its depth. -/
theorem parse_display {text : String} {c : Condition} (parsed : parse text = .ok c) :
    (c.height ≤ 128 → parse c.display = .ok c.named) ∧
    (128 < c.height → parse c.display = .error .tooDeep) ∧
    (c.height ≤ 128 → ∀ flags : FlagSet, flags "<missing>" = false →
      (evaluate flags c.display).value = (c.decide flags).value) := by
  have names : c.HasNames := isName_of_parse parsed
  refine ⟨parse_display_of_hasNames names, fun deep => ?_, fun shallow flags off => ?_⟩
  · have fails : reading .operand 0 (c.spelled [] ++ []) = .error .tooDeep :=
      reading_spelled_tooDeep names (Nat.zero_le _) (by rw [Nat.zero_add]; exact deep)
    rw [List.append_nil] at fails
    rw [parse, lexemes_display names]
    exact parseLexemes_eq_error (spelled_ne_nil names) (reading_disjunction_tooDeep fails)
  · have again := parse_display_of_hasNames names shallow
    rw [evaluate, read, again, Recorded.value_bind]
    change (c.named.decide flags).value = _
    rw [value_decide, value_decide, holds_named off]

theorem parse_display_missing_operand :
    parse "not a  b OR x and ()" = .ok (.or (.not (.flag "a  b")) (.and (.flag "x") .missing)) ∧
      parse "(NOT a  b OR (x AND <missing>))" =
        .ok (.or (.not (.flag "a  b")) (.and (.flag "x") (.flag "<missing>"))) ∧
      (evaluate (fun name => name == "x") "(NOT a  b OR (x AND <missing>))").value = true := by
  have parsed : parse "not a  b OR x and ()" =
      .ok (.or (.not (.flag "a  b")) (.and (.flag "x") .missing)) := by decide +kernel
  obtain ⟨again, _, value⟩ := parse_display parsed
  exact ⟨parsed, again (by decide), value (by decide) (fun name => name == "x") (by decide)⟩

end Scaffold.Condition
