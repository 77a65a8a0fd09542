import Scaffold.Proofs.Condition.Display

/-! Conditions with parentheses around every join. Their words are names of flags, keywords in any
case, and parentheses, and blank characters keep apart what would run together otherwise. Such a
text is read as the condition its words spell, wherever else there are blank characters. -/

namespace Scaffold

namespace Condition

theorem Token.eq_of_ofText {text : Text} {name : String} (isWord : ofText text = .word name) :
    text = name.toList := by
  unfold ofText at isWord
  split_ifs at isWord
  injection isWord with same
  rw [← same, String.toList_ofList]

def IsOneWord (name : String) : Prop :=
  tokens name = [⟨0, Text.width name.toList, .word name⟩]

theorem isOneWord_iff {name : String} :
    IsOneWord name ↔
      lexemes name.toList = [⟨[], name.toList⟩] ∧ Token.ofText name.toList = .word name := by
  unfold IsOneWord tokens
  constructor
  · intro one
    obtain ⟨lexeme, rest, split⟩ : ∃ lexeme rest, lexemes name.toList = lexeme :: rest := by
      apply List.exists_cons_of_ne_nil
      intro empty
      rw [empty] at one
      exact nomatch one
    rw [split, placed, List.cons.injEq, Spanned.mk.injEq] at one
    obtain ⟨⟨noGap, _, token⟩, last⟩ := one
    have gap : lexeme.gap = [] := Text.eq_nil_of_width_eq_zero (by omega)
    have text : lexeme.text = name.toList := Token.eq_of_ofText token
    have alone : rest = [] := by
      rw [← List.length_eq_zero_iff, ← length_placed, last]
      rfl
    obtain ⟨_, _⟩ := lexeme
    subst gap text alone
    exact ⟨split, token⟩
  · rintro ⟨read, token⟩
    rw [read, placed, placed, Lexeme.token, token]
    simp [Text.width]

def IsPiece (word : Text) : Prop :=
  (∃ c, word = [c] ∧ isParenthesis c = true) ∨ (word ≠ [] ∧ ∀ c ∈ word, isWordChar c = true)

theorem IsOneWord.chars {name : String} (one : IsOneWord name) :
    name.toList ≠ [] ∧ ∀ c ∈ name.toList, isWordChar c = true := by
  obtain ⟨read, token⟩ := isOneWord_iff.1 one
  have separated := separated_lexemes name.toList
  rw [read] at separated
  generalize name.toList = text at separated token
  cases separated with
  | parenthesis _ isParen =>
    rw [isParenthesis, Bool.or_eq_true, beq_iff_eq, beq_iff_eq] at isParen
    rcases isParen with rfl | rfl <;> cases token
  | word _ nonempty chars => exact ⟨nonempty, chars⟩

section Keywords

variable {word : Text} {keyword : String}

theorem isWordChar_of_toLower {c : Char} (lower : isWordChar c.toLower = true) :
    isWordChar c = true := by
  by_cases upper : c.val ≥ 'A'.val ∧ c.val ≤ 'Z'.val
  · have bounds : 0x41 ≤ c.toNat ∧ c.toNat ≤ 0x5a := upper
    have notOpening : c ≠ '(' := by rintro rfl; exact absurd bounds (by decide)
    have notClosing : c ≠ ')' := by rintro rfl; exact absurd bounds (by decide)
    have notBlank : Text.isBlank c = false := by
      unfold Text.isBlank
      simp only [Bool.or_eq_false_iff, Bool.and_eq_false_iff, decide_eq_false_iff_not,
        beq_eq_false_iff_ne, ne_eq]
      omega
    simp [isWordChar, isParenthesis, notBlank, notOpening, notClosing]
  · unfold Char.toLower at lower
    rwa [dif_neg upper] at lower

theorem ofText_of_sameLetters (same : Text.sameLetters word keyword = true)
    (long : 1 < keyword.toList.length) (lower : keyword.toList.map Char.toLower = keyword.toList)
    (isKeyword : (Token.ofText keyword.toList).isWord = false) :
    Token.ofText word = Token.ofText keyword.toList := by
  have mapped : word.map Char.toLower = keyword.toList := beq_iff_eq.1 same
  have letters : ∀ other, Text.sameLetters word other = Text.sameLetters keyword.toList other := by
    intro other
    rw [Text.sameLetters, Text.sameLetters, mapped, lower]
  have length : word.length = keyword.toList.length := by
    rw [← mapped, List.length_map]
  have notParen : ∀ c, word ≠ [c] ∧ keyword.toList ≠ [c] := by
    intro c
    constructor
    · rintro rfl
      rw [← length] at long
      exact absurd long (by simp)
    · intro lone
      rw [lone] at long
      exact absurd long (by simp)
  unfold Token.ofText at isKeyword ⊢
  simp only [letters, notParen, if_false] at isKeyword ⊢
  split_ifs at isKeyword ⊢
  · rfl
  · rfl
  · rfl
  · cases isKeyword

theorem token_of_sameLetters_and (same : Text.sameLetters word "and" = true) :
    Token.ofText word = .and :=
  (ofText_of_sameLetters same (by decide) (by decide) (by decide)).trans (by decide)

theorem token_of_sameLetters_or (same : Text.sameLetters word "or" = true) :
    Token.ofText word = .or :=
  (ofText_of_sameLetters same (by decide) (by decide) (by decide)).trans (by decide)

theorem token_of_sameLetters_not (same : Text.sameLetters word "not" = true) :
    Token.ofText word = .not :=
  (ofText_of_sameLetters same (by decide) (by decide) (by decide)).trans (by decide)

theorem isPiece_of_sameLetters (same : Text.sameLetters word keyword = true)
    (nonempty : keyword.toList ≠ []) (chars : keyword.toList.all isWordChar = true) :
    IsPiece word := by
  have mapped : word.map Char.toLower = keyword.toList := beq_iff_eq.1 same
  refine .inr ⟨fun empty => nonempty ?_, fun c member => isWordChar_of_toLower ?_⟩
  · rw [← mapped, empty]
    rfl
  · apply List.all_eq_true.1 chars
    rw [← mapped]
    exact List.mem_map_of_mem member

end Keywords

/-- Words in a row, with blank characters before, between and behind them; there are some between
any two that would run together. -/
inductive Written : List Text → Text → Prop where
  | nil (gap : Text) (blank : Text.isAllBlank gap = true) : Written [] gap
  | cons (gap word : Text) {rest : Text} {words : List Text} (blank : Text.isAllBlank gap = true)
      (apart : EndsWord word ∨ EndsWord rest) (behind : Written words rest) :
      Written (word :: words) (gap ++ (word ++ rest))

theorem lexemes_of_isAllBlank {gap : Text} (blank : Text.isAllBlank gap = true) :
    lexemes gap = [] := by
  have dropped : gap.dropWhile Text.isBlank = [] :=
    List.dropWhile_eq_nil_iff.2 (List.all_eq_true.1 blank)
  rw [lexemes.eq_def]
  split
  · rfl
  next c rest same => cases dropped.symm.trans same

/-- The words are the lexemes of the text in which they are written. -/
theorem Written.map_text_lexemes {words : List Text} {text : Text} (written : Written words text)
    (pieces : ∀ word ∈ words, IsPiece word) : (lexemes text).map Lexeme.text = words := by
  induction written with
  | nil _ blank => rw [lexemes_of_isAllBlank blank, List.map_nil]
  | @cons gap word rest words blank apart behind ih =>
    have later := ih fun next member => pieces next (List.mem_cons_of_mem word member)
    rcases pieces word List.mem_cons_self with ⟨c, rfl, isParen⟩ | ⟨nonempty, chars⟩
    · rw [List.singleton_append, lexemes_gap_parenthesis blank isParen, List.map_cons, later]
    · have ends : EndsWord rest := by
        rcases apart with noWord | ends
        · obtain ⟨c, cs, rfl⟩ := List.exists_cons_of_ne_nil nonempty
          exact nomatch (chars c List.mem_cons_self).symm.trans (noWord c rfl)
        · exact ends
      rw [lexemes_gap_word blank nonempty chars ends, List.map_cons, later]

inductive Joins (keyword : Text) (lhs rhs : Condition) : Condition → Prop where
  | or (isOr : Text.sameLetters keyword "or" = true) : Joins keyword lhs rhs (.or lhs rhs)
  | and (isAnd : Text.sameLetters keyword "and" = true) : Joins keyword lhs rhs (.and lhs rhs)

/-- The words of a condition over flags of the given names, in which parentheses and `NOT`s nest as
deep as there is room. Both joins stand in parentheses, and there may be further ones. -/
inductive Spells (named : String → Bool) : Nat → Condition → List Text → Prop where
  | flag {room : Nat} {name : String} (known : named name = true) :
      Spells named room (.flag name) [name.toList]
  | not {room : Nat} {inner : Condition} {keyword : Text} {words : List Text}
      (isNot : Text.sameLetters keyword "not" = true) (operand : Spells named room inner words) :
      Spells named (room + 1) (.not inner) (keyword :: words)
  | joined {room : Nat} {lhs rhs whole : Condition} {keyword : Text} {left right : List Text}
      (first : Spells named room lhs left) (joins : Joins keyword lhs rhs whole)
      (second : Spells named room rhs right) :
      Spells named (room + 1) whole (['('] :: (left ++ keyword :: (right ++ [[')']])))
  | parentheses {room : Nat} {inner : Condition} {words : List Text}
      (inside : Spells named room inner words) :
      Spells named (room + 1) inner (['('] :: (words ++ [[')']]))

theorem token_of_text {lexeme : Lexeme} {word : Text} {token : Token} (same : lexeme.text = word)
    (isToken : Token.ofText word = token) : lexeme.token = token := by
  rw [Lexeme.token, same, isToken]

theorem not_isWordLexeme_of_token {lexeme : Lexeme} {token : Token} (same : lexeme.token = token)
    (noWord : token.isWord = false) : isWordLexeme lexeme = false := by
  rw [isWordLexeme, same, noWord]

section Joins

variable {keyword : Text} {lhs rhs whole : Condition}

theorem Joins.isPiece (joins : Joins keyword lhs rhs whole) : IsPiece keyword := by
  cases joins with
  | or isOr => exact isPiece_of_sameLetters isOr (by decide) (by decide)
  | and isAnd => exact isPiece_of_sameLetters isAnd (by decide) (by decide)

theorem Joins.not_isWordLexeme (joins : Joins keyword lhs rhs whole) {join : Lexeme}
    (text : join.text = keyword) : isWordLexeme join = false := by
  cases joins with
  | or isOr =>
    exact not_isWordLexeme_of_token (token_of_text text (token_of_sameLetters_or isOr)) rfl
  | and isAnd =>
    exact not_isWordLexeme_of_token (token_of_text text (token_of_sameLetters_and isAnd)) rfl

theorem Joins.reads (joins : Joins keyword lhs rhs whole) {join closing : Lexeme}
    (text : join.text = keyword) (closes : closing.token = .closing) {depth : Nat}
    {input between after : List Lexeme}
    (left : Reads .operand depth input lhs (join :: between))
    (right : Reads .operand depth between rhs (closing :: after)) :
    Reads .disjunction depth input whole (closing :: after) := by
  cases joins with
  | or isOr =>
    exact .joined_or (token_of_text text (token_of_sameLetters_or isOr)) closes left right
  | and isAnd =>
    exact .joined_and (token_of_text text (token_of_sameLetters_and isAnd)) closes left right

end Joins

section Spells

variable {named : String → Bool} {room : Nat} {c : Condition} {words : List Text}

theorem Spells.isPiece (one : ∀ name, named name = true → IsOneWord name)
    (spells : Spells named room c words) : ∀ word ∈ words, IsPiece word := by
  have opening : IsPiece ['('] := .inl ⟨'(', rfl, rfl⟩
  have closing : ∀ word ∈ [[')']], IsPiece word := by
    intro word member
    exact .inl ⟨')', List.mem_singleton.1 member, rfl⟩
  induction spells with
  | flag known =>
    intro word member
    rw [List.mem_singleton.1 member]
    exact .inr (one _ known).chars
  | not isNot _ ih =>
    have keyword := isPiece_of_sameLetters isNot (by decide) (by decide)
    exact List.forall_mem_cons.2 ⟨keyword, ih⟩
  | joined _ joins _ left right =>
    have behind := List.forall_mem_cons.2 ⟨joins.isPiece, List.forall_mem_append.2 ⟨right, closing⟩⟩
    exact List.forall_mem_cons.2 ⟨opening, List.forall_mem_append.2 ⟨left, behind⟩⟩
  | parentheses _ ih =>
    exact List.forall_mem_cons.2 ⟨opening, List.forall_mem_append.2 ⟨ih, closing⟩⟩

/-- Lexemes with the words of a condition are read as that condition, in front of anything that
does not go on with a name. -/
theorem Spells.reads (one : ∀ name, named name = true → IsOneWord name)
    (spells : Spells named room c words) {ls rest : List Lexeme} {depth : Nat}
    (same : ls.map Lexeme.text = words) (within : depth + room ≤ maxDepth)
    (ends : ∀ lexeme ∈ rest.head?, isWordLexeme lexeme = false) :
    Reads .operand depth (ls ++ rest) c rest := by
  have opens : Token.ofText ['('] = .opening := by decide
  have closes : Token.ofText [')'] = .closing := by decide
  induction spells generalizing ls rest depth with
  | flag known =>
    obtain ⟨lexeme, rfl, text⟩ := List.map_eq_singleton_iff.1 same
    have token := token_of_text text (isOneWord_iff.1 (one _ known)).2
    have isWord : isWordLexeme lexeme = true := by rw [isWordLexeme, token]; rfl
    have reads : Reads .operand depth (lexeme :: ([] ++ rest)) _ rest :=
      reads_run isWord (List.forall_mem_nil _) ends
    rwa [flagName, List.flatMap_nil, List.append_nil, text, String.ofList_toList] at reads
  | not isNot _ ih =>
    obtain ⟨keyword, inner, rfl, text, rfl⟩ := List.map_eq_cons_iff.1 same
    have token := token_of_text text (token_of_sameLetters_not isNot)
    exact .not token (by omega) (ih rfl (by omega) ends)
  | joined _ joins _ left right =>
    obtain ⟨opening, _, rfl, openingText, inner⟩ := List.map_eq_cons_iff.1 same
    obtain ⟨lhs, _, rfl, rfl, fromJoin⟩ := List.map_eq_append_iff.1 inner
    obtain ⟨join, _, rfl, joinText, fromRight⟩ := List.map_eq_cons_iff.1 fromJoin
    obtain ⟨rhs, _, rfl, rfl, last⟩ := List.map_eq_append_iff.1 fromRight
    obtain ⟨closing, rfl, closingText⟩ := List.map_eq_singleton_iff.1 last
    have isOpening := token_of_text openingText opens
    have isClosing := token_of_text closingText closes
    have first : Reads .operand (depth + 1) (lhs ++ (join :: (rhs ++ closing :: rest))) _ _ :=
      left rfl (by omega) fun lexeme head => by cases head; exact joins.not_isWordLexeme joinText
    have second : Reads .operand (depth + 1) (rhs ++ closing :: rest) _ _ :=
      right rfl (by omega) fun lexeme head => by
        cases head; exact not_isWordLexeme_of_token isClosing rfl
    have inside := joins.reads joinText isClosing first second
    have whole := inside.parenthesized isOpening isClosing (by omega)
    simpa using whole
  | parentheses _ ih =>
    obtain ⟨opening, _, rfl, openingText, inner⟩ := List.map_eq_cons_iff.1 same
    obtain ⟨inside, _, rfl, rfl, last⟩ := List.map_eq_append_iff.1 inner
    obtain ⟨closing, rfl, closingText⟩ := List.map_eq_singleton_iff.1 last
    have isOpening := token_of_text openingText opens
    have isClosing := token_of_text closingText closes
    have operand : Reads .operand (depth + 1) (inside ++ closing :: rest) _ _ :=
      ih rfl (by omega) fun lexeme head => by
        cases head; exact not_isWordLexeme_of_token isClosing rfl
    have whole := (operand.alone isClosing).parenthesized isOpening isClosing (by omega)
    simpa using whole

theorem Spells.ne_nil (spells : Spells named room c words) : words ≠ [] := by
  cases spells with
  | flag | not | joined | parentheses => exact List.cons_ne_nil _ _

/-- A text in which the words of a condition are written is read as that condition. -/
theorem Spells.parse_eq (one : ∀ name, named name = true → IsOneWord name)
    (spells : Spells named maxDepth c words) {text : String} (written : Written words text.toList) :
    parse text = .ok c := by
  have texts := written.map_text_lexemes (spells.isPiece one)
  have operand : Reads .operand 0 (lexemes text.toList ++ []) c [] :=
    spells.reads one texts (by omega) fun _ first => nomatch first
  rw [List.append_nil] at operand
  have reads : Reads .disjunction 0 (lexemes text.toList) c [] :=
    .disjunction (.conjunction operand (.noConjunct fun _ first => nomatch first))
      (.noDisjunct fun _ first => nomatch first)
  refine (parseLexemes_eq_ok_iff _ _).2 ⟨fun empty => spells.ne_nil ?_, reads⟩
  rw [← texts, empty, List.map_nil]

end Spells

def leaves : Condition → List Condition
  | .or lhs rhs | .and lhs rhs => lhs.leaves ++ rhs.leaves
  | .not inner => inner.leaves
  | .flag name => [.flag name]
  | .missing => [.missing]

section Leaves

variable {named : String → Bool} (one : ∀ name, named name = true → IsOneWord name)

include one

theorem not_named_of_token {word : Text} {token : Token} (isToken : Token.ofText word = token)
    (noWord : token.isWord = false) : named (String.ofList word) = false := by
  apply Bool.eq_false_iff.2
  intro known
  have isWord := (isOneWord_iff.1 (one _ known)).2
  rw [String.toList_ofList, isToken] at isWord
  rw [isWord] at noWord
  exact nomatch noWord

theorem Joins.not_named {keyword : Text} {lhs rhs whole : Condition}
    (joins : Joins keyword lhs rhs whole) : named (String.ofList keyword) = false := by
  cases joins with
  | or isOr => exact not_named_of_token one (token_of_sameLetters_or isOr) rfl
  | and isAnd => exact not_named_of_token one (token_of_sameLetters_and isAnd) rfl

theorem Spells.leaves_eq {room : Nat} {c : Condition} {words : List Text}
    (spells : Spells named room c words) :
    c.leaves = (words.filter fun word => named (String.ofList word)).map
      fun word => .flag (String.ofList word) := by
  have opens : Token.ofText ['('] = .opening := by decide
  have closes : Token.ofText [')'] = .closing := by decide
  have opening : named (String.ofList ['(']) = false := not_named_of_token one opens rfl
  have closing : named (String.ofList [')']) = false := not_named_of_token one closes rfl
  induction spells with
  | flag known => simp [leaves, known]
  | not isNot _ ih =>
    have keyword := not_named_of_token one (token_of_sameLetters_not isNot) rfl
    rw [leaves, ih, List.filter_cons_of_neg (by simp [keyword])]
  | joined _ joins _ left right =>
    have keyword := joins.not_named one
    have split := congrArg₂ (· ++ ·) left right
    cases joins with
    | or | and =>
      rw [leaves]
      simpa [opening, closing, keyword] using split
  | parentheses _ ih => simpa [opening, closing] using ih

end Leaves

end Condition

end Scaffold
