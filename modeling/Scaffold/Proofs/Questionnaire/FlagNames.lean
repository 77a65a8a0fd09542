import Scaffold.Proofs.Condition.Parenthesized
import Scaffold.Questionnaire.Basic

/-! The names under which flags may be declared. Such a name is one word of a condition and no
keyword, so as a condition of its own it is the flag of that name. -/

namespace Scaffold

open Condition

/-- Every flag of questions that were accepted has a name that a condition can mention. -/
theorem Questionnaire.isFlagName_of_check {q accepted : Questionnaire} {key : String}
    (checked : q.check = .ok accepted) (declared : q.declares key = true) :
    isFlagName key = true := by
  unfold check at checked
  split at checked
  · exact nomatch checked
  next allNames =>
    have valid := List.find?_eq_none.1 allNames key (List.contains_iff_mem.1 declared)
    simpa using valid

variable {key : String}

theorem Questionnaire.isWordChar_eq_not_separates (c : Char) : isWordChar c = !separates c := by
  simp [isWordChar, isParenthesis, separates, Bool.and_assoc]

theorem Questionnaire.isWordChar_of_isFlagName (valid : isFlagName key = true) :
    ∀ c ∈ key.toList, isWordChar c = true := by
  intro c member
  rw [isFlagName, Bool.and_eq_true, Bool.not_eq_true', List.any_eq_false] at valid
  rw [isWordChar_eq_not_separates, Bool.not_eq_true', Bool.eq_false_iff]
  exact valid.2 c member

theorem Questionnaire.ne_nil_of_isFlagName (valid : isFlagName key = true) : key.toList ≠ [] := by
  intro empty
  rw [String.toList_eq_nil_iff.1 empty] at valid
  exact absurd valid (by decide)

theorem Questionnaire.token_of_isFlagName (valid : isFlagName key = true) :
    Token.ofText key.toList = .word key := by
  have chars := isWordChar_of_isFlagName valid
  rw [isFlagName, Bool.and_eq_true, Bool.and_eq_true, Bool.not_eq_true'] at valid
  have notKeyword := valid.1.2
  have notOpening : key.toList ≠ ['('] := fun same =>
    absurd (chars '(' (same ▸ List.mem_cons_self)) (by decide)
  have notClosing : key.toList ≠ [')'] := fun same =>
    absurd (chars ')' (same ▸ List.mem_cons_self)) (by decide)
  simp only [isKeyword, List.any_cons, List.any_nil, Bool.or_false, Bool.or_eq_false_iff]
    at notKeyword
  simp [Token.ofText, notOpening, notClosing, notKeyword]

theorem Questionnaire.lexemes_of_isFlagName (valid : isFlagName key = true) :
    lexemes key.toList = [⟨[], key.toList⟩] := by
  have separated : Separated [⟨[], key.toList⟩] :=
    .word rfl (ne_nil_of_isFlagName valid) (isWordChar_of_isFlagName valid) endsWord_nil .nil
  simpa [Lexeme.whole] using separated.lexemes_eq

theorem Questionnaire.isFlagName_iff : isFlagName key = true ↔ IsOneWord key := by
  constructor
  · intro valid
    exact isOneWord_iff.2 ⟨lexemes_of_isFlagName valid, token_of_isFlagName valid⟩
  · intro one
    obtain ⟨present, chars⟩ := one.chars
    have token := (isOneWord_iff.1 one).2
    have nonempty : key ≠ "" := fun empty => present (String.toList_eq_nil_iff.2 empty)
    have notKeyword : isKeyword key = false := by
      rw [isKeyword, List.any_eq_false]
      intro keyword among same
      simp only [List.mem_cons, List.not_mem_nil, or_false] at among
      rcases among with rfl | rfl | rfl
      · exact nomatch token.symm.trans (token_of_sameLetters_and same)
      · exact nomatch token.symm.trans (token_of_sameLetters_or same)
      · exact nomatch token.symm.trans (token_of_sameLetters_not same)
    have joined : key.toList.any separates = false := by
      rw [List.any_eq_false]
      intro c member
      have isWord := chars c member
      rwa [isWordChar_eq_not_separates, Bool.not_eq_true', Bool.eq_false_iff] at isWord
    simp [isFlagName, nonempty, notKeyword, joined]

theorem Questionnaire.parse_of_isFlagName (valid : isFlagName key = true) :
    parse key = .ok (.flag key) := by
  have alone : Written [key.toList] key.toList := by
    simpa using Written.cons [] key.toList rfl (.inr endsWord_nil) (.nil [] rfl)
  have spells : Spells isFlagName maxDepth (.flag key) [key.toList] := .flag valid
  exact spells.parse_eq (fun _ => isFlagName_iff.1) alone

theorem Questionnaire.check_eq_ok_iff {q accepted : Questionnaire} :
    q.check = .ok accepted ↔
      accepted = q ∧ "" ∉ q.placeholders ∧ ∀ key ∈ q.flags.keys, isFlagName key = true := by
  unfold check
  cases found : q.flags.keys.find? (fun key => !isFlagName key) with
  | some key =>
    have bad := List.find?_some found
    have among := List.mem_of_find?_eq_some found
    refine iff_of_false (fun same => nomatch same) fun good => ?_
    rw [good.2.2 key among] at bad
    exact nomatch bad
  | none =>
    have valid : ∀ key ∈ q.flags.keys, isFlagName key = true := by
      simpa using List.find?_eq_none.1 found
    cases empty : q.placeholders.contains "" with
    | true =>
      refine iff_of_false (fun same => nomatch same) fun good => good.2.1 ?_
      exact List.contains_iff_mem.1 empty
    | false =>
      have absent : "" ∉ q.placeholders := by
        intro member
        rw [List.contains_iff_mem.2 member] at empty
        exact nomatch empty
      constructor
      · intro same
        cases same
        exact ⟨rfl, absent, valid⟩
      · rintro ⟨rfl, _, _⟩
        rfl

/-- Questions are accepted exactly if no placeholder is empty and the name of every flag is, as a
text of its own, a single word of a condition that is no keyword. Then each name is read as the flag
of that name. So is every condition over such names in which parentheses stand around each join and
nest, together with `NOT`s, 128 deep at most: its leaves are the names that are written in it. -/
theorem Questionnaire.check_iff_tokens (q : Questionnaire) :
    ((∃ accepted, q.check = .ok accepted) ↔
      "" ∉ q.placeholders ∧
        ∀ key ∈ q.flags.keys, tokens key = [⟨0, Text.width key.toList, .word key⟩]) ∧
    ∀ accepted, q.check = .ok accepted →
      accepted = q ∧
      (∀ key, q.declares key = true → parse key = .ok (.flag key)) ∧
      ∀ (c : Condition) (words : List Text) (text : String),
        Spells q.declares 128 c words → Written words text.toList →
          parse text = .ok c ∧
            c.leaves = (words.filter fun word => q.declares (String.ofList word)).map
              fun word => .flag (String.ofList word) := by
  constructor
  · constructor
    · rintro ⟨accepted, checked⟩
      obtain ⟨_, solid, valid⟩ := check_eq_ok_iff.1 checked
      exact ⟨solid, fun key among => isFlagName_iff.1 (valid key among)⟩
    · rintro ⟨solid, one⟩
      exact ⟨q, check_eq_ok_iff.2 ⟨rfl, solid, fun key among => isFlagName_iff.2 (one key among)⟩⟩
  · intro accepted checked
    have valid : ∀ key, q.declares key = true → isFlagName key = true := fun key =>
      isFlagName_of_check checked
    have one : ∀ key, q.declares key = true → IsOneWord key := fun key declared =>
      isFlagName_iff.1 (valid key declared)
    refine ⟨(check_eq_ok_iff.1 checked).1, fun key declared => ?_, ?_⟩
    · exact parse_of_isFlagName (valid key declared)
    · intro c words text spells written
      exact ⟨spells.parse_eq one written, spells.leaves_eq one⟩

theorem Questionnaire.check_iff_tokens_accented :
    let q : Questionnaire := ⟨.standard, ["NAME"], .ofList [("a-b", .standard), ("été", .standard)]⟩
    let c : Condition := .and (.not (.flag "a-b")) (.or (.flag "été") (.flag "a-b"))
    q.check = .ok q ∧ tokens "été" = [⟨0, 5, .word "été"⟩] ∧ parse "été" = .ok (.flag "été") ∧
      parse "(not a-b AnD( été\toR a-b))" = .ok c ∧
      c.leaves = [.flag "a-b", .flag "été", .flag "a-b"] := by
  intro q c
  have checked : q.check = .ok q := by rfl
  obtain ⟨accepts, accepted⟩ := check_iff_tokens q
  obtain ⟨_, names, composed⟩ := accepted q checked
  have one := (accepts.1 ⟨q, checked⟩).2 "été" (by decide)
  have dashed : Spells q.declares 126 (.flag "a-b") ["a-b".toList] := .flag rfl
  have accented : Spells q.declares 126 (.flag "été") ["été".toList] := .flag rfl
  have isNot : Text.sameLetters "not".toList "not" = true := by decide
  have isAnd : Text.sameLetters "AnD".toList "and" = true := by decide
  have isOr : Text.sameLetters "oR".toList "or" = true := by decide
  have spells : Spells q.declares 128 c _ :=
    .joined (.not isNot dashed) (.and isAnd) (.joined accented (.or isOr) dashed)
  have separate : ∀ c cs, isWordChar c = false → EndsWord (c :: cs) := by
    intro c cs separates first same
    cases same
    exact separates
  have written :=
    Written.cons [] ['('] rfl (.inl (separate _ _ rfl)) <|
    .cons [] "not".toList rfl (.inr (separate _ _ rfl)) <|
    .cons [' '] "a-b".toList rfl (.inr (separate _ _ rfl)) <|
    .cons [' '] "AnD".toList rfl (.inr (separate _ _ rfl)) <|
    .cons [] ['('] rfl (.inl (separate _ _ rfl)) <|
    .cons [' '] "été".toList rfl (.inr (separate _ _ rfl)) <|
    .cons ['\t'] "oR".toList rfl (.inr (separate _ _ rfl)) <|
    .cons [' '] "a-b".toList rfl (.inr (separate _ _ rfl)) <|
    .cons [] [')'] rfl (.inl (separate _ _ rfl)) <|
    .cons [] [')'] rfl (.inl (separate _ _ rfl)) (.nil [] rfl)
  obtain ⟨parsed, leaves⟩ := composed c _ "(not a-b AnD( été\toR a-b))" spells written
  exact ⟨checked, one, names "été" (by decide), parsed, leaves⟩

end Scaffold
