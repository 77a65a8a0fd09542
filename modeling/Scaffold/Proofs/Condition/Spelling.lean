import Scaffold.Proofs.Condition.Grammar

/-! Lexemes that can be told apart when they are written one behind the other, and the names of
flags, which are read as themselves. The lexemes of a text are such lexemes, and such lexemes
are those of the text they make up; so every flag of a condition that was read has a name that
is read as that flag again. -/

namespace Scaffold.Condition

def EndsWord (cs : Text) : Prop := ∀ c ∈ cs.head?, isWordChar c = false

inductive Separated : List Lexeme → Prop where
  | nil : Separated []
  | parenthesis {gap : Text} {c : Char} {rest : List Lexeme}
      (blank : Text.isAllBlank gap = true) (isParen : isParenthesis c = true)
      (behind : Separated rest) : Separated (⟨gap, [c]⟩ :: rest)
  | word {gap text : Text} {rest : List Lexeme} (blank : Text.isAllBlank gap = true)
      (nonempty : text ≠ []) (chars : ∀ c ∈ text, isWordChar c = true)
      (ends : EndsWord (rest.flatMap Lexeme.whole)) (behind : Separated rest) :
      Separated (⟨gap, text⟩ :: rest)

theorem endsWord_nil : EndsWord [] := fun _ first => nomatch first

theorem endsWord_dropWhile (cs : Text) : EndsWord (cs.dropWhile isWordChar) := by
  intro c first
  have stopped := List.head?_dropWhile_not isWordChar cs
  rw [first] at stopped
  exact stopped

theorem EndsWord.of_append {first second : Text} (ends : EndsWord (first ++ second)) :
    EndsWord first := by
  cases first with
  | nil => exact endsWord_nil
  | cons c cs => exact ends

theorem not_isBlank_of_isParenthesis {c : Char} (isParen : isParenthesis c = true) :
    Text.isBlank c = false := by
  rw [isParenthesis, Bool.or_eq_true, beq_iff_eq, beq_iff_eq] at isParen
  rcases isParen with rfl | rfl <;> decide

theorem separated_lexemes (cs : Text) : Separated (lexemes cs) := by
  fun_induction lexemes cs with
  | case1 => exact .nil
  | case2 cs c rest _ gap isParen ih =>
    exact .parenthesis (List.all_eq_true.2 fun _ => List.mem_takeWhile_imp) isParen ih
  | case3 cs c rest split gap notParen ih =>
    have blank : Text.isAllBlank gap = true :=
      List.all_eq_true.2 fun _ => List.mem_takeWhile_imp
    have notBlank : Text.isBlank c = false := by
      have stopped := List.head?_dropWhile_not Text.isBlank cs
      rw [split] at stopped
      exact stopped
    have first : isWordChar c = true := by
      rw [isWordChar, notBlank, Bool.eq_false_iff.2 notParen]
      rfl
    refine .word blank (List.cons_ne_nil c _) ?_ ?_ ih
    · intro d member
      rcases List.mem_cons.1 member with rfl | member
      · exact first
      · exact List.mem_takeWhile_imp member
    · obtain ⟨tail, whole, _⟩ := exists_lexemes_append (rest.dropWhile isWordChar)
      exact EndsWord.of_append (whole ▸ endsWord_dropWhile rest)

theorem lexemes_gap {gap : Text} {c : Char} (blank : Text.isAllBlank gap = true)
    (visible : Text.isBlank c = false) (rest : Text) :
    lexemes (gap ++ c :: rest) =
      if isParenthesis c then ⟨gap, [c]⟩ :: lexemes rest
      else ⟨gap, c :: rest.takeWhile isWordChar⟩ :: lexemes (rest.dropWhile isWordChar) := by
  have stops : ∀ d ∈ (c :: rest).head?, Text.isBlank d = false := by
    intro d first
    cases first
    exact visible
  have blanks := List.all_eq_true.1 blank
  have behind := dropWhile_append_of_stop blanks stops
  have before := takeWhile_append_of_stop blanks stops
  rw [lexemes.eq_def]
  split
  next empty => exact absurd (behind.symm.trans empty) (List.cons_ne_nil c rest)
  next d more same =>
    obtain ⟨rfl, rfl⟩ := List.cons.inj (behind.symm.trans same)
    rw [before]

theorem lexemes_gap_parenthesis {gap : Text} {c : Char} (blank : Text.isAllBlank gap = true)
    (isParen : isParenthesis c = true) (rest : Text) :
    lexemes (gap ++ c :: rest) = ⟨gap, [c]⟩ :: lexemes rest := by
  rw [lexemes_gap blank (not_isBlank_of_isParenthesis isParen), if_pos isParen]

theorem lexemes_gap_word {gap text : Text} (blank : Text.isAllBlank gap = true)
    (nonempty : text ≠ []) (chars : ∀ c ∈ text, isWordChar c = true) {rest : Text}
    (ends : EndsWord rest) : lexemes (gap ++ (text ++ rest)) = ⟨gap, text⟩ :: lexemes rest := by
  obtain ⟨c, cs, rfl⟩ := List.exists_cons_of_ne_nil nonempty
  have first := chars c List.mem_cons_self
  rw [isWordChar, Bool.and_eq_true, Bool.not_eq_true', Bool.not_eq_true'] at first
  have word : ∀ d ∈ cs, isWordChar d = true := fun d member =>
    chars d (List.mem_cons_of_mem c member)
  rw [List.cons_append, lexemes_gap blank first.1, if_neg (by simp [first.2]),
    takeWhile_append_of_stop word ends, dropWhile_append_of_stop word ends]

/-- Lexemes that are told apart are those of the text they make up. -/
theorem Separated.lexemes_eq {ls : List Lexeme} (separated : Separated ls) :
    lexemes (ls.flatMap Lexeme.whole) = ls := by
  induction separated with
  | nil => rw [List.flatMap_nil, lexemes.eq_def]; rfl
  | parenthesis blank isParen _ ih =>
    rw [List.flatMap_cons, Lexeme.whole, List.append_assoc, List.singleton_append,
      lexemes_gap_parenthesis blank isParen, ih]
  | word blank nonempty chars ends _ ih =>
    rw [List.flatMap_cons, Lexeme.whole, List.append_assoc,
      lexemes_gap_word blank nonempty chars ends, ih]

theorem Separated.append {first second : List Lexeme} (front : Separated first)
    (back : Separated second) (ends : EndsWord (second.flatMap Lexeme.whole)) :
    Separated (first ++ second) := by
  induction front with
  | nil => exact back
  | parenthesis blank isParen _ ih => exact .parenthesis blank isParen ih
  | @word _ _ rest blank nonempty chars stops _ ih =>
    refine .word blank nonempty chars ?_ ih
    rw [List.append_eq, List.flatMap_append]
    cases whole : rest.flatMap Lexeme.whole with
    | nil => exact ends
    | cons c cs =>
      rw [whole] at stops
      exact stops

theorem Separated.of_append {first second : List Lexeme} (separated : Separated (first ++ second)) :
    Separated first ∧ Separated second := by
  induction first with
  | nil => exact ⟨.nil, separated⟩
  | cons lexeme first ih =>
    cases separated with
    | parenthesis blank isParen behind =>
      exact ⟨.parenthesis blank isParen (ih behind).1, (ih behind).2⟩
    | word blank nonempty chars ends behind =>
      rw [List.append_eq, List.flatMap_append] at ends
      exact ⟨.word blank nonempty chars ends.of_append (ih behind).1, (ih behind).2⟩

theorem Separated.tail {lexeme : Lexeme} {rest : List Lexeme}
    (separated : Separated (lexeme :: rest)) : Separated rest := by
  cases separated with
  | parenthesis _ _ behind => exact behind
  | word _ _ _ _ behind => exact behind

theorem Separated.with_gap {gap gap' text : Text} {rest : List Lexeme}
    (separated : Separated (⟨gap', text⟩ :: rest)) (blank : Text.isAllBlank gap = true) :
    Separated (⟨gap, text⟩ :: rest) := by
  cases separated with
  | parenthesis _ isParen behind => exact .parenthesis blank isParen behind
  | word _ nonempty chars ends behind => exact .word blank nonempty chars ends behind

structure IsName (name : String) : Prop where
  present : lexemes name.toList ≠ []
  words : ∀ lexeme ∈ lexemes name.toList, isWordLexeme lexeme = true
  whole : flagName (lexemes name.toList) = name

theorem isName_flagName {lexeme : Lexeme} {more : List Lexeme}
    (separated : Separated (lexeme :: more)) (isWord : isWordLexeme lexeme = true)
    (words : ∀ next ∈ more, isWordLexeme next = true) :
    IsName (flagName (lexeme :: more)) := by
  have bare : Separated (⟨[], lexeme.text⟩ :: more) := separated.with_gap rfl
  have read : lexemes (flagName (lexeme :: more)).toList = ⟨[], lexeme.text⟩ :: more := by
    rw [flagName, String.toList_ofList]
    exact bare.lexemes_eq
  refine ⟨read ▸ List.cons_ne_nil _ _, ?_, ?_⟩
  · intro next member
    rw [read] at member
    rcases List.mem_cons.1 member with rfl | member
    · exact isWord
    · exact words next member
  · rw [read]
    rfl

/-- What holds of the lexemes to read and of all that is left of them on the way gives the flags
that are read what it gives each run of words. -/
theorem Reads.forall_flags {may : List Lexeme → Prop} {good : String → Prop}
    (tail : ∀ lexeme rest, may (lexeme :: rest) → may rest)
    (run : ∀ lexeme rest, may (lexeme :: rest) → isWordLexeme lexeme = true →
      good (flagName (lexeme :: rest.takeWhile isWordLexeme)))
    {goal : Goal} {depth : Nat} {input rest : List Lexeme} {whole : Condition}
    (reads : Reads goal depth input whole rest) (start : may input)
    (left : ∀ name ∈ goal.lhs.flags, good name) :
    may rest ∧ ∀ name ∈ whole.flags, good name := by
  have flagless : ∀ name ∈ Condition.missing.flags, good name := fun _ member => nomatch member
  have later : ∀ ls : List Lexeme, may ls → may (ls.dropWhile isWordLexeme) := by
    intro ls
    induction ls with
    | nil => exact id
    | cons lexeme ls ih =>
      intro here
      rw [List.dropWhile_cons]
      split_ifs
      · exact ih (tail _ _ here)
      · exact here
  induction reads with
  | disjunction _ _ head tail | conjunction _ _ head tail =>
    obtain ⟨between, first⟩ := head start flagless
    exact tail between first
  | noDisjunct | noConjunct => exact ⟨start, left⟩
  | disjunct _ _ _ head tail' | conjunct _ _ _ head tail' =>
    obtain ⟨between, next⟩ := head (tail _ _ start) flagless
    refine tail' between fun name member => ?_
    rcases List.mem_append.1 member with member | member
    · exact left name member
    · exact next name member
  | not _ _ _ inner => exact inner (tail _ _ start) flagless
  | @parentheses _ _ _ rest _ _ _ _ inner =>
    obtain ⟨behind, names⟩ := inner (tail _ _ start) flagless
    refine ⟨?_, names⟩
    cases rest with
    | nil => exact behind
    | cons lexeme rest =>
      rw [afterClosing]
      split_ifs
      · exact tail _ _ behind
      · exact behind
  | words isWord =>
    refine ⟨later _ (tail _ _ start), fun name member => ?_⟩
    rw [flags, List.mem_singleton] at member
    rw [member]
    exact run _ _ start isWord
  | missing => exact ⟨start, flagless⟩

/-- Every flag that is read has a name that is read as itself. -/
theorem isName_of_parse {text : String} {whole : Condition} (parsed : parse text = .ok whole) :
    ∀ name ∈ whole.flags, IsName name := by
  refine (((parseLexemes_eq_ok_iff _ _).1 parsed).2.forall_flags (fun _ _ => Separated.tail) ?_
    (separated_lexemes text.toList) fun _ member => nomatch member).2
  intro lexeme rest separated isWord
  rw [← List.takeWhile_append_dropWhile (p := isWordLexeme) (l := rest), ← List.cons_append]
    at separated
  exact isName_flagName separated.of_append.1 isWord fun _ => List.mem_takeWhile_imp

theorem mem_of_mem_flags {text name : String} {whole : Condition}
    (parsed : parse text = .ok whole) (member : name ∈ whole.flags) {c : Char}
    (inside : c ∈ name.toList) : c ∈ text.toList := by
  let written (ls : List Lexeme) : Prop := ∀ c ∈ ls.flatMap Lexeme.whole, c ∈ text.toList
  obtain ⟨back, split, _⟩ := exists_lexemes_append text.toList
  have start : written (lexemes text.toList) := fun c member =>
    split ▸ List.mem_append_left back member
  have all : written [] ∧ ∀ name ∈ whole.flags, ∀ c ∈ name.toList, c ∈ text.toList := by
    refine ((parseLexemes_eq_ok_iff _ _).1 parsed).2.forall_flags ?_ ?_ start
      fun _ member => nomatch member
    · exact fun _ _ here c member => here c (List.mem_append_right _ member)
    · intro lexeme rest here _ c member
      rw [flagName, String.toList_ofList] at member
      rcases List.mem_append.1 member with member | member
      · exact here c (List.mem_append_left _ (List.mem_append_right _ member))
      · obtain ⟨next, run, member⟩ := List.mem_flatMap.1 member
        exact here c (List.mem_append_right _
          (List.mem_flatMap.2 ⟨next, (List.takeWhile_prefix _).subset run, member⟩))
  exact all.2 name member c inside

end Scaffold.Condition
