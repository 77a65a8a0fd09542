import Mathlib.Data.List.Basic
import Scaffold.Proofs.Boundaries
import Scaffold.Proofs.Condition.Parenthesized

/-! The tokens of a text, as they are read one by one. What reads them knows the text and the
number of bytes that are behind, and cuts the text there; it always stands between two characters,
so a cut never fails. Every character that is not blank is in one of the tokens: a parenthesis
alone, and all else in a run that goes as far as it can. -/

namespace Scaffold.Condition

structure Scanner where
  source : Text
  cursor : Nat

namespace Scanner

def start (text : String) : Scanner := ⟨text.toList, 0⟩

def front? : Text → Option Text
  | [] => none
  | c :: rest => some (if isParenthesis c then [c] else (c :: rest).takeWhile isWordChar)

/-- Skips blank characters and reads the token behind them, if there is one. There is no result
at all if the cursor stands within a character or behind the end. -/
def next? (s : Scanner) : Option (Option Spanned × Scanner) := do
  let (_, rest) ← Text.splitAt? s.cursor s.source
  let trimmed := Text.trimStart rest
  let start := s.cursor + (Text.width rest - Text.width trimmed)
  match front? trimmed with
  | none => some (none, { s with cursor := start })
  | some text =>
    let stop := start + Text.width text
    some (some ⟨start, stop, Token.ofText text⟩, { s with cursor := stop })

def call : Nat → Scanner → Option (Option Spanned)
  | 0, s => s.next?.map Prod.fst
  | n + 1, s => s.next?.bind fun found => call n found.2

end Scanner

structure First (cs : Text) (lexeme : Lexeme) (rest : Text) : Prop where
  whole : cs = lexeme.gap ++ (lexeme.text ++ rest)
  blank : Text.isAllBlank lexeme.gap = true
  piece : (∃ c, lexeme.text = [c] ∧ isParenthesis c = true) ∨
    (lexeme.text ≠ [] ∧ (∀ c ∈ lexeme.text, isWordChar c = true) ∧ EndsWord rest)

theorem lexemes_cases (cs : Text) :
    (lexemes cs = [] ∧ Text.isAllBlank cs = true) ∨
      ∃ lexeme rest, First cs lexeme rest ∧ lexemes cs = lexeme :: lexemes rest := by
  have split := (List.takeWhile_append_dropWhile (p := Text.isBlank) (l := cs)).symm
  have blank : Text.isAllBlank (cs.takeWhile Text.isBlank) = true :=
    List.all_eq_true.2 fun _ => List.mem_takeWhile_imp
  have stop := List.head?_dropWhile_not Text.isBlank cs
  cases solid : cs.dropWhile Text.isBlank with
  | nil =>
    rw [solid, List.append_nil] at split
    rw [lexemes.eq_def, solid]
    exact .inl ⟨rfl, split ▸ blank⟩
  | cons c rest =>
    rw [solid] at split stop
    generalize cs.takeWhile Text.isBlank = gap at split blank
    subst split
    right
    by_cases isParen : isParenthesis c = true
    · exact ⟨_, rest, ⟨rfl, blank, .inl ⟨c, rfl, isParen⟩⟩,
        lexemes_gap_parenthesis blank isParen rest⟩
    · have first : isWordChar c = true := by
        rw [isWordChar, stop, Bool.eq_false_iff.2 isParen]
        rfl
      have word : c :: rest = (c :: rest).takeWhile isWordChar ++ (c :: rest).dropWhile isWordChar :=
        List.takeWhile_append_dropWhile.symm
      have nonempty : (c :: rest).takeWhile isWordChar ≠ [] := by
        rw [List.takeWhile_cons_of_pos first]
        exact List.cons_ne_nil _ _
      have chars : ∀ d ∈ (c :: rest).takeWhile isWordChar, isWordChar d = true :=
        fun _ => List.mem_takeWhile_imp
      have ends := endsWord_dropWhile (c :: rest)
      have read := lexemes_gap_word blank nonempty chars ends
      rw [← word] at read
      exact ⟨_, _, ⟨congrArg (gap ++ ·) word, blank, .inr ⟨nonempty, chars, ends⟩⟩, read⟩

/-- Induction over a text, lexeme by lexeme. -/
theorem lexemes_induction {motive : Text → Prop}
    (allBlank : ∀ cs, lexemes cs = [] → Text.isAllBlank cs = true → motive cs)
    (step : ∀ cs lexeme rest, First cs lexeme rest → lexemes cs = lexeme :: lexemes rest →
      motive rest → motive cs) (cs : Text) : motive cs := by
  generalize read : lexemes cs = ls
  induction ls generalizing cs with
  | nil =>
    rcases lexemes_cases cs with ⟨_, blank⟩ | ⟨_, _, _, same⟩
    · exact allBlank cs read blank
    · exact nomatch read.symm.trans same
  | cons lexeme ls ih =>
    rcases lexemes_cases cs with ⟨same, _⟩ | ⟨found, rest, first, same⟩
    · exact nomatch read.symm.trans same
    · exact step cs found rest first same (ih rest (List.cons.inj (same.symm.trans read)).2)

theorem isWordChar_iff {c : Char} :
    isWordChar c = true ↔ Text.isBlank c = false ∧ isParenthesis c = false := by
  rw [isWordChar, Bool.and_eq_true, Bool.not_eq_true', Bool.not_eq_true']

namespace First

variable {cs rest : Text} {lexeme : Lexeme}

theorem exists_cons (first : First cs lexeme rest) :
    ∃ c more, lexeme.text = c :: more ∧ Text.isBlank c = false := by
  rcases first.piece with ⟨c, text, isParen⟩ | ⟨nonempty, chars, _⟩
  · exact ⟨c, [], text, not_isBlank_of_isParenthesis isParen⟩
  · obtain ⟨c, more, text⟩ := List.exists_cons_of_ne_nil nonempty
    exact ⟨c, more, text, (isWordChar_iff.1 (chars c (text ▸ List.mem_cons_self))).1⟩

theorem trimStart_eq (first : First cs lexeme rest) :
    Text.trimStart cs = lexeme.text ++ rest := by
  obtain ⟨c, more, text, visible⟩ := first.exists_cons
  have stops : ∀ d ∈ (lexeme.text ++ rest).head?, Text.isBlank d = false := by
    intro d head
    rw [text] at head
    cases head
    exact visible
  rw [first.whole]
  exact dropWhile_append_of_stop (List.all_eq_true.1 first.blank) stops

theorem front?_eq (first : First cs lexeme rest) :
    Scanner.front? (lexeme.text ++ rest) = some lexeme.text := by
  rcases first.piece with ⟨c, text, isParen⟩ | ⟨nonempty, chars, ends⟩
  · rw [text, List.singleton_append, Scanner.front?, if_pos isParen]
  · have run := takeWhile_append_of_stop chars ends
    obtain ⟨c, more, text⟩ := List.exists_cons_of_ne_nil nonempty
    have notParen := (isWordChar_iff.1 (chars c (text ▸ List.mem_cons_self))).2
    rw [text, List.cons_append] at run ⊢
    rw [Scanner.front?, if_neg (by rw [notParen]; exact Bool.false_ne_true), run]

end First

namespace Scanner

structure StandsAt (s : Scanner) (before behind : Text) : Prop where
  source : s.source = before ++ behind
  cursor : s.cursor = Text.width before

theorem standsAt_start (text : String) : (start text).StandsAt [] text.toList := ⟨rfl, rfl⟩

/-- A call returns the first of the tokens that are left, and leaves the others. -/
theorem StandsAt.next?_eq {s : Scanner} {before behind : Text} (stands : s.StandsAt before behind) :
    ∃ next front rest,
      s.next? = some ((placed (Text.width before) (lexemes behind)).head?, next) ∧
      next.StandsAt front rest ∧
      placed (Text.width front) (lexemes rest) =
        (placed (Text.width before) (lexemes behind)).tail := by
  obtain ⟨source, cursor⟩ := s
  obtain ⟨rfl, rfl⟩ : source = before ++ behind ∧ cursor = Text.width before :=
    ⟨stands.source, stands.cursor⟩
  rcases lexemes_cases behind with ⟨empty, blank⟩ | ⟨lexeme, rest, first, read⟩
  · have trimmed : Text.trimStart behind = [] :=
      List.dropWhile_eq_nil_iff.2 (List.all_eq_true.1 blank)
    refine ⟨⟨before ++ behind, Text.width (before ++ behind)⟩, before ++ behind, [], ?_,
      ⟨(List.append_nil _).symm, rfl⟩, ?_⟩
    · rw [empty, next?, Text.splitAt?_width]
      simp [trimmed, front?, placed, Text.width, Text.width_append]
    · rw [empty, lexemes.eq_def]
      rfl
  · have skipped : Text.width behind - Text.width (lexeme.text ++ rest) = Text.width lexeme.gap := by
      rw [first.whole, Text.width_append, Nat.add_sub_cancel]
    refine ⟨⟨before ++ behind, Text.width before + Text.width lexeme.gap + Text.width lexeme.text⟩,
      before ++ lexeme.whole, rest, ?_, ⟨?_, ?_⟩, ?_⟩
    · rw [read, next?, Text.splitAt?_width]
      simp only [Option.bind_eq_bind, Option.bind_some, first.trimStart_eq, skipped,
        first.front?_eq]
      rfl
    · simp [first.whole, Lexeme.whole]
    · rw [Lexeme.whole, Text.width_append, Text.width_append, Nat.add_assoc]
    · rw [read, placed, List.tail_cons, Lexeme.whole, Text.width_append, Text.width_append,
        Nat.add_assoc]

/-- The calls return the tokens that are left one after the other, and then nothing any more. -/
theorem StandsAt.call_eq {s : Scanner} {before behind : Text} (stands : s.StandsAt before behind)
    (n : Nat) : s.call n = some (placed (Text.width before) (lexemes behind))[n]? := by
  induction n generalizing s before behind with
  | zero =>
    obtain ⟨next, _, _, step, _⟩ := stands.next?_eq
    rw [call, step, List.head?_eq_getElem?]
    rfl
  | succ n ih =>
    obtain ⟨next, front, rest, step, after, left⟩ := stands.next?_eq
    rw [call, step]
    show next.call n = _
    rw [ih after, left, List.getElem?_tail]

end Scanner

/-- Which token a text is; letters of keywords differ in case only within ASCII. -/
structure Token.Means (token : Token) (text : Text) : Prop where
  opening : token = .opening ↔ text = ['(']
  closing : token = .closing ↔ text = [')']
  and : token = .and ↔ Text.sameLetters text "and" = true
  or : token = .or ↔ Text.sameLetters text "or" = true
  not : token = .not ↔ Text.sameLetters text "not" = true
  word : ∀ name, token = .word name → name.toList = text

theorem Token.means_ofText (text : Text) : (ofText text).Means text where
  opening := by
    constructor
    · intro isOpening
      unfold ofText at isOpening
      split_ifs at isOpening with same
      exact same
    · rintro rfl
      rfl
  closing := by
    constructor
    · intro isClosing
      unfold ofText at isClosing
      split_ifs at isClosing with _ same
      exact same
    · rintro rfl
      rfl
  and := by
    refine ⟨fun isAnd => ?_, token_of_sameLetters_and⟩
    unfold ofText at isAnd
    split_ifs at isAnd with _ _ same
    exact same
  or := by
    refine ⟨fun isOr => ?_, token_of_sameLetters_or⟩
    unfold ofText at isOr
    split_ifs at isOr with _ _ _ same
    exact same
  not := by
    refine ⟨fun isNot => ?_, token_of_sameLetters_not⟩
    unfold ofText at isNot
    split_ifs at isNot with _ _ _ _ same
    exact same
  word := fun _ isWord => (eq_of_ofText isWord).symm

structure Longest (before run after : Text) : Prop where
  chars : ∀ c ∈ run, isWordChar c = true
  left : ∀ c ∈ before.getLast?, isWordChar c = false
  right : ∀ c ∈ after.head?, isWordChar c = false

/-- The token that stands for `text` between `before` and `after`: a parenthesis, or a longest
run. -/
structure Spanned.At (t : Spanned) (before text after : Text) : Prop where
  start : t.start = Text.width before
  stop : t.stop = Text.width (before ++ text)
  nonempty : text ≠ []
  token : t.token.Means text
  piece : text = ['('] ∨ text = [')'] ∨ Longest before text after

theorem isParenthesis_iff {c : Char} : isParenthesis c = true ↔ c = '(' ∨ c = ')' := by
  rw [isParenthesis, Bool.or_eq_true, beq_iff_eq, beq_iff_eq]

def Apart (before behind : Text) : Prop :=
  (∀ c ∈ before.getLast?, isWordChar c = false) ∨ EndsWord behind

namespace First

variable {before cs rest : Text} {lexeme : Lexeme}

theorem apart (first : First cs lexeme rest) : Apart (before ++ lexeme.whole) rest := by
  rcases first.piece with ⟨c, text, isParen⟩ | ⟨_, _, ends⟩
  · left
    intro d last
    rw [Lexeme.whole, text, ← List.append_assoc, List.getLast?_concat] at last
    cases last
    exact Bool.eq_false_iff.2 fun isWord =>
      absurd isParen (Bool.eq_false_iff.1 (isWordChar_iff.1 isWord).2)
  · exact .inr ends

theorem left (first : First cs lexeme rest) (split : Apart before cs) {c : Char} {more : Text}
    (text : lexeme.text = c :: more) (isWord : isWordChar c = true) :
    ∀ d ∈ (before ++ lexeme.gap).getLast?, isWordChar d = false := by
  intro d last
  cases gap : lexeme.gap with
  | nil =>
    rw [gap, List.append_nil] at last
    have whole := first.whole
    rw [gap, List.nil_append, text] at whole
    rcases split with stops | ends
    · exact stops d last
    · rw [whole] at ends
      exact absurd isWord (Bool.eq_false_iff.1 (ends c rfl))
  | cons b bs =>
    rw [List.getLast?_append_of_ne_nil _ (gap ▸ List.cons_ne_nil b bs)] at last
    have blank := List.all_eq_true.1 first.blank d (List.mem_of_getLast? last)
    rw [isWordChar, blank]
    rfl

theorem at_token (first : First cs lexeme rest) (split : Apart before cs) :
    Spanned.At ⟨Text.width before + Text.width lexeme.gap,
      Text.width before + Text.width lexeme.gap + Text.width lexeme.text, lexeme.token⟩
      (before ++ lexeme.gap) lexeme.text rest where
  start := (Text.width_append _ _).symm
  stop := by rw [Text.width_append, Text.width_append]
  nonempty := by
    obtain ⟨c, more, text, _⟩ := first.exists_cons
    exact text ▸ List.cons_ne_nil c more
  token := Token.means_ofText lexeme.text
  piece := by
    rcases first.piece with ⟨c, text, isParen⟩ | ⟨nonempty, chars, ends⟩
    · rw [text]
      rcases isParenthesis_iff.1 isParen with rfl | rfl
      · exact .inl rfl
      · exact .inr (.inl rfl)
    · obtain ⟨c, more, text⟩ := List.exists_cons_of_ne_nil nonempty
      have isWord := chars c (text ▸ List.mem_cons_self)
      exact .inr (.inr ⟨chars, first.left split text isWord, ends⟩)

end First

theorem placed_cons (n : Nat) (lexeme : Lexeme) (rest : List Lexeme) :
    placed n (lexeme :: rest) =
      ⟨n + Text.width lexeme.gap, n + Text.width lexeme.gap + Text.width lexeme.text,
        lexeme.token⟩ :: placed (n + Text.width lexeme.whole) rest := by
  rw [placed, Lexeme.whole, Text.width_append, Nat.add_assoc]

/-- Every token stands for a part of the text. -/
theorem exists_at {before cs : Text} {t : Spanned} (split : Apart before cs)
    (member : t ∈ placed (Text.width before) (lexemes cs)) :
    ∃ front text after, before ++ cs = front ++ (text ++ after) ∧ t.At front text after := by
  induction cs using lexemes_induction generalizing before with
  | allBlank cs read =>
    rw [read] at member
    exact nomatch member
  | step cs lexeme rest first read ih =>
    rw [read, placed_cons] at member
    rcases List.mem_cons.1 member with rfl | behind
    · refine ⟨before ++ lexeme.gap, lexeme.text, rest, ?_, first.at_token split⟩
      rw [first.whole, List.append_assoc]
    · rw [← Text.width_append] at behind
      obtain ⟨front, text, after, whole, stands⟩ := ih first.apart behind
      refine ⟨front, text, after, ?_, stands⟩
      rw [← whole, first.whole, Lexeme.whole]
      simp only [List.append_assoc]

theorem le_start_of_mem_placed {n : Nat} {ls : List Lexeme} {t : Spanned}
    (member : t ∈ placed n ls) : n ≤ t.start := by
  induction ls generalizing n with
  | nil => exact nomatch member
  | cons lexeme rest ih =>
    rw [placed_cons] at member
    rcases List.mem_cons.1 member with rfl | behind
    · exact Nat.le_add_right _ _
    · exact (Nat.le_add_right _ _).trans (ih behind)

theorem pairwise_placed (n : Nat) (ls : List Lexeme) :
    (placed n ls).Pairwise fun t next => t.stop ≤ next.start := by
  induction ls generalizing n with
  | nil => exact List.Pairwise.nil
  | cons lexeme rest ih =>
    rw [placed_cons, List.pairwise_cons]
    refine ⟨fun next behind => ?_, ih _⟩
    have later := le_start_of_mem_placed behind
    rwa [Lexeme.whole, Text.width_append, ← Nat.add_assoc] at later

theorem Spanned.At.start_lt_stop {t : Spanned} {before text after : Text}
    (stands : t.At before text after) : t.start < t.stop := by
  obtain ⟨c, more, rfl⟩ := List.exists_cons_of_ne_nil stands.nonempty
  have positive := c.utf8Size_pos
  rw [stands.start, stands.stop, Text.width_append, Text.width_cons]
  omega

def Spanned.Covers (t : Spanned) (n : Nat) : Prop := t.start ≤ n ∧ n < t.stop

instance (t : Spanned) (n : Nat) : Decidable (t.Covers n) :=
  inferInstanceAs (Decidable (t.start ≤ n ∧ n < t.stop))

theorem cases_of_append_eq {first second before after : Text} {c : Char}
    (split : first ++ second = before ++ c :: after) :
    (∃ inner, first = before ++ c :: inner) ∨
      ∃ inner, before = first ++ inner ∧ second = inner ++ c :: after := by
  rcases List.append_eq_append_iff.1 split with behind | ⟨inner, whole, rest⟩
  · exact .inr behind
  · cases inner with
    | nil => exact .inr ⟨[], by rw [whole, List.append_nil, List.append_nil], rest.symm⟩
    | cons d inner =>
      cases rest
      exact .inl ⟨inner, whole⟩

theorem First.covers {cs rest before inner more : Text} {lexeme : Lexeme} {c : Char}
    (first : First cs lexeme rest) (text : lexeme.text = inner ++ c :: more) :
    let t : Spanned := ⟨Text.width before + Text.width lexeme.gap,
      Text.width before + Text.width lexeme.gap + Text.width lexeme.text, lexeme.token⟩
    let n := Text.width (before ++ (lexeme.gap ++ inner))
    t.Covers n ∧ (isParenthesis c = true → t = ⟨n, n + 1, Token.ofText [c]⟩) := by
  intro t n
  have place : n = Text.width before + Text.width lexeme.gap + Text.width inner := by
    show Text.width (before ++ (lexeme.gap ++ inner)) = _
    rw [Text.width_append, Text.width_append, Nat.add_assoc]
  have positive := c.utf8Size_pos
  have size := congrArg Text.width text
  rw [Text.width_append, Text.width_cons] at size
  refine ⟨⟨?_, ?_⟩, fun isParen => ?_⟩
  · show Text.width before + Text.width lexeme.gap ≤ n
    omega
  · show n < Text.width before + Text.width lexeme.gap + Text.width lexeme.text
    omega
  · rcases first.piece with ⟨d, alone, _⟩ | ⟨_, chars, _⟩
    · have single : inner = [] ∧ [c] = [d] := by
        rw [alone] at text
        cases inner with
        | nil => cases text; exact ⟨rfl, rfl⟩
        | cons e inner => simp at text
      obtain ⟨rfl, same⟩ := single
      have byte : Text.width [c] = 1 := by
        rcases isParenthesis_iff.1 isParen with rfl | rfl <;> rfl
      have token : lexeme.token = Token.ofText [c] := by rw [Lexeme.token, alone, same]
      rw [alone, ← same, byte] at size
      show Spanned.mk _ _ _ = _
      rw [place, token, alone, ← same, byte]
      rfl
    · have isWord := chars c (text ▸ List.mem_append_right inner List.mem_cons_self)
      exact absurd isParen (Bool.eq_false_iff.1 (isWordChar_iff.1 isWord).2)

/-- Every character that is not blank belongs to a token, and a parenthesis is one. -/
theorem exists_covering {before cs front after : Text} {c : Char} (split : cs = front ++ c :: after)
    (visible : Text.isBlank c = false) :
    ∃ t ∈ placed (Text.width before) (lexemes cs), t.Covers (Text.width (before ++ front)) ∧
      (isParenthesis c = true →
        t = ⟨Text.width (before ++ front), Text.width (before ++ front) + 1, Token.ofText [c]⟩) := by
  have notAmong : ∀ cs : Text, Text.isAllBlank cs = true → c ∉ cs := fun cs blank member =>
    absurd (List.all_eq_true.1 blank c member) (Bool.eq_false_iff.1 visible)
  induction cs using lexemes_induction generalizing before front with
  | allBlank cs read blank => exact absurd (split ▸ by simp) (notAmong cs blank)
  | step cs lexeme rest first read ih =>
    rw [first.whole] at split
    rw [read, placed_cons]
    rcases cases_of_append_eq split with ⟨inner, inGap⟩ | ⟨inner, rfl, behindGap⟩
    · exact absurd (inGap ▸ by simp) (notAmong _ first.blank)
    · rcases cases_of_append_eq behindGap with ⟨more, inText⟩ | ⟨back, rfl, behind⟩
      · exact ⟨_, List.mem_cons_self, first.covers inText⟩
      · obtain ⟨t, member, covers⟩ := @ih (before ++ lexeme.whole) back behind
        rw [Text.width_append] at member
        rw [Lexeme.whole, List.append_assoc, List.append_assoc] at covers
        exact ⟨t, List.mem_cons_of_mem _ member, covers⟩

/-- A text is read token by token: each call returns the next token, none of them fails, and after
the last token there is nothing more. The tokens are not empty, begin and end between characters,
and follow each other. What is outside them is blank. A parenthesis is a token of its own; every
other one is a longest run of characters that are neither blank nor parentheses, and it is a
keyword if it has the letters of one, else a word of just these characters. -/
theorem tokens_lossless (text : String) :
    (∀ n, (Scanner.start text).call n = some (tokens text)[n]?) ∧
    (tokens text).Pairwise (fun t next => t.start < next.start ∧ t.stop ≤ next.start) ∧
    (∀ t ∈ tokens text, t.start < t.stop ∧
      String.Pos.Raw.IsValid text ⟨t.start⟩ ∧ String.Pos.Raw.IsValid text ⟨t.stop⟩ ∧
      ∃ before run after, text.toList = before ++ (run ++ after) ∧ t.At before run after) ∧
    ∀ before c after, text.toList = before ++ c :: after →
      let n := Text.width before
      (c = '(' → ⟨n, n + 1, .opening⟩ ∈ tokens text) ∧
      (c = ')' → ⟨n, n + 1, .closing⟩ ∈ tokens text) ∧
      ((∀ t ∈ tokens text, ¬t.Covers n) → Text.isBlank c = true) := by
  have stands : ∀ t ∈ tokens text,
      ∃ before run after, text.toList = before ++ (run ++ after) ∧ t.At before run after :=
    fun t member => @exists_at [] text.toList t (.inl fun _ absent => nomatch absent) member
  refine ⟨(Scanner.standsAt_start text).call_eq, ?_, ?_, ?_⟩
  · refine (pairwise_placed 0 (lexemes text.toList)).imp_of_mem fun member _ later => ?_
    obtain ⟨_, _, _, _, here⟩ := stands _ member
    exact ⟨here.start_lt_stop.trans_le later, later⟩
  · intro t member
    obtain ⟨before, run, after, whole, here⟩ := stands t member
    refine ⟨here.start_lt_stop, ?_, ?_, before, run, after, whole, here⟩
    · exact Text.exists_splitAt?_iff.1 ⟨_, Text.splitAt?_eq_some_iff.2 ⟨whole, here.start⟩⟩
    · rw [← List.append_assoc] at whole
      exact Text.exists_splitAt?_iff.1 ⟨_, Text.splitAt?_eq_some_iff.2 ⟨whole, here.stop⟩⟩
  · intro before c after split n
    have covering : Text.isBlank c = false → ∃ t ∈ tokens text, t.Covers n ∧
        (isParenthesis c = true → t = ⟨n, n + 1, Token.ofText [c]⟩) :=
      @exists_covering [] text.toList before after c split
    refine ⟨?_, ?_, fun uncovered => ?_⟩
    · rintro rfl
      obtain ⟨t, member, _, alone⟩ := covering rfl
      exact alone rfl ▸ member
    · rintro rfl
      obtain ⟨t, member, _, alone⟩ := covering rfl
      exact alone rfl ▸ member
    · by_contra visible
      obtain ⟨t, member, covers, _⟩ := covering (Bool.not_eq_true _ ▸ visible)
      exact uncovered t member covers

/-- Blank characters of two and of three bytes, a keyword in mixed case, and a word that only begins
like one. -/
theorem tokens_lossless_wide :
    let text := "(été\u00a0oR)\u3000ANDy"
    tokens text = [⟨0, 1, .opening⟩, ⟨1, 6, .word "été"⟩, ⟨8, 10, .or⟩, ⟨10, 11, .closing⟩,
      ⟨14, 18, .word "ANDy"⟩] ∧
    (Scanner.start text).call 2 = some (some ⟨8, 10, .or⟩) ∧
    (Scanner.start text).call 9 = some none ∧
    (String.Pos.Raw.IsValid text ⟨10⟩ ∧ ∃ before run after,
      text.toList = before ++ (run ++ after) ∧ Spanned.At ⟨8, 10, .or⟩ before run after) ∧
    ⟨10, 11, .closing⟩ ∈ tokens text ∧ Text.isBlank '\u3000' = true := by
  intro text
  have read : tokens text = [⟨0, 1, .opening⟩, ⟨1, 6, .word "été"⟩, ⟨8, 10, .or⟩,
      ⟨10, 11, .closing⟩, ⟨14, 18, .word "ANDy"⟩] := by decide +kernel
  obtain ⟨calls, _, spans, characters⟩ := tokens_lossless text
  have closing := (characters "(été\u00a0oR".toList ')' "\u3000ANDy".toList (by decide)).2.1 rfl
  have gap := (characters "(été\u00a0oR)".toList '\u3000' "ANDy".toList (by decide)).2.2
  rw [read] at calls spans gap
  exact ⟨read, calls 2, calls 9, (spans ⟨8, 10, .or⟩ (by decide)).2.2, closing, gap (by decide)⟩

end Scaffold.Condition
