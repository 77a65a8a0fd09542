import Mathlib.Data.List.TakeWhile
import Mathlib.Tactic.Common
import Scaffold.Condition.Parser

/-! Lexemes and their places in the text. Gaps and lexemes in order are the text up to blank
space at its end, so the bytes between the first and the last of some adjacent lexemes are
these lexemes with the gaps between them. -/

namespace Scaffold.Text

def sliceFrom (offset start stop : Nat) : Text → Text
  | [] => []
  | c :: cs =>
    if start ≤ offset ∧ offset < stop then c :: sliceFrom (offset + c.utf8Size) start stop cs
    else sliceFrom (offset + c.utf8Size) start stop cs

def slice (start stop : Nat) (cs : Text) : Text := sliceFrom 0 start stop cs

theorem width_cons (c : Char) (cs : Text) : width (c :: cs) = c.utf8Size + width cs := rfl

theorem width_append (first second : Text) :
    width (first ++ second) = width first + width second := by
  induction first with
  | nil => exact (Nat.zero_add _).symm
  | cons c cs ih => rw [List.cons_append, width_cons, width_cons, ih, Nat.add_assoc]

theorem eq_nil_of_width_eq_zero {cs : Text} (empty : width cs = 0) : cs = [] := by
  cases cs with
  | nil => rfl
  | cons c cs =>
    have nonempty := c.utf8Size_pos
    rw [width_cons] at empty
    omega

theorem sliceFrom_before (offset start stop : Nat) (before rest : Text)
    (outside : offset + width before ≤ start) :
    sliceFrom offset start stop (before ++ rest) =
      sliceFrom (offset + width before) start stop rest := by
  induction before generalizing offset with
  | nil => rfl
  | cons c cs ih =>
    have positive := c.utf8Size_pos
    rw [width_cons] at outside ⊢
    rw [List.cons_append, sliceFrom, if_neg (by omega), ih _ (by omega), Nat.add_assoc]

theorem sliceFrom_inside (offset start stop : Nat) (inside rest : Text) (begun : start ≤ offset)
    (within : offset + width inside ≤ stop) :
    sliceFrom offset start stop (inside ++ rest) =
      inside ++ sliceFrom (offset + width inside) start stop rest := by
  induction inside generalizing offset with
  | nil => rfl
  | cons c cs ih =>
    have positive := c.utf8Size_pos
    rw [width_cons] at within ⊢
    rw [List.cons_append, sliceFrom, if_pos (by omega), ih _ (by omega) (by omega),
      Nat.add_assoc, List.cons_append]

theorem sliceFrom_after (offset start stop : Nat) (rest : Text) (ended : stop ≤ offset) :
    sliceFrom offset start stop rest = [] := by
  induction rest generalizing offset with
  | nil => rfl
  | cons c cs ih => rw [sliceFrom, if_neg (by omega), ih _ (by omega)]

theorem slice_middle (before middle after : Text) :
    slice (width before) (width before + width middle) (before ++ (middle ++ after)) =
      middle := by
  have skipped := sliceFrom_before 0 (width before) (width before + width middle) before
    (middle ++ after) (by omega)
  rw [Nat.zero_add] at skipped
  rw [slice, skipped, sliceFrom_inside _ _ _ _ _ (Nat.le_refl _) (Nat.le_refl _),
    sliceFrom_after _ _ _ _ (Nat.le_refl _), List.append_nil]

end Scaffold.Text

namespace Scaffold.Condition

def Lexeme.whole (lexeme : Lexeme) : Text := lexeme.gap ++ lexeme.text

theorem exists_lexemes_append (cs : Text) :
    ∃ tail : Text, (lexemes cs).flatMap Lexeme.whole ++ tail = cs ∧
      Text.isAllBlank tail = true := by
  fun_induction lexemes cs with
  | case1 cs blank =>
    refine ⟨cs, rfl, ?_⟩
    rw [List.dropWhile_eq_nil_iff] at blank
    exact List.all_eq_true.2 blank
  | case2 cs c rest behind gap isParenthesis ih =>
    obtain ⟨tail, whole, blank⟩ := ih
    refine ⟨tail, ?_, blank⟩
    rw [List.flatMap_cons, Lexeme.whole, List.append_assoc, List.append_assoc, whole,
      List.singleton_append, ← behind, List.takeWhile_append_dropWhile]
  | case3 cs c rest behind gap isWord ih =>
    obtain ⟨tail, whole, blank⟩ := ih
    refine ⟨tail, ?_, blank⟩
    rw [List.flatMap_cons, Lexeme.whole, List.append_assoc, List.append_assoc, whole,
      List.cons_append, List.takeWhile_append_dropWhile, ← behind,
      List.takeWhile_append_dropWhile]

/-- The lexemes `ls` stand at the places `ts`, somewhere in the text `source`. -/
def StandAt (source : Text) (ls : List Lexeme) (ts : List Spanned) : Prop :=
  ∃ before after, source = before ++ (ls.flatMap Lexeme.whole ++ after) ∧
    ts = placed (Text.width before) ls

theorem standAt_tokens (text : String) :
    StandAt text.toList (lexemes text.toList) (tokens text) := by
  obtain ⟨tail, whole, _⟩ := exists_lexemes_append text.toList
  exact ⟨[], tail, whole.symm, rfl⟩

namespace StandAt

variable {source : Text} {lexeme : Lexeme} {ls : List Lexeme} {t : Spanned} {ts : List Spanned}

theorem nil_iff (stand : StandAt source ls ts) : ls = [] ↔ ts = [] := by
  obtain ⟨before, after, _, rfl⟩ := stand
  cases ls <;> simp [placed]

theorem cons (stand : StandAt source (lexeme :: ls) ts) :
    ∃ t rest, ts = t :: rest ∧ t.token = lexeme.token ∧ StandAt source ls rest := by
  obtain ⟨before, after, split, rfl⟩ := stand
  refine ⟨_, _, rfl, rfl, before ++ lexeme.whole, after, ?_, ?_⟩
  · simpa using split
  · rw [Text.width_append, Lexeme.whole, Text.width_append, ← Nat.add_assoc]

theorem exists_cons (stand : StandAt source ls (t :: ts)) :
    ∃ lexeme rest, ls = lexeme :: rest ∧ t.token = lexeme.token ∧ StandAt source rest ts := by
  cases ls with
  | nil => exact nomatch stand.nil_iff.1 rfl
  | cons lexeme rest =>
    obtain ⟨t', ts', same, token, behind⟩ := stand.cons
    cases same
    exact ⟨lexeme, rest, rfl, token, behind⟩

theorem of_head (kind : Token → Prop) (stand : StandAt source ls ts)
    (first : ∀ t ∈ ts.head?, kind t.token) : ∀ lexeme ∈ ls.head?, kind lexeme.token := by
  intro lexeme head
  cases ls with
  | nil => exact nomatch head
  | cons _ rest =>
    cases head
    obtain ⟨t, ts, rfl, token, _⟩ := stand.cons
    rw [← token]
    exact first t rfl

end StandAt

theorem length_placed (start : Nat) (ls : List Lexeme) :
    (placed start ls).length = ls.length := by
  induction ls generalizing start with
  | nil => rfl
  | cons lexeme rest ih => rw [placed, List.length_cons, List.length_cons, ih]

theorem placed_append (start : Nat) (first second : List Lexeme) :
    placed start (first ++ second) =
      placed start first ++ placed (start + Text.width (first.flatMap Lexeme.whole)) second := by
  induction first generalizing start with
  | nil => rfl
  | cons lexeme rest ih =>
    simp only [List.cons_append, placed, ih, List.flatMap_cons, Text.width_append, Lexeme.whole,
      Nat.add_assoc]

theorem stop_getLastD_placed (first : Spanned) (more : List Lexeme) :
    ((placed first.stop more).getLastD first).stop =
      first.stop + Text.width (more.flatMap Lexeme.whole) := by
  induction more generalizing first with
  | nil => rfl
  | cons lexeme rest ih =>
    have tail := ih ⟨first.stop + Text.width lexeme.gap,
      first.stop + Text.width lexeme.gap + Text.width lexeme.text, lexeme.token⟩
    rw [List.flatMap_cons, Text.width_append, Lexeme.whole, Text.width_append, placed,
      List.getLastD_cons, tail]
    simp only [Nat.add_assoc]

def runName (source : Text) : List Spanned → String
  | [] => ""
  | first :: more => String.ofList (Text.slice first.start (more.getLastD first).stop source)

theorem StandAt.runName_eq {source : Text} {lexeme : Lexeme} {more rest : List Lexeme}
    {t : Spanned} {ts after : List Spanned}
    (stand : StandAt source (lexeme :: (more ++ rest)) (t :: (ts ++ after)))
    (length : ts.length = more.length) :
    runName source (t :: ts) = flagName (lexeme :: more) := by
  obtain ⟨before, behind, split, places⟩ := stand
  rw [placed, placed_append] at places
  injection places with first run
  have run := (List.append_inj run (by rw [length, length_placed])).1
  have last : (ts.getLastD t).stop = t.stop + Text.width (more.flatMap Lexeme.whole) := by
    rw [run]
    have behind_first := stop_getLastD_placed t more
    rwa [first] at behind_first ⊢
  have start : t.start = Text.width (before ++ lexeme.gap) := by
    rw [first, Text.width_append]
  have stop : (ts.getLastD t).stop = Text.width (before ++ lexeme.gap) +
      Text.width (lexeme.text ++ more.flatMap Lexeme.whole) := by
    rw [last, first, Text.width_append, Text.width_append, Nat.add_assoc]
  have source_eq : source = (before ++ lexeme.gap) ++
      ((lexeme.text ++ more.flatMap Lexeme.whole) ++ (rest.flatMap Lexeme.whole ++ behind)) := by
    rw [split, List.flatMap_cons, List.flatMap_append, Lexeme.whole]
    simp only [List.append_assoc]
  rw [runName, stop, start, source_eq, Text.slice_middle, flagName]
  rfl

end Scaffold.Condition
