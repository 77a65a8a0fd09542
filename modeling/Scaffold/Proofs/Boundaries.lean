import Scaffold.Proofs.Condition.Places

/-! Text that is cut at a byte. A byte may lie within a character, and there nothing can be cut;
the bytes where a text can be cut are the widths of its beginnings. -/

namespace Scaffold.Text

/-- The text before byte `n` and the text from there on; none within a character and behind the
end. -/
def splitAt? : Nat → Text → Option (Text × Text)
  | 0, cs => some ([], cs)
  | _ + 1, [] => none
  | n + 1, c :: cs =>
    if c.utf8Size ≤ n + 1 then
      (splitAt? (n + 1 - c.utf8Size) cs).map fun parts => (c :: parts.1, parts.2)
    else none

theorem splitAt?_cons {n : Nat} {c : Char} (fits : c.utf8Size ≤ n) (cs : Text) :
    splitAt? n (c :: cs) =
      (splitAt? (n - c.utf8Size) cs).map fun parts => (c :: parts.1, parts.2) := by
  have positive := c.utf8Size_pos
  cases n with
  | zero => omega
  | succ n => rw [splitAt?, if_pos fits]

theorem splitAt?_width (before after : Text) :
    splitAt? (width before) (before ++ after) = some (before, after) := by
  induction before with
  | nil => rw [width, List.nil_append, splitAt?]
  | cons c cs ih =>
    rw [width_cons, List.cons_append, splitAt?_cons (Nat.le_add_right _ _), Nat.add_sub_cancel_left,
      ih]
    rfl

/-- A text can be cut exactly at the widths of its beginnings. -/
theorem splitAt?_eq_some_iff {n : Nat} {cs before after : Text} :
    splitAt? n cs = some (before, after) ↔ cs = before ++ after ∧ n = width before := by
  constructor
  · intro cut
    fun_induction splitAt? n cs generalizing before with
    | case1 cs =>
      cases cut
      exact ⟨rfl, rfl⟩
    | case2 => exact nomatch cut
    | case3 n c cs fits ih =>
      obtain ⟨⟨first, rest⟩, inner, same⟩ := Option.map_eq_some_iff.1 cut
      cases same
      obtain ⟨whole, size⟩ := ih inner
      refine ⟨by rw [whole, List.cons_append], ?_⟩
      have total : n + 1 - c.utf8Size = width first := size
      show n + 1 = c.utf8Size + width first
      omega
    | case4 => exact nomatch cut
  · rintro ⟨rfl, rfl⟩
    exact splitAt?_width before after

theorem width_toList (s : String) : width s.toList = s.utf8ByteSize := by
  rw [← String.ofList_toList (s := s), String.toList_ofList]
  generalize s.toList = cs
  induction cs with
  | nil => rfl
  | cons c cs ih =>
    rw [width_cons, ih, String.ofList_cons, String.utf8ByteSize_append, String.utf8ByteSize_singleton]

theorem exists_splitAt?_iff {n : Nat} {s : String} :
    (∃ parts, splitAt? n s.toList = some parts) ↔ String.Pos.Raw.IsValid s ⟨n⟩ := by
  rw [String.Pos.Raw.isValid_iff_exists_append]
  constructor
  · rintro ⟨⟨before, after⟩, cut⟩
    obtain ⟨whole, size⟩ := splitAt?_eq_some_iff.1 cut
    refine ⟨String.ofList before, String.ofList after, ?_, ?_⟩
    · rw [← String.ofList_append, ← whole, String.ofList_toList]
    · rw [size, ← String.toList_ofList (l := before), width_toList, String.toList_ofList]
      rfl
  · rintro ⟨first, second, rfl, position⟩
    refine ⟨(first.toList, second.toList), splitAt?_eq_some_iff.2 ⟨String.toList_append, ?_⟩⟩
    rw [width_toList]
    exact congrArg String.Pos.Raw.byteIdx position

/-- The text that is left when all from byte `n` on is cut off; a text that ends before is left as
it is. -/
def truncate? (n : Nat) (cs : Text) : Option Text :=
  if width cs ≤ n then some cs else (splitAt? n cs).map Prod.fst

theorem truncate?_width (before after : Text) :
    truncate? (width before) (before ++ after) = some before := by
  unfold truncate?
  split_ifs with short
  · rw [width_append] at short
    have empty : after = [] := eq_nil_of_width_eq_zero (by omega)
    rw [empty, List.append_nil]
  · rw [splitAt?_width]
    rfl

end Scaffold.Text
