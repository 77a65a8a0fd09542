import Mathlib.Tactic.Common
import Scaffold.File.Path
import Scaffold.Generation.TargetPath

/-! The pieces of a path between its slashes, and those of a text that is read as a path. In
UTF-8 only the character `/` has a byte that is a slash, so the pieces of the bytes are the
bytes of the parts. -/

namespace Scaffold.Path

theorem exists_pieces (p : Path) : ∃ first rest, p.pieces = first :: rest := by
  cases p with
  | nil => exact ⟨[], [], rfl⟩
  | cons b bs =>
    rw [pieces]
    split_ifs
    · exact ⟨_, _, rfl⟩
    · cases pieces bs with
      | nil => exact ⟨_, _, rfl⟩
      | cons piece rest => exact ⟨_, _, rfl⟩

theorem pieces_cons_slash (p : Path) : pieces (slash :: p) = [] :: pieces p := by
  rw [pieces, if_pos rfl]

theorem pieces_cons_of_ne {b : UInt8} {p : Path} {first : Bytes} {rest : List Bytes}
    (other : b ≠ slash) (split : p.pieces = first :: rest) :
    pieces (b :: p) = (b :: first) :: rest := by
  rw [pieces, if_neg other, split]

theorem pieces_append_slash (p q : Path) : pieces (p ++ slash :: q) = p.pieces ++ q.pieces := by
  induction p with
  | nil => exact pieces_cons_slash q
  | cons b p ih =>
    by_cases same : b = slash
    · rw [same, List.cons_append, pieces_cons_slash, pieces_cons_slash, ih, List.cons_append]
    · obtain ⟨first, rest, split⟩ := exists_pieces p
      have whole : pieces (p ++ slash :: q) = first :: (rest ++ q.pieces) := by
        rw [ih, split, List.cons_append]
      rw [List.cons_append, pieces_cons_of_ne same whole, pieces_cons_of_ne same split,
        List.cons_append]

theorem pieces_append {bs : Bytes} {p : Path} {first : Bytes} {rest : List Bytes}
    (within : slash ∉ bs) (split : p.pieces = first :: rest) :
    pieces (bs ++ p) = (bs ++ first) :: rest := by
  induction bs with
  | nil => exact split
  | cons b bs ih =>
    rw [List.mem_cons, not_or] at within
    exact pieces_cons_of_ne (Ne.symm within.1) (ih within.2)

theorem pieces_of_not_mem {piece : Bytes} (within : slash ∉ piece) : pieces piece = [piece] := by
  have whole := pieces_append (p := []) within rfl
  rwa [List.append_nil] at whole

theorem slash_not_mem_of_mem_pieces {p : Path} {piece : Bytes} (member : piece ∈ p.pieces) :
    slash ∉ piece := by
  induction p generalizing piece with
  | nil =>
    obtain rfl := List.mem_singleton.1 member
    exact List.not_mem_nil
  | cons b p ih =>
    by_cases same : b = slash
    · rw [same, pieces_cons_slash, List.mem_cons] at member
      rcases member with rfl | member
      · exact List.not_mem_nil
      · exact ih member
    · obtain ⟨first, rest, split⟩ := exists_pieces p
      rw [pieces_cons_of_ne same split, List.mem_cons] at member
      rw [split] at ih
      rcases member with rfl | member
      · rw [List.mem_cons, not_or]
        exact ⟨Ne.symm same, ih List.mem_cons_self⟩
      · exact ih (List.mem_cons_of_mem first member)

theorem pieces_ofPieces (first : Bytes) (rest : List Bytes)
    (within : ∀ piece ∈ first :: rest, slash ∉ piece) :
    (ofPieces (first :: rest)).pieces = first :: rest := by
  induction rest generalizing first with
  | nil => exact pieces_of_not_mem (within first List.mem_cons_self)
  | cons next rest ih =>
    have behind := ih next fun piece member => within piece (List.mem_cons_of_mem first member)
    rw [ofPieces, pieces_append_slash, pieces_of_not_mem (within first List.mem_cons_self), behind,
      List.singleton_append]
    exact fun empty => nomatch empty

theorem pieces_eq_empty_iff (p : Path) : p.pieces = [[]] ↔ p = [] := by
  constructor
  · intro single
    cases p with
    | nil => rfl
    | cons b p =>
      obtain ⟨first, rest, split⟩ := exists_pieces p
      by_cases same : b = slash
      · rw [same, pieces_cons_slash, split] at single
        exact nomatch single
      · rw [pieces_cons_of_ne same split] at single
        exact nomatch single
  · rintro rfl
    rfl

/-- An absolute path is one that begins with an empty piece before a slash. -/
theorem isAbsolute_iff (p : Path) {first : Bytes} {rest : List Bytes}
    (split : p.pieces = first :: rest) : p.isAbsolute = true ↔ first = [] ∧ rest ≠ [] := by
  cases p with
  | nil =>
    cases split
    simp [isAbsolute]
  | cons b p =>
    obtain ⟨_, _, behind⟩ := exists_pieces p
    by_cases same : b = slash
    · rw [same, pieces_cons_slash, behind] at split
      cases split
      simp [same, isAbsolute]
    · rw [pieces_cons_of_ne same behind] at split
      cases split
      simp [same, isAbsolute]

section Remaining

variable {first : Bytes} {behind : List Bytes}

theorem remaining_of_idle (idleOnly : behind.dropWhile isIdle = []) :
    remaining first behind = if first = [] then [slash] else first := by
  rw [remaining, idleOnly]

theorem remaining_of_busy (busy : behind.dropWhile isIdle ≠ []) :
    remaining first behind = ofPieces (first :: (behind.dropWhile isIdle).reverse) := by
  unfold remaining
  split
  · exact absurd ‹_› busy
  · rfl

theorem pieces_remaining_of_busy (busy : behind.dropWhile isIdle ≠ [])
    (within : ∀ part ∈ first :: behind, slash ∉ part) :
    (remaining first behind).pieces = first :: (behind.dropWhile isIdle).reverse := by
  rw [remaining_of_busy busy]
  refine pieces_ofPieces first _ fun part member => within part ?_
  rw [List.mem_cons, List.mem_reverse] at member
  exact List.mem_cons.2 (member.imp_right (List.dropWhile_sublist isIdle).mem)

end Remaining

end Scaffold.Path

namespace Scaffold

def Text.encoded (cs : Text) : Bytes := cs.flatMap String.utf8EncodeChar

theorem Bytes.ofString_ofList (cs : Text) : Bytes.ofString (String.ofList cs) = cs.encoded := by
  rw [Bytes.ofString, String.toUTF8_eq_toByteArray, String.toByteArray_ofList, List.utf8Encode,
    List.toList_data_toByteArray, Text.encoded]

theorem Text.encoded_inj {cs ds : Text} (same : cs.encoded = ds.encoded) : cs = ds := by
  rw [← Bytes.ofString_ofList, ← Bytes.ofString_ofList] at same
  have bytes : (String.ofList cs).toByteArray = (String.ofList ds).toByteArray :=
    ByteArray.ext (Array.toList_inj.1 same)
  exact String.ofList_inj.1 (String.toByteArray_inj.1 bytes)

theorem eq_of_ofNat_eq_slash {n : Nat} (bounded : n < 256) (same : Path.slash = UInt8.ofNat n) :
    n = 0x2f := by
  have values := congrArg UInt8.toNat same
  rw [UInt8.toNat_ofNat_of_lt' bounded] at values
  exact values.symm

/-- The bytes of a character beyond ASCII are all above those of ASCII. -/
theorem eq_slash_of_mem_utf8EncodeChar {c : Char}
    (member : Path.slash ∈ String.utf8EncodeChar c) : c = '/' := by
  unfold String.utf8EncodeChar at member
  simp only at member
  split at member
  case isTrue ascii =>
    have same := eq_of_ofNat_eq_slash (by omega) (List.mem_singleton.1 member)
    exact Char.ext (UInt32.toNat_inj.1 same)
  case isFalse =>
    have above : ∀ n, 0x80 ≤ n → n < 256 → Path.slash ≠ UInt8.ofNat n := by
      intro n low high same
      have value := eq_of_ofNat_eq_slash high same
      omega
    split at member
    · simp only [List.mem_cons, List.not_mem_nil, or_false] at member
      rcases member with same | same <;> exact absurd same (above _ (by omega) (by omega))
    · split at member
      · simp only [List.mem_cons, List.not_mem_nil, or_false] at member
        rcases member with same | same | same <;>
          exact absurd same (above _ (by omega) (by omega))
      · simp only [List.mem_cons, List.not_mem_nil, or_false] at member
        rcases member with same | same | same | same <;>
          exact absurd same (above _ (by omega) (by omega))

theorem TargetPath.exists_parts (cs : Text) : ∃ first rest, parts cs = first :: rest := by
  cases cs with
  | nil => exact ⟨[], [], rfl⟩
  | cons c cs =>
    rw [parts]
    split_ifs
    · exact ⟨_, _, rfl⟩
    · cases parts cs with
      | nil => exact ⟨_, _, rfl⟩
      | cons part rest => exact ⟨_, _, rfl⟩

theorem pieces_encoded (cs : Text) :
    Path.pieces cs.encoded = (TargetPath.parts cs).map Text.encoded := by
  induction cs with
  | nil => rfl
  | cons c cs ih =>
    obtain ⟨first, rest, split⟩ := TargetPath.exists_parts cs
    rw [split] at ih
    rw [TargetPath.parts, Text.encoded, List.flatMap_cons]
    split_ifs with same
    · rw [same, split]
      exact (Path.pieces_cons_slash _).trans (congrArg _ ih)
    · have within : Path.slash ∉ String.utf8EncodeChar c :=
        fun member => same (eq_slash_of_mem_utf8EncodeChar member)
      rw [split]
      exact Path.pieces_append within ih

end Scaffold
