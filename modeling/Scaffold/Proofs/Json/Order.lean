import Mathlib.Tactic.Common
import Scaffold.Answers.Given
import Scaffold.Proofs.File.Pieces

/-! The members of an object stand in the order of their names, each name once. Names are
compared character by character, which is the order of their bytes in UTF-8. -/

namespace Scaffold

theorem ofNat_cons_lt {m n : Nat} {s t : Bytes} (bounded : n < 256) (le : m ≤ n)
    (tied : m = n → s < t) : UInt8.ofNat m :: s < UInt8.ofNat n :: t := by
  rw [List.cons_lt_cons_iff]
  rcases Nat.lt_or_eq_of_le le with less | same
  · left
    rw [UInt8.lt_iff_toNat_lt, UInt8.toNat_ofNat_of_lt' (Nat.lt_of_le_of_lt le bounded),
      UInt8.toNat_ofNat_of_lt' bounded]
    exact less
  · exact .inr ⟨congrArg _ same, tied same⟩

/-- Of two characters the smaller has the smaller bytes, whatever comes behind them. -/
theorem utf8EncodeChar_append_lt {c d : Char} (less : c < d) (s t : Bytes) :
    String.utf8EncodeChar c ++ s < String.utf8EncodeChar d ++ t := by
  have below : c.val.toNat < d.val.toNat := less
  have bound : d.val.toNat < 0x110000 := by
    rcases d.valid with low | high <;> omega
  unfold String.utf8EncodeChar
  generalize c.val.toNat = v at below ⊢
  generalize d.val.toNat = w at below bound ⊢
  dsimp only
  split_ifs <;> simp only [List.cons_append, List.nil_append]
  -- Where the lengths differ, or both have one byte, the first bytes decide.
  all_goals try omega
  all_goals try exact ofNat_cons_lt (by omega) (by omega) fun same => by omega
  · refine ofNat_cons_lt (by omega) (by omega) fun same => ?_
    exact ofNat_cons_lt (by omega) (by omega) fun same => by omega
  · refine ofNat_cons_lt (by omega) (by omega) fun same => ?_
    refine ofNat_cons_lt (by omega) (by omega) fun same => ?_
    exact ofNat_cons_lt (by omega) (by omega) fun same => by omega
  · refine ofNat_cons_lt (by omega) (by omega) fun same => ?_
    refine ofNat_cons_lt (by omega) (by omega) fun same => ?_
    refine ofNat_cons_lt (by omega) (by omega) fun same => ?_
    exact ofNat_cons_lt (by omega) (by omega) fun same => by omega

theorem Text.encoded_lt {cs ds : Text} (less : cs < ds) : cs.encoded < ds.encoded := by
  induction cs generalizing ds with
  | nil =>
    cases ds with
    | nil => exact absurd less (List.lt_irrefl [])
    | cons d ds =>
      obtain ⟨b, bs, bytes⟩ := List.exists_cons_of_ne_nil (String.utf8EncodeChar_ne_nil (c := d))
      rw [encoded, encoded, List.flatMap_cons, bytes]
      exact List.nil_lt_cons _ _
  | cons c cs ih =>
    cases ds with
    | nil => exact absurd less (List.not_lt_nil _)
    | cons d ds =>
      rw [encoded, encoded, List.flatMap_cons, List.flatMap_cons]
      rcases List.cons_lt_cons_iff.1 less with first | ⟨rfl, rest⟩
      · exact utf8EncodeChar_append_lt first _ _
      · exact List.append_left_lt (ih rest)

theorem Bytes.ofString_lt {a b : String} (less : a < b) :
    Bytes.ofString a < Bytes.ofString b := by
  rw [← String.ofList_toList (s := a), ← String.ofList_toList (s := b), Bytes.ofString_ofList,
    Bytes.ofString_ofList]
  exact Text.encoded_lt (String.lt_iff.1 less)

namespace Json

def IsSorted (value : Json) : Prop := (value.members.map Prod.fst).Pairwise (· < ·)

theorem mem_names_insertMember {name other : String} {value : Json}
    {members : List (String × Json)}
    (member : other ∈ (insertMember name value members).map Prod.fst) :
    other = name ∨ other ∈ members.map Prod.fst := by
  fun_induction insertMember name value members with
  | case1 => exact .inl (List.mem_singleton.1 member)
  | case2 => exact List.mem_cons.1 member
  | case3 => exact (List.mem_cons.1 member).imp_right (List.mem_cons_of_mem _)
  | case4 first rest _ _ ih =>
    rcases List.mem_cons.1 member with rfl | member
    · exact .inr List.mem_cons_self
    · exact (ih member).imp_right (List.mem_cons_of_mem _)

theorem pairwise_insertMember {name : String} {value : Json} {members : List (String × Json)}
    (sorted : (members.map Prod.fst).Pairwise (· < ·)) :
    ((insertMember name value members).map Prod.fst).Pairwise (· < ·) := by
  fun_induction insertMember name value members with
  | case1 => exact List.pairwise_singleton _ _
  | case2 first rest less =>
    refine List.pairwise_cons.2 ⟨fun other member => ?_, sorted⟩
    rcases List.mem_cons.1 member with rfl | member
    · exact less
    · exact String.lt_trans less ((List.pairwise_cons.1 sorted).1 other member)
  | case3 first rest _ same => exact same ▸ sorted
  | case4 first rest notLess different ih =>
    obtain ⟨above, rest⟩ := List.pairwise_cons.1 sorted
    refine List.pairwise_cons.2 ⟨fun other member => ?_, ih rest⟩
    rcases mem_names_insertMember member with rfl | member
    · exact String.not_le.1 fun le => different (String.le_antisymm le (String.not_lt.1 notLess))
    · exact above other member

theorem isSorted_ofMembers (members : List (String × Json)) : (ofMembers members).IsSorted := by
  have folded : ∀ sorted : List (String × Json), (sorted.map Prod.fst).Pairwise (· < ·) →
      ((members.foldl (fun sorted member => insertMember member.1 member.2 sorted) sorted).map
        Prod.fst).Pairwise (· < ·) := by
    induction members with
    | nil => exact fun _ sorted => sorted
    | cons member rest ih => exact fun _ sorted => ih _ (pairwise_insertMember sorted)
  exact folded [] List.Pairwise.nil

theorem isSorted_of_parse {text : String} {value : Json} (parsed : parse? text = some value) :
    value.IsSorted := by
  obtain ⟨written, _, means⟩ := Option.bind_eq_some_iff.1 parsed
  unfold Written.toJson? at means
  split at means
  · cases means
    exact List.Pairwise.nil
  · cases means
    exact List.Pairwise.nil
  · obtain ⟨_, _, rfl⟩ := Option.map_eq_some_iff.1 means
    exact List.Pairwise.nil
  · obtain ⟨_, _, rfl⟩ := Option.map_eq_some_iff.1 means
    exact List.Pairwise.nil
  · exact nomatch means
  · obtain ⟨_, _, same⟩ := Option.bind_eq_some_iff.1 means
    cases same
    exact List.Pairwise.nil
  · exact nomatch means
  · obtain ⟨values, _, same⟩ := Option.bind_eq_some_iff.1 means
    cases same
    exact isSorted_ofMembers values

end Json

theorem Preloaded.isSorted_of_read {content : String} {preloaded : Json}
    (reads : Preloaded.read content = .ok preloaded) : preloaded.IsSorted := by
  unfold Preloaded.read at reads
  split_ifs at reads
  · cases reads
    exact List.Pairwise.nil
  · split at reads
    · exact nomatch reads
    next value parsed =>
      split_ifs at reads
      cases reads
      exact Json.isSorted_of_parse parsed

end Scaffold
