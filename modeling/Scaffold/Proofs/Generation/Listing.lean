import Mathlib.Data.List.Nodup
import Scaffold.Proofs.File.Names
import Scaffold.Proofs.Generation.Opening

/-! What is listed of a directory, and what paths lead to what is listed. In a sound tree every
place is listed once, in its directory and in the order of the names there, and a path from a
directory down opens what stands there. -/

namespace Scaffold

namespace Bytes

theorem isBefore_iff {a b : Bytes} : a.isBefore b = true ↔ a ≤ b := by
  rw [← List.not_lt]
  fun_induction isBefore a b with
  | case1 => simp
  | case2 => simp
  | case3 a as bs ih => simpa using ih
  | case4 a as b bs different =>
    have apart : a < b ↔ ¬ b < a :=
      ⟨fun less => Std.not_lt.2 (Std.le_of_lt less),
        fun more => Std.lt_of_le_of_ne (Std.not_lt.1 more) different⟩
    have swapped : ¬ b = a := fun same => different same.symm
    simp [List.cons_lt_cons_iff, swapped, apart]

end Bytes

namespace Path

open FileTree (IsEntryName names)

def descend (p : Path) (inner : List Bytes) : Path := inner.foldl join p

variable {p : Path} {inner : List Bytes} {name : Bytes}

theorem descend_concat (p : Path) (inner : List Bytes) (name : Bytes) :
    p.descend (inner ++ [name]) = (p.descend inner).join name := by
  rw [descend, List.foldl_append, descend]
  rfl

theorem relative_of_isEntryName (named : IsEntryName name) : isAbsolute name = false := by
  cases name with
  | nil => exact absurd rfl named.nonempty
  | cons b name =>
    have other : b ≠ slash := fun same => named.noSlash (same ▸ List.mem_cons_self)
    simpa [isAbsolute] using other

theorem join_ne_nil (q : Path) (nonempty : p ≠ []) : p.join q ≠ [] := by
  unfold join
  split_ifs with absolute
  · rintro rfl
    exact nomatch absolute
  · simp [nonempty]
  · simp

theorem descend_ne_nil (nonempty : p ≠ []) (inner : List Bytes) : p.descend inner ≠ [] := by
  induction inner using List.reverseRecOn with
  | nil => exact nonempty
  | append_singleton inner name ih =>
    rw [descend_concat]
    exact join_ne_nil name ih

theorem names_descend (nonempty : p ≠ []) (named : ∀ name ∈ inner, IsEntryName name) :
    names (p.descend inner) = names p ++ inner := by
  induction inner using List.reverseRecOn with
  | nil => exact (List.append_nil _).symm
  | append_singleton inner name ih =>
    have last := named name (List.mem_append_right _ List.mem_cons_self)
    have single : names name = [name] := by
      rw [names, pieces_of_not_mem last.noSlash]
      simpa using last.nonempty
    rw [descend_concat, names_join (descend_ne_nil nonempty inner) (relative_of_isEntryName last),
      single, ih fun name among => named name (List.mem_append_left _ among), List.append_assoc]

theorem isAbsolute_descend (nonempty : p ≠ []) (named : ∀ name ∈ inner, IsEntryName name) :
    (p.descend inner).isAbsolute = p.isAbsolute := by
  induction inner using List.reverseRecOn with
  | nil => rfl
  | append_singleton inner name ih =>
    have last := named name (List.mem_append_right _ List.mem_cons_self)
    rw [descend_concat,
      isAbsolute_join (descend_ne_nil nonempty inner) (relative_of_isEntryName last)]
    exact ih fun name among => named name (List.mem_append_left _ among)

theorem length_lt_join (named : IsEntryName name) : p.length < (p.join name).length := by
  have nonempty := List.length_pos_of_ne_nil named.nonempty
  rw [join, relative_of_isEntryName named, if_neg Bool.false_ne_true]
  split_ifs
  · rw [List.length_append]
    omega
  · rw [List.length_append, List.length_cons]
    omega

theorem descend_inj (nonempty : p ≠ []) {other : List Bytes}
    (named : ∀ name ∈ inner, IsEntryName name) (named' : ∀ name ∈ other, IsEntryName name)
    (same : p.descend inner = p.descend other) : inner = other := by
  have whole := congrArg names same
  rwa [names_descend nonempty named, names_descend nonempty named',
    List.append_cancel_left_eq] at whole

end Path

namespace FileTree

variable {t after : FileTree} {place : Location} {entry : Entry} {name : Bytes}

/-- Every entry stands in a directory, is there once, and can be named. -/
structure Sound (t : FileTree) : Prop where
  rooted : t.Rooted
  distinct : (t.entries.map Prod.fst).Nodup
  spelled : ∀ entry ∈ t.entries, ∀ name ∈ entry.1, IsEntryName name

theorem Sound.spelled_of_at? (sound : t.Sound) (found : t.at? place ≠ none) :
    ∀ name ∈ place, IsEntryName name := by
  obtain ⟨entry, found⟩ := Option.ne_none_iff_exists'.1 found
  by_cases below : place = []
  · subst below
    exact fun name among => absurd among List.not_mem_nil
  · exact sound.spelled _ (mem_entries_of_at? found below)

theorem Sound.at?_of_mem (sound : t.Sound) (member : (place, entry) ∈ t.entries)
    (below : place ≠ []) : t.at? place = some entry := by
  obtain ⟨front, back, split⟩ := List.append_of_mem member
  have distinct := sound.distinct
  rw [split, List.map_append, List.map_cons, List.nodup_append] at distinct
  rw [at?, if_neg below, List.lookup_eq_some_iff]
  refine ⟨front, back, split, fun other among => ?_⟩
  have different := distinct.2.2 other.1 (List.mem_map_of_mem among) place List.mem_cons_self
  simpa using different.symm

theorem Sound.put (sound : t.Sound) (around : t.isDirectoryAt place.dropLast = true)
    (noDirectory : t.isDirectoryAt place = false) (named : IsNamed place ∨ t.at? place ≠ none) :
    (t.put place entry).Sound where
  rooted := sound.rooted.put around noDirectory
  distinct := by
    rw [FileTree.put, List.map_cons, List.nodup_cons]
    constructor
    · intro member
      obtain ⟨other, kept, same⟩ := List.mem_map.1 member
      have different := (List.mem_filter.1 kept).2
      simp [same] at different
    · exact sound.distinct.sublist (List.filter_sublist.map Prod.fst)
  spelled := by
    intro found member
    rcases List.mem_cons.1 member with rfl | member
    · rcases named with ⟨outer, name, rfl, isName⟩ | there
      · rw [List.dropLast_concat] at around
        have outerNamed := sound.spelled_of_at? (at?_ne_none_of_isDirectoryAt around)
        intro other among
        rcases List.mem_append.1 among with among | among
        · exact outerNamed other among
        · exact List.mem_singleton.1 among ▸ isName
      · exact sound.spelled_of_at? there
    · exact sound.spelled found (List.mem_filter.1 member).1

theorem Evolves.sound {allowed : Location → Prop} (evolved : Evolves allowed t after)
    (sound : t.Sound) : after.Sound := by
  induction evolved with
  | refl => exact sound
  | directory _ around nothing named ih =>
    exact ih.put around (noDirectory_of_nothing nothing) (.inl named)
  | file _ _ accepts _ ih =>
    refine ih.put accepts.around accepts.noDirectory ?_
    rcases accepts.replaces with ⟨_, named⟩ | ⟨content, found⟩
    · exact .inl named
    · exact .inr (by simp [found])

theorem Rooted.isDirectoryAt_of_append (rooted : t.Rooted) {below : Location}
    (found : t.at? (place ++ below) ≠ none) (nonempty : below ≠ []) :
    t.isDirectoryAt place = true := by
  induction below using List.reverseRecOn with
  | nil => exact absurd rfl nonempty
  | append_singleton below name ih =>
    obtain ⟨entry, found⟩ := Option.ne_none_iff_exists'.1 found
    rw [← List.append_assoc] at found
    have around := rooted.around found
    rw [List.dropLast_concat] at around
    by_cases last : below = []
    · rwa [last, List.append_nil] at around
    · exact ih (at?_ne_none_of_isDirectoryAt around) last

theorem Rooted.at?_ne_none_of_append (rooted : t.Rooted) {below : Location}
    (found : t.at? (place ++ below) ≠ none) : t.at? place ≠ none := by
  by_cases empty : below = []
  · rwa [empty, List.append_nil] at found
  · exact at?_ne_none_of_isDirectoryAt (rooted.isDirectoryAt_of_append found empty)

theorem childOf_eq_some_iff {found : Location × Entry} :
    childOf place found = some (name, entry) ↔ found = (place ++ [name], entry) := by
  obtain ⟨other, kept⟩ := found
  unfold childOf
  constructor
  · intro child
    dsimp only at child
    split at child
    · split_ifs at child with same
      cases child
      rw [← same]
    · exact nomatch child
  · rintro ⟨⟩
    simp

theorem Sound.mem_children_iff (sound : t.Sound) :
    (name, entry) ∈ t.children place ↔ t.at? (place ++ [name]) = some entry := by
  have below : place ++ [name] ≠ [] := by simp
  rw [children, List.mem_mergeSort, List.mem_filterMap]
  constructor
  · rintro ⟨found, member, child⟩
    rw [childOf_eq_some_iff.1 child] at member
    exact sound.at?_of_mem member below
  · intro found
    exact ⟨_, mem_entries_of_at? found below, childOf_eq_some_iff.2 rfl⟩

theorem Sound.nodup_children (sound : t.Sound) (place : Location) :
    ((t.children place).map Prod.fst).Nodup := by
  have listed : ((t.entries.filterMap (childOf place)).map Prod.fst).Nodup := by
    have distinct := List.pairwise_map.1 sound.distinct
    refine List.pairwise_map.2 (List.Pairwise.filterMap _ ?_ distinct)
    rintro first second different ⟨name, entry⟩ child ⟨other, entry'⟩ child' rfl
    rw [childOf_eq_some_iff.1 child, childOf_eq_some_iff.1 child'] at different
    exact different rfl
  rw [children]
  exact ((List.mergeSort_perm _ _).map Prod.fst).nodup_iff.2 listed

theorem Sound.pairwise_children (sound : t.Sound) (place : Location) :
    ((t.children place).map Prod.fst).Pairwise (· < ·) := by
  have ordered : (t.children place).Pairwise fun a b => a.1.isBefore b.1 = true := by
    apply List.pairwise_mergeSort
    · intro a b c first second
      rw [Bytes.isBefore_iff] at first second ⊢
      exact List.le_trans first second
    · intro a b
      rw [Bool.or_eq_true, Bytes.isBefore_iff, Bytes.isBefore_iff]
      exact List.le_total a.1 b.1
  have distinct := List.pairwise_map.1 (sound.nodup_children place)
  apply List.pairwise_map.2
  apply (ordered.and distinct).imp
  rintro a b ⟨before, different⟩
  exact Std.lt_of_le_of_ne (Bytes.isBefore_iff.1 before) different

/-- A directory is known to list its entries once they are put into their order. -/
theorem Sound.list_eq_ok (sound : t.Sound) {p : Path} {listed : List (Bytes × Entry)}
    (opens : t.OpensAt p place) (found : (t.entries.filterMap (childOf place)).Perm listed)
    (ordered : (listed.map Prod.fst).Pairwise (· < ·)) : t.list p = .ok listed := by
  have same : t.children place = listed := by
    have sorted := List.pairwise_map.1 (sound.pairwise_children place)
    refine List.Perm.eq_of_pairwise ?_ sorted (List.pairwise_map.1 ordered)
      ((List.mergeSort_perm _ _).trans found)
    intro a b _ _ less more
    exact absurd (List.lt_trans less more) (List.lt_irrefl _)
  exact bind_eq_ok_iff.2 ⟨place, opens.locates, by rw [if_pos opens.directory, same]⟩

theorem exists_opensAt_of_list {p : Path} {children : List (Bytes × Entry)}
    (listed : t.list p = .ok children) :
    p.length < pathLimit ∧ ∃ place, t.OpensAt p place ∧ children = t.children place := by
  obtain ⟨place, located, listed⟩ := bind_eq_ok_iff.1 listed
  split_ifs at listed with directory
  cases listed
  refine ⟨?_, place, ⟨located, directory⟩, rfl⟩
  have starts := (locate_eq_ok_iff.1 located).1
  unfold origin at starts
  split_ifs at starts with _ long <;> omega

theorem Route.eq_of_directories {ends : Bool} {links : Nat} {inner : List Bytes} {out : Location}
    (route : Route t true links place ends inner (.taken out))
    (named : ∀ name ∈ inner, IsEntryName name)
    (directories : ∀ front, front <+: inner → t.isDirectoryAt (place ++ front) = true) :
    out = place ++ inner := by
  induction inner generalizing place links with
  | nil =>
    cases route
    exact (List.append_nil _).symm
  | cons name rest ih =>
    have there := at?_of_isDirectoryAt (directories [name] ⟨rest, rfl⟩)
    have isName := named name List.mem_cons_self
    cases route with
    | here => exact absurd rfl isName.notDot
    | up => exact absurd rfl isName.notParent
    | last _ _ _ kept => exact nomatch kept
    | link _ _ link =>
      rw [there] at link
      exact nomatch link
    | down _ _ _ _ behind =>
      have inside := ih behind (fun other among => named other (List.mem_cons_of_mem _ among))
        fun front begins => by
          rw [List.append_assoc]
          exact directories (name :: front) (List.cons_prefix_cons.2 ⟨rfl, begins⟩)
      rw [inside, List.append_assoc, List.singleton_append]

/-- A path down from a directory opens what stands there under its names. -/
theorem OpensAt.eq_of_descend {p : Path} {root : Location} {inner : List Bytes}
    (opens : t.OpensAt p root) (rooted : t.Rooted) (named : ∀ name ∈ inner, IsEntryName name)
    (directory : t.isDirectoryAt (root ++ inner) = true)
    (opened : t.OpensAt (p.descend inner) place) : place = root ++ inner := by
  have nonempty : p ≠ [] := (eq_base_of_origin (locate_eq_ok_iff.1 opens.locates).1).2
  by_cases empty : inner = []
  · subst empty
    cases opens.locates.symm.trans opened.locates
    exact (List.append_nil _).symm
  · obtain ⟨left, onwards⟩ := (opens.route false).walk_append
    have walks := (opened.route false).walk
    have same : t.base (p.descend inner) = t.base p := by
      rw [base, base, Path.isAbsolute_descend nonempty named]
    rw [same, Path.names_descend nonempty named, onwards true false inner empty] at walks
    refine (route_of_walk walks).eq_of_directories named ?_
    rintro front ⟨behind, rfl⟩
    by_cases last : behind = []
    · rwa [last, List.append_nil] at directory
    · rw [← List.append_assoc] at directory
      exact rooted.isDirectoryAt_of_append (at?_ne_none_of_isDirectoryAt directory) last

end FileTree

end Scaffold
