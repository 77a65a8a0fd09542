import Scaffold.Proofs.File.Pieces

/-! The components of a path, of the directories around it and of a joined path, and the normal
form of a path, which is taken from its components alone. A path leads to a directory when its
components begin those of the directory; it is within a directory when its normal form is the
directory's with names behind it. -/

namespace Scaffold.Path

def firstOf (first : Bytes) (rest : List Bytes) : List Component :=
  if first = [] then (if rest = [] then [] else [.root])
  else if first = [dot] then [.current]
  else [componentOf first]

def restOf (rest : List Bytes) : List Component :=
  (rest.filter fun piece => !isIdle piece).map componentOf

theorem components_eq {p : Path} {first : Bytes} {rest : List Bytes}
    (split : p.pieces = first :: rest) : p.components = firstOf first rest ++ restOf rest := by
  have absolute := isAbsolute_iff p split
  rw [components, split]
  unfold firstComponent firstOf restOf
  by_cases empty : first = []
  · by_cases ended : rest = []
    · simp [empty, ended, absolute]
    · simp [empty, ended, absolute]
  · simp only [empty, if_false]

theorem restOf_append (front back : List Bytes) :
    restOf (front ++ back) = restOf front ++ restOf back := by
  rw [restOf, List.filter_append, List.map_append, restOf, restOf]

theorem restOf_prefix {front rest : List Bytes} (begins : front <+: rest) :
    restOf front <+: restOf rest := by
  obtain ⟨back, rfl⟩ := begins
  rw [restOf_append]
  exact List.prefix_append _ _

theorem components_prefix (first : Bytes) {front rest : List Bytes} (begins : front <+: rest) :
    firstOf first front ++ restOf front <+: firstOf first rest ++ restOf rest := by
  by_cases ended : first = [] ∧ front = []
  · obtain ⟨rfl, rfl⟩ := ended
    exact List.nil_prefix
  · have same : firstOf first front = firstOf first rest := by
      unfold firstOf
      split_ifs with empty frontEnded restEnded restEnded
      · rfl
      · exact absurd ⟨empty, frontEnded⟩ ended
      · exact absurd (List.prefix_nil.1 (restEnded ▸ begins)) frontEnded
      · rfl
      · rfl
      · rfl
    rw [same, List.prefix_append_right_inj]
    exact restOf_prefix begins

theorem components_remaining_prefix (first : Bytes) (behind : List Bytes) (piece : Bytes)
    (within : ∀ part ∈ first :: behind, slash ∉ part) :
    (remaining first behind).components <+:
      firstOf first (behind.reverse ++ [piece]) ++ restOf (behind.reverse ++ [piece]) := by
  by_cases idleOnly : behind.dropWhile isIdle = []
  · rw [remaining_of_idle idleOnly]
    by_cases empty : first = []
    · -- The root is left of an absolute path.
      have root : components [slash] = [.root] := by decide
      have starts : firstOf first (behind.reverse ++ [piece]) = [.root] := by
        simp [firstOf, empty]
      rw [if_pos empty, root, starts]
      exact List.prefix_append _ _
    · rw [if_neg empty, components_eq (pieces_of_not_mem (within first List.mem_cons_self))]
      exact components_prefix first List.nil_prefix
  · have front : (behind.dropWhile isIdle).reverse <+: behind.reverse ++ [piece] :=
      (List.reverse_prefix.2 (List.dropWhile_suffix isIdle)).trans (List.prefix_append _ _)
    rw [components_eq (pieces_remaining_of_busy idleOnly within)]
    exact components_prefix first front

theorem components_prefix_of_mem_outerOf (first : Bytes) (behind : List Bytes)
    (within : ∀ part ∈ first :: behind, slash ∉ part) {p : Path}
    (member : p ∈ outerOf first behind) :
    p.components <+: firstOf first behind.reverse ++ restOf behind.reverse := by
  induction behind with
  | nil =>
    rw [outerOf] at member
    split_ifs at member
    · exact nomatch member
    · obtain rfl := List.mem_singleton.1 member
      exact List.nil_prefix
  | cons piece behind ih =>
    have fewer : ∀ part ∈ first :: behind, slash ∉ part := by
      intro part among
      rcases List.mem_cons.1 among with rfl | among
      · exact within part List.mem_cons_self
      · exact within part (List.mem_cons_of_mem first (List.mem_cons_of_mem piece among))
    have shorter := components_prefix first (List.prefix_append behind.reverse [piece])
    rw [List.reverse_cons]
    rw [outerOf] at member
    split_ifs at member
    · exact (ih fewer member).trans shorter
    · rcases List.mem_cons.1 member with rfl | member
      · exact components_remaining_prefix first behind piece fewer
      · exact (ih fewer member).trans shorter

theorem components_prefix_of_mem_outer {p outside : Path} (member : outside ∈ p.outer) :
    outside.components <+: p.components := by
  obtain ⟨first, rest, split⟩ := exists_pieces p
  have within : ∀ part ∈ first :: rest.reverse, slash ∉ part := by
    intro part among
    rw [List.mem_cons, List.mem_reverse, ← List.mem_cons, ← split] at among
    exact slash_not_mem_of_mem_pieces among
  rw [outer, split] at member
  have begins := components_prefix_of_mem_outerOf first rest.reverse within member
  rwa [List.reverse_reverse, ← components_eq split] at begins

section Join

variable {p q : Path}

def Descends (components : List Component) : Prop :=
  ∀ c ∈ components, c = .current ∨ ∃ name, c = .name name

theorem componentOf_of_ne {piece : Bytes} (notParent : piece ≠ [dot, dot]) :
    componentOf piece = .name piece := by
  rw [componentOf, if_neg notParent]

theorem descends_restOf {rest : List Bytes} (noParent : ∀ piece ∈ rest, piece ≠ [dot, dot]) :
    Descends (restOf rest) := by
  intro c member
  obtain ⟨piece, kept, rfl⟩ := List.mem_map.1 member
  exact .inr ⟨piece, componentOf_of_ne (noParent piece (List.mem_filter.1 kept).1)⟩

theorem descends_components {first : Bytes} {rest : List Bytes} (split : q.pieces = first :: rest)
    (relative : first ≠ []) (noParent : ∀ piece ∈ q.pieces, piece ≠ [dot, dot]) :
    Descends q.components := by
  rw [split] at noParent
  intro c member
  rw [components_eq split, List.mem_append, firstOf, if_neg relative] at member
  rcases member with member | member
  · split_ifs at member
    · exact .inl (List.mem_singleton.1 member)
    · rw [componentOf_of_ne (noParent first List.mem_cons_self)] at member
      exact .inr ⟨first, List.mem_singleton.1 member⟩
  · have behind := fun piece among => noParent piece (List.mem_cons_of_mem first among)
    exact descends_restOf behind c member

theorem components_append_slash (p q : Path) :
    (p ++ slash :: q).components = (p ++ [slash]).components ++ restOf q.pieces := by
  obtain ⟨first, rest, split⟩ := exists_pieces p
  have joined : (p ++ slash :: q).pieces = first :: (rest ++ q.pieces) := by
    rw [pieces_append_slash, split, List.cons_append]
  have alone : (p ++ [slash]).pieces = first :: (rest ++ [[]]) := by
    rw [pieces_append_slash, split, List.cons_append]
    rfl
  obtain ⟨next, more, behind⟩ := exists_pieces q
  have same : firstOf first (rest ++ q.pieces) = firstOf first (rest ++ [[]]) := by
    simp [firstOf, behind]
  have idle : restOf [[]] = [] := rfl
  calc (p ++ slash :: q).components
      = firstOf first (rest ++ q.pieces) ++ restOf (rest ++ q.pieces) := components_eq joined
    _ = firstOf first (rest ++ [[]]) ++ restOf (rest ++ [[]]) ++ restOf q.pieces := by
      rw [same, restOf_append, restOf_append, idle, List.append_nil, List.append_assoc]
    _ = (p ++ [slash]).components ++ restOf q.pieces := by rw [components_eq alone]

theorem components_append_singleton_slash (nonempty : p ≠ []) :
    (p ++ [slash]).components = p.components := by
  obtain ⟨first, rest, split⟩ := exists_pieces p
  have alone : (p ++ [slash]).pieces = first :: (rest ++ [[]]) := by
    rw [pieces_append_slash, split, List.cons_append]
    rfl
  have idle : restOf [[]] = [] := rfl
  have same : firstOf first (rest ++ [[]]) = firstOf first rest := by
    by_cases empty : first = []
    · have more : rest ≠ [] := by
        rintro rfl
        rw [empty, pieces_eq_empty_iff] at split
        exact nonempty split
      simp [firstOf, more]
    · simp only [firstOf, if_neg empty]
  calc (p ++ [slash]).components
      = firstOf first (rest ++ [[]]) ++ restOf (rest ++ [[]]) := components_eq alone
    _ = firstOf first rest ++ restOf rest := by
      rw [same, restOf_append, idle, List.append_nil]
    _ = p.components := (components_eq split).symm

/-- Joining a relative path without a piece that leads upwards adds components that descend. -/
theorem exists_components_join (p : Path) {first : Bytes} {rest : List Bytes}
    (split : q.pieces = first :: rest) (relative : first ≠ [])
    (noParent : ∀ piece ∈ q.pieces, piece ≠ [dot, dot]) :
    ∃ added, (p.join q).components = p.components ++ added ∧ Descends added := by
  have notAbsolute : ¬ q.isAbsolute = true := fun absolute =>
    relative ((isAbsolute_iff q split).1 absolute).1
  rw [join, if_neg notAbsolute]
  split_ifs with ends
  · rw [Bool.or_eq_true, decide_eq_true_eq, decide_eq_true_eq] at ends
    rcases ends with rfl | ends
    · exact ⟨q.components, rfl, descends_components split relative noParent⟩
    · obtain ⟨front, rfl⟩ := List.getLast?_eq_some_iff.1 ends
      refine ⟨restOf q.pieces, ?_, descends_restOf noParent⟩
      rw [List.append_assoc, List.singleton_append, components_append_slash]
  · have nonempty : p ≠ [] := by
      rintro rfl
      exact ends rfl
    refine ⟨restOf q.pieces, ?_, descends_restOf noParent⟩
    rw [components_append_slash, components_append_singleton_slash nonempty]

end Join

/-- One step of the normal form. What leads upwards takes back a name, stays at the root, and is
kept where there is nothing to take back. -/
def follow (walked : List Component) : Component → List Component
  | .root => [.root]
  | .current => walked
  | .name name => walked ++ [.name name]
  | .parent =>
    match walked.getLast? with
    | some (.name _) => walked.dropLast
    | some .root => walked
    | _ => walked ++ [.parent]

/-- The components of a path as they are after `.` and `..` have been followed in its text. -/
def normal (p : Path) : List Component := p.components.foldl follow []

example : normal (ofString "/../a/../b/./c") =
    [.root, .name (Bytes.ofString "b"), .name (Bytes.ofString "c")] := by decide

/-- The path is the directory or one around it, as they are written. -/
def LeadsTo (p directory : Path) : Prop := p.components <+: directory.components

def IsWithin (p directory : Path) : Prop :=
  ∃ names : List Bytes, p.normal = directory.normal ++ names.map .name

theorem exists_names_of_descends {added : List Component} (descends : Descends added)
    (walked : List Component) :
    ∃ names : List Bytes, added.foldl follow walked = walked ++ names.map .name := by
  induction added generalizing walked with
  | nil => exact ⟨[], (List.append_nil _).symm⟩
  | cons c added ih =>
    have behind : Descends added := fun d member => descends d (List.mem_cons_of_mem c member)
    rw [List.foldl_cons]
    rcases descends c List.mem_cons_self with rfl | ⟨name, rfl⟩
    · exact ih behind walked
    · obtain ⟨names, whole⟩ := ih behind (walked ++ [.name name])
      refine ⟨name :: names, ?_⟩
      rw [follow, whole, List.append_assoc, List.map_cons, List.singleton_append]

theorem isWithin_of_components {p directory : Path} {added : List Component}
    (whole : p.components = directory.components ++ added) (descends : Descends added) :
    p.IsWithin directory := by
  rw [IsWithin, normal, whole, List.foldl_append]
  exact exists_names_of_descends descends directory.normal

/-- Whatever leads to a path that descends from a directory leads to the directory or is within
it. -/
theorem leadsTo_or_isWithin {p target directory : Path} {added : List Component}
    (leads : p.LeadsTo target) (whole : target.components = directory.components ++ added)
    (descends : Descends added) : p.LeadsTo directory ∨ p.IsWithin directory := by
  rw [LeadsTo, whole] at leads
  rcases List.prefix_or_prefix_of_prefix leads (List.prefix_append _ _) with around | ⟨front, split⟩
  · exact .inl around
  · rw [← split, List.prefix_append_right_inj] at leads
    exact .inr (isWithin_of_components split.symm fun c member => descends c (leads.mem member))

end Scaffold.Path
