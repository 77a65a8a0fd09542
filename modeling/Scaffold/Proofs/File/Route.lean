import Mathlib.Tactic.Common
import Scaffold.File.Tree
import Scaffold.Proofs.Except
import Scaffold.Proofs.File.Pieces

/-! The walks along a path that succeed, as a relation with one case for each thing a name can
lead to. A walk that comes to a directory goes on from there as if it started there. -/

namespace Scaffold.FileTree

def Spot.place : Spot → Location
  | .taken place => place
  | .free directory name _ => directory ++ [name]

structure IsPlain (name : Bytes) : Prop where
  notDot : name ≠ [Path.dot]
  notParent : name ≠ parentName
  short : name.length ≤ nameLimit

def linkStart (place : Location) (target : Path) : Location :=
  if target.isAbsolute then [] else place

inductive Route (t : FileTree) (follow : Bool) :
    Nat → Location → Bool → List Bytes → Spot → Prop where
  | arrived {links : Nat} {place : Location} {slash : Bool}
      (open' : slash = true → t.isDirectoryAt place = true) :
      Route t follow links place slash [] (.taken place)
  | here {links : Nat} {place : Location} {slash : Bool} {rest : List Bytes} {spot : Spot}
      (directory : t.isDirectoryAt place = true) (behind : Route t follow links place slash rest spot) :
      Route t follow links place slash ([Path.dot] :: rest) spot
  | up {links : Nat} {place : Location} {slash : Bool} {rest : List Bytes} {spot : Spot}
      (directory : t.isDirectoryAt place = true)
      (behind : Route t follow links place.dropLast slash rest spot) :
      Route t follow links place slash (parentName :: rest) spot
  | free {links : Nat} {place : Location} {slash : Bool} {name : Bytes}
      (directory : t.isDirectoryAt place = true) (plain : IsPlain name)
      (nothing : t.at? (place ++ [name]) = none) :
      Route t follow links place slash [name] (.free place name slash)
  | last {links : Nat} {place : Location} {name : Bytes} {target : Path}
      (directory : t.isDirectoryAt place = true) (plain : IsPlain name)
      (link : t.at? (place ++ [name]) = some (.link target)) (kept : follow = false) :
      Route t follow links place false [name] (.taken (place ++ [name]))
  | link {links : Nat} {place : Location} {slash : Bool} {name : Bytes} {rest : List Bytes}
      {target : Path} {spot : Spot}
      (directory : t.isDirectoryAt place = true) (plain : IsPlain name)
      (link : t.at? (place ++ [name]) = some (.link target))
      (followed : (rest = [] && !follow && !slash) = false)
      (behind : Route t follow links (linkStart place target)
        (slash || (rest = [] && endsInSlash target)) (names target ++ rest) spot) :
      Route t follow (links + 1) place slash (name :: rest) spot
  | down {links : Nat} {place : Location} {slash : Bool} {name : Bytes} {rest : List Bytes}
      {entry : Entry} {spot : Spot}
      (directory : t.isDirectoryAt place = true) (plain : IsPlain name)
      (found : t.at? (place ++ [name]) = some entry) (noLink : ∀ target, entry ≠ .link target)
      (behind : Route t follow links (place ++ [name]) slash rest spot) :
      Route t follow links place slash (name :: rest) spot

section Equations

variable {t : FileTree} {follow : Bool} {links : Nat} {place : Location} {slash : Bool}
  {name : Bytes} {rest : List Bytes}

theorem walk_here (directory : t.isDirectoryAt place = true) :
    t.walk follow links place slash ([Path.dot] :: rest) =
      t.walk follow links place slash rest := by
  rw [walk, directory]
  rfl

theorem walk_up (directory : t.isDirectoryAt place = true) :
    t.walk follow links place slash (parentName :: rest) =
      t.walk follow links place.dropLast slash rest := by
  rw [walk, directory]
  rfl

theorem walk_plain (directory : t.isDirectoryAt place = true) (plain : IsPlain name) :
    t.walk follow links place slash (name :: rest) =
      match t.at? (place ++ [name]) with
      | none => if rest = [] then .ok (.free place name slash) else .error .notFound
      | some (.link target) =>
        if rest = [] && !follow && !slash then .ok (.taken (place ++ [name]))
        else
          match links with
          | 0 => .error .tooManyLinks
          | links + 1 =>
            t.walk follow links (linkStart place target)
              (slash || (rest = [] && endsInSlash target)) (names target ++ rest)
      | some _ => t.walk follow links (place ++ [name]) slash rest := by
  rewrite [walk.eq_def]
  dsimp only
  rewrite [if_neg (by simp [directory]), if_neg plain.notDot, if_neg plain.notParent,
    if_neg (Nat.not_lt.2 plain.short)]
  cases t.at? (place ++ [name]) with
  | none => rfl
  | some entry =>
    cases entry with
    | directory => rfl
    | file content => rfl
    | link target => cases links <;> rfl

theorem walk_link {target : Path} (directory : t.isDirectoryAt place = true)
    (plain : IsPlain name) (link : t.at? (place ++ [name]) = some (.link target))
    (followed : (rest = [] && !follow && !slash) = false) :
    t.walk follow (links + 1) place slash (name :: rest) =
      t.walk follow links (linkStart place target)
        (slash || (rest = [] && endsInSlash target)) (names target ++ rest) := by
  rw [walk_plain directory plain, link]
  simp only [followed, Bool.false_eq_true, if_false]

theorem walk_down {entry : Entry} (directory : t.isDirectoryAt place = true)
    (plain : IsPlain name) (found : t.at? (place ++ [name]) = some entry)
    (noLink : ∀ target, entry ≠ .link target) :
    t.walk follow links place slash (name :: rest) =
      t.walk follow links (place ++ [name]) slash rest := by
  rw [walk_plain directory plain, found]
  cases entry with
  | directory => rfl
  | file content => rfl
  | link target => exact absurd rfl (noLink target)

end Equations

variable {t : FileTree} {follow : Bool} {links : Nat} {place : Location} {slash : Bool}
  {todo : List Bytes} {spot : Spot}

theorem Route.walk (route : Route t follow links place slash todo spot) :
    t.walk follow links place slash todo = .ok spot := by
  induction route with
  | arrived open' =>
    rw [FileTree.walk]
    split
    next refused =>
      simp only [Bool.and_eq_true, Bool.not_eq_true'] at refused
      rw [open' refused.1] at refused
      cases refused.2
    next => rfl
  | here directory _ ih => rw [walk_here directory, ih]
  | up directory _ ih => rw [walk_up directory, ih]
  | free directory plain nothing => rw [walk_plain directory plain, nothing]; rfl
  | last directory plain link kept => rw [walk_plain directory plain, link, kept]; rfl
  | link directory plain link followed _ ih => rw [walk_link directory plain link followed, ih]
  | down directory plain found noLink _ ih => rw [walk_down directory plain found noLink, ih]

theorem route_of_walk (succeeds : t.walk follow links place slash todo = .ok spot) :
    Route t follow links place slash todo spot := by
  fun_induction FileTree.walk t follow links place slash todo with
  | case1 => exact nomatch succeeds
  | case2 links place slash fine =>
    cases succeeds
    refine .arrived fun ends => ?_
    simpa [ends] using fine
  | case3 => exact nomatch succeeds
  | case4 links place slash rest directory ih =>
    exact .here (by simpa using directory) (ih succeeds)
  | case5 links place slash rest directory _ ih =>
    exact .up (by simpa using directory) (ih succeeds)
  | case6 => exact nomatch succeeds
  | case7 links place slash name directory notDot notParent short nothing =>
    cases succeeds
    exact .free (by simpa using directory) ⟨notDot, notParent, Nat.not_lt.1 short⟩ nothing
  | case8 => exact nomatch succeeds
  | case9 links place slash name rest directory notDot notParent short target link kept =>
    cases succeeds
    simp only [Bool.and_eq_true, decide_eq_true_eq, Bool.not_eq_true'] at kept
    obtain ⟨⟨rfl, unfollowed⟩, rfl⟩ := kept
    exact .last (by simpa using directory) ⟨notDot, notParent, Nat.not_lt.1 short⟩ link unfollowed
  | case10 => exact nomatch succeeds
  | case11 place slash name rest directory notDot notParent short target link followed links ih =>
    exact .link (by simpa using directory) ⟨notDot, notParent, Nat.not_lt.1 short⟩ link
      (by simpa using followed) (ih succeeds)
  | case12 links place slash name rest directory notDot notParent short entry noLink found ih =>
    exact .down (by simpa using directory) ⟨notDot, notParent, Nat.not_lt.1 short⟩ found
      noLink (ih succeeds)

theorem Route.of_free {directory : Location} {name : Bytes} {ends : Bool}
    (route : Route t follow links place slash todo (.free directory name ends)) :
    t.isDirectoryAt directory = true ∧ IsPlain name ∧ t.at? (directory ++ [name]) = none := by
  generalize whole : Spot.free directory name ends = spot at route
  induction route with
  | arrived | last => exact nomatch whole
  | free directory plain nothing =>
    cases whole
    exact ⟨directory, plain, nothing⟩
  | here _ _ ih | up _ _ ih | link _ _ _ _ _ ih | down _ _ _ _ _ ih => exact ih whole

structure IsEntryName (name : Bytes) : Prop where
  nonempty : name ≠ []
  noSlash : Path.slash ∉ name
  notDot : name ≠ [Path.dot]
  notParent : name ≠ parentName

instance (name : Bytes) : Decidable (IsEntryName name) :=
  decidable_of_iff (name ≠ [] ∧ Path.slash ∉ name ∧ name ≠ [Path.dot] ∧ name ≠ parentName)
    ⟨fun h => ⟨h.1, h.2.1, h.2.2.1, h.2.2.2⟩,
      fun h => ⟨h.nonempty, h.noSlash, h.notDot, h.notParent⟩⟩

theorem of_mem_names {p : Path} {name : Bytes} (among : name ∈ names p) :
    name ≠ [] ∧ Path.slash ∉ name := by
  obtain ⟨piece, nonempty⟩ := List.mem_filter.1 among
  exact ⟨by simpa using nonempty, Path.slash_not_mem_of_mem_pieces piece⟩

theorem Route.isEntryName_of_free {directory : Location} {name : Bytes} {ends : Bool}
    (route : Route t follow links place slash todo (.free directory name ends))
    (pieces : ∀ name ∈ todo, name ≠ [] ∧ Path.slash ∉ name) : IsEntryName name := by
  generalize whole : Spot.free directory name ends = spot at route
  induction route with
  | arrived | last => exact nomatch whole
  | free _ plain _ =>
    cases whole
    obtain ⟨nonempty, noSlash⟩ := pieces name List.mem_cons_self
    exact ⟨nonempty, noSlash, plain.notDot, plain.notParent⟩
  | here _ _ ih | up _ _ ih | down _ _ _ _ _ ih =>
    exact ih (fun other among => pieces other (List.mem_cons_of_mem _ among)) whole
  | link _ _ _ _ _ ih =>
    refine ih (fun other among => ?_) whole
    rcases List.mem_append.1 among with among | among
    · exact of_mem_names among
    · exact pieces other (List.mem_cons_of_mem _ among)

/-- A walk that comes to a directory goes on from there, with the links that are left. -/
theorem Route.walk_append {out : Location}
    (route : Route t true links place slash todo (.taken out)) :
    ∃ left, ∀ (follow ends : Bool) (rest : List Bytes), rest ≠ [] →
      t.walk follow links place ends (todo ++ rest) = t.walk follow left out ends rest := by
  generalize whole : Spot.taken out = spot at route
  induction route with
  | @arrived links place _ _ =>
    cases whole
    exact ⟨links, fun _ _ _ _ => rfl⟩
  | here around _ ih =>
    obtain ⟨left, behind⟩ := ih whole
    refine ⟨left, fun follow ends rest nonempty => ?_⟩
    rw [List.cons_append, walk_here around, behind follow ends rest nonempty]
  | up around _ ih =>
    obtain ⟨left, behind⟩ := ih whole
    refine ⟨left, fun follow ends rest nonempty => ?_⟩
    rw [List.cons_append, walk_up around, behind follow ends rest nonempty]
  | free => exact nomatch whole
  | last _ _ _ kept => exact nomatch kept
  | @link _ _ _ _ between target _ around plain link _ _ ih =>
    obtain ⟨left, behind⟩ := ih whole
    refine ⟨left, fun follow ends rest nonempty => ?_⟩
    have more : between ++ rest ≠ [] := fun empty => nonempty (List.append_eq_nil_iff.1 empty).2
    rw [List.cons_append, walk_link around plain link (by simp [more]), ← List.append_assoc]
    simpa [more] using behind follow ends rest nonempty
  | down around plain found noLink _ ih =>
    obtain ⟨left, behind⟩ := ih whole
    refine ⟨left, fun follow ends rest nonempty => ?_⟩
    rw [List.cons_append, walk_down around plain found noLink, behind follow ends rest nonempty]

theorem Route.directory_of_ne_nil
    (route : Route t follow links place slash todo spot) (nonempty : todo ≠ []) :
    t.isDirectoryAt place = true := by
  cases route with
  | arrived => exact absurd rfl nonempty
  | here directory | up directory | free directory | last directory | link directory
  | down directory => exact directory

/-- A walk that ends in a directory does not depend on the slash at the end. -/
theorem Route.of_slash {out : Location}
    (route : Route t true links place slash todo (.taken out))
    (directory : t.isDirectoryAt out = true) (ends : Bool) :
    Route t true links place ends todo (.taken out) := by
  generalize whole : Spot.taken out = spot at route ⊢
  induction route generalizing ends with
  | arrived =>
    cases whole
    exact .arrived fun _ => directory
  | here around _ ih => exact .here around (ih ends whole)
  | up around _ ih => exact .up around (ih ends whole)
  | free => exact nomatch whole
  | last _ _ _ kept => exact nomatch kept
  | link around plain link _ _ ih => exact .link around plain link (by simp) (ih _ whole)
  | down around plain found noLink _ ih =>
    exact .down around plain found noLink (ih ends whole)

/-- A walk that meets no link and never leads upwards stays below where it starts. -/
theorem Route.within {out : Location} (route : Route t follow links place slash todo spot)
    (inside : out <+: place) (noParent : ∀ name ∈ todo, name ≠ parentName)
    (noLink : ∀ below target, t.at? (out ++ below) ≠ some (.link target)) : out <+: spot.place := by
  have further : ∀ {place : Location} {name : Bytes}, out <+: place → out <+: place ++ [name] :=
    fun inside => inside.trans (List.prefix_append _ _)
  have unlinked : ∀ {place : Location} {target : Path}, out <+: place →
      t.at? place ≠ some (.link target) := by
    rintro place target ⟨below, rfl⟩
    exact noLink below target
  induction route with
  | arrived => exact inside
  | here _ _ ih => exact ih inside fun name among => noParent name (List.mem_cons_of_mem _ among)
  | up => exact absurd rfl (noParent parentName List.mem_cons_self)
  | free => exact further inside
  | last _ _ link | link _ _ link => exact absurd link (unlinked (further inside))
  | down _ _ _ _ _ ih =>
    exact ih (further inside) fun name among => noParent name (List.mem_cons_of_mem _ among)

def base (t : FileTree) (p : Path) : Location := if p.isAbsolute then [] else t.working

theorem eq_base_of_origin {p : Path} {start : Location} (starts : t.origin p = .ok start) :
    start = t.base p ∧ p ≠ [] := by
  unfold origin at starts
  split_ifs at starts with nul long empty absolute
  · cases starts
    exact ⟨by rw [base, if_pos absolute], empty⟩
  · cases starts
    exact ⟨by rw [base, if_neg absolute], empty⟩

theorem locate_eq_ok_iff {p : Path} {out : Location} :
    t.locate p = .ok out ↔ t.origin p = .ok (t.base p) ∧
      Route t true linkLimit (t.base p) (endsInSlash p) (names p) (.taken out) := by
  constructor
  · intro located
    obtain ⟨spot, follows, located⟩ := bind_eq_ok_iff.1 located
    obtain ⟨start, starts, walks⟩ := bind_eq_ok_iff.1 follows
    obtain ⟨rfl, _⟩ := eq_base_of_origin starts
    cases spot with
    | free => exact nomatch located
    | taken place =>
      cases located
      exact ⟨starts, route_of_walk walks⟩
  · rintro ⟨starts, route⟩
    have follows : t.follow p = .ok (.taken out) := bind_eq_ok_iff.2 ⟨_, starts, route.walk⟩
    exact bind_eq_ok_iff.2 ⟨_, follows, rfl⟩

structure OpensAt (t : FileTree) (p : Path) (out : Location) : Prop where
  locates : t.locate p = .ok out
  directory : t.isDirectoryAt out = true

theorem isDirectory_iff {p : Path} : t.isDirectory p = true ↔ ∃ out, t.OpensAt p out := by
  unfold isDirectory entry?
  cases located : t.locate p with
  | error fault =>
    refine iff_of_false (by simp) ?_
    rintro ⟨out, locates, _⟩
    rw [located] at locates
    exact nomatch locates
  | ok place =>
    constructor
    · intro directory
      exact ⟨place, located, directory⟩
    · rintro ⟨out, locates, directory⟩
      rw [located] at locates
      cases locates
      exact directory

theorem OpensAt.route {p : Path} {out : Location} (opens : t.OpensAt p out) (ends : Bool) :
    Route t true linkLimit (t.base p) ends (names p) (.taken out) :=
  (locate_eq_ok_iff.1 opens.locates).2.of_slash opens.directory ends

/-- From a directory without links, names that do not lead upwards lead to what is in it. -/
theorem OpensAt.within {p : Path} {out : Location} {more : List Bytes} (opens : t.OpensAt p out)
    (noLink : ∀ below target, t.at? (out ++ below) ≠ some (.link target)) (nonempty : more ≠ [])
    (downwards : ∀ name ∈ more, name ≠ parentName)
    (walks : t.walk follow linkLimit (t.base p) false (names p ++ more) = .ok spot) :
    out <+: spot.place := by
  obtain ⟨left, onwards⟩ := (opens.route false).walk_append
  rw [onwards follow false more nonempty] at walks
  exact (route_of_walk walks).within List.prefix_rfl downwards noLink

end Scaffold.FileTree
