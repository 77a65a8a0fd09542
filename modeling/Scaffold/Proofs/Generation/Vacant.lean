import Scaffold.Proofs.File.Straight
import Scaffold.Proofs.Generation.Apart

/-! The output directory where nothing was. If its path meets no link and never leads upwards,
generating a project first makes the directories that are missing on the way to it, and it stays
apart from every template that is not in it or around it. -/

namespace Scaffold

namespace FileTree

variable {t after : FileTree} {p : Path} {out place : Location} {names more : List Bytes}

theorem Straight.of_prefix (straight : Straight t place more) (begins : names <+: more) :
    Straight t place names where
  downwards inside := straight.downwards (begins.mem inside)
  noLink front shorter := straight.noLink front (shorter.trans (begins.filter _))

/-- Nothing is where the path leads, which it does by its names alone: none leads upwards, and
there is no link on the way. -/
structure Vacant (t : FileTree) (p : Path) (out : Location) : Prop where
  nonempty : p ≠ []
  spelled : out = t.base p ++ steps (FileTree.names p)
  downwards : parentName ∉ FileTree.names p
  noLink : ∀ front, front <+: out → ∀ target, t.at? front ≠ some (.link target)
  nothing : t.at? out = none

namespace Vacant

variable (vacant : t.Vacant p out)

include vacant

theorem straight : Straight t (t.base p) (FileTree.names p) where
  downwards := vacant.downwards
  noLink front begins := by
    apply vacant.noLink
    rw [vacant.spelled]
    exact (List.prefix_append_right_inj _).2 begins

theorem straight_of_evolves {allowed : Location → Prop} (evolved : Evolves allowed t after) :
    Straight after (after.base p) (FileTree.names p) := by
  have same : after.base p = t.base p := by rw [base, base, evolved.grows.working]
  rw [same]
  exact ⟨vacant.downwards,
    fun front begins target link => vacant.straight.noLink front begins target (evolved.link link)⟩

/-- Directories that are made for the path are on the way to its place. -/
theorem prefix_of_makeDirectory {between : FileTree} {q : Path} (evolved : Develops t between)
    (approaches : q.Approaches p) (makes : between.makeDirectory q = .ok after) :
    ∃ place, place <+: out ∧ between.at? place = none ∧ after = between.put place .directory := by
  obtain ⟨directory, name, ends, nonempty, route, rfl⟩ := route_of_makeDirectory makes
  obtain ⟨absolute, begins⟩ := approaches nonempty
  have start : between.base q = between.base p := by rw [base, base, absolute]
  have start' : between.base p = t.base p := by rw [base, base, evolved.grows.working]
  have straight := Straight.of_prefix (vacant.straight_of_evolves evolved) begins
  rw [start] at route
  have place : directory ++ [name] = _ := route.place_eq straight
  refine ⟨directory ++ [name], ?_, route.of_free.2.2, rfl⟩
  rw [place, start', vacant.spelled]
  exact (List.prefix_append_right_inj _).2 (begins.filter _)

/-- Only directories that were missing on the way are made. -/
theorem at?_of_made (made : Made (fun q => q.Approaches p) t after) (place : Location) :
    after.at? place = t.at? place ∨
      place <+: out ∧ t.at? place = none ∧ after.at? place = some .directory := by
  induction made with
  | none => exact .inl rfl
  | next made approaches makes ih =>
    obtain ⟨new, begins, nothing, rfl⟩ :=
      vacant.prefix_of_makeDirectory (evolves_of_made made) approaches makes
    have below : new ≠ [] := ne_nil_of_noDirectory (noDirectory_of_nothing nothing)
    rw [at?_put _ _ below]
    split_ifs with same
    · subst same
      rcases ih with unchanged | ⟨_, _, directory⟩
      · exact .inr ⟨begins, unchanged.symm.trans nothing, rfl⟩
      · exact nomatch nothing.symm.trans directory
    · exact ih

theorem at?_ensureDirectories (place : Location) :
    (t.ensureDirectories p).tree.at? place = t.at? place ∨
      place <+: out ∧ t.at? place = none ∧
        (t.ensureDirectories p).tree.at? place = some .directory :=
  vacant.at?_of_made
    ((Path.outwards_approaches p).made_ensureDirectories t (.refl p)) place

theorem eq_of_opensAt {allowed : Location → Prop} (evolved : Evolves allowed t after)
    (opens : after.OpensAt p place) : place = out := by
  have same : after.base p = t.base p := by rw [base, base, evolved.grows.working]
  have spelled : place = _ := (opens.route false).place_eq (vacant.straight_of_evolves evolved)
  rw [spelled, same, vacant.spelled]

theorem opensAt_ensureDirectories (rooted : t.Rooted)
    (done : (t.ensureDirectories p).result = .ok ()) :
    (t.ensureDirectories p).tree.OpensAt p out := by
  obtain ⟨place, opens⟩ := exists_opensAt_of_ensureDirectories rooted vacant.nonempty done
  have evolved : Develops t (t.ensureDirectories p).tree :=
    evolves_ensureDirectories t p
  rwa [vacant.eq_of_opensAt evolved opens] at opens

theorem at?_append_eq_none (rooted : t.Rooted) {below : Location} (inside : below ≠ []) :
    (t.ensureDirectories p).tree.at? (out ++ below) = none := by
  have empty := rooted.at?_append_eq_none vacant.nothing below
  rcases vacant.at?_ensureDirectories (out ++ below) with same | ⟨begins, _⟩
  · rw [same, empty]
  · have short := begins.length_le
    have long := List.length_pos_of_ne_nil inside
    rw [List.length_append] at short
    omega

end Vacant

end FileTree

open FileTree

variable {j : Job} {t : FileTree} {root out : Location}

/-- A new output directory stays apart from a template that is not in it or around it. -/
theorem FileTree.Vacant.staysApart (vacant : t.Vacant j.output out) (rooted : t.Rooted)
    (outside : ¬ out <+: root) (inside : ¬ root <+: out) : j.StaysApart t root := by
  have evolved : Develops t (t.ensureDirectories j.output).tree :=
    evolves_ensureDirectories t j.output
  constructor
  case nonempty => exact vacant.nonempty
  case adds =>
    intro below there
    rcases vacant.at?_ensureDirectories (root ++ below) with same | ⟨begins, _⟩
    · rwa [same] at there
    · exact absurd ((List.prefix_append root below).trans begins) inside
  case noLink =>
    intro place opens below target
    rw [vacant.eq_of_opensAt evolved opens, rooted.at?_append_eq_none vacant.nothing below]
    exact fun link => nomatch link
  case apart =>
    intro place opens
    rw [vacant.eq_of_opensAt evolved opens]
    exact ⟨outside, inside⟩

end Scaffold
