import Scaffold.Proofs.Generation.Walking

/-! Where the entries stand that the generation of a project adds. They stand in the directory
that the output path opens, so nothing is added to a template that lies apart from it. -/

namespace Scaffold

namespace Path

variable {p q r : Path}

theorem Begins.trans (first : p.Begins q) (second : q.Begins r) : p.Begins r :=
  ⟨first.isAbsolute.trans second.isAbsolute, first.names.trans second.names⟩

def Approaches (q p : Path) : Prop := q ≠ [] → q.Begins p

theorem Approaches.refl (p : Path) : p.Approaches p := fun _ => ⟨rfl, List.prefix_rfl⟩

theorem outwards_approaches (p : Path) : FileTree.Outwards fun q => q.Approaches p := by
  intro q approaches r around nonempty
  have inner : q ≠ [] := by
    rintro rfl
    exact nomatch around
  exact (begins_of_mem_outer around nonempty).trans (approaches inner)

end Path

namespace FileTree

variable {t after : FileTree} {place out : Location}

theorem Route.walk_ne_free {links : Nat} {slash : Bool} {front back : List Bytes}
    {directory : Location} {name : Bytes} {ends : Bool} (slash' : Bool)
    (route : Route t true links place slash (front ++ back) (.taken out)) :
    t.walk false links place slash' front ≠ .ok (.free directory name ends) := by
  have arrives : ∀ {links place} {slash : Bool},
      t.walk false links place slash [] ≠ .ok (.free directory name ends) := by
    intro links place slash free
    cases route_of_walk free
  generalize path : front ++ back = names at route
  generalize whole : Spot.taken out = spot at route
  -- Only the last link differs, which the shorter walk does not follow.
  induction route generalizing front slash' with
  | arrived =>
    rw [(List.append_eq_nil_iff.1 path).1]
    exact arrives
  | here around _ ih =>
    cases front with
    | nil => exact arrives
    | cons name front =>
      cases path
      rw [walk_here around]
      exact ih slash' rfl whole
  | up around _ ih =>
    cases front with
    | nil => exact arrives
    | cons name front =>
      cases path
      rw [walk_up around]
      exact ih slash' rfl whole
  | free => exact nomatch whole
  | last _ _ _ kept => exact nomatch kept
  | link around plain link _ _ ih =>
    cases front with
    | nil => exact arrives
    | cons name front =>
      cases path
      rw [walk_plain around plain, link]
      dsimp only
      split_ifs
      · exact fun free => nomatch free
      · exact ih _ (List.append_assoc ..) whole
  | down around plain found noLink _ ih =>
    cases front with
    | nil => exact arrives
    | cons name front =>
      cases path
      rw [walk_down around plain found noLink]
      exact ih slash' rfl whole

def Adds (allowed : Location → Prop) (before after : FileTree) : Prop :=
  ∀ place, after.at? place ≠ none → before.at? place ≠ none ∨ allowed place

variable {allowed : Location → Prop}

theorem Adds.refl (t : FileTree) : Adds allowed t t := fun _ => .inl

theorem Adds.trans {between : FileTree} (first : Adds allowed t between)
    (second : Adds allowed between after) : Adds allowed t after := by
  intro place there
  rcases second place there with there | isAllowed
  · exact first place there
  · exact .inr isAllowed

theorem adds_put (entry : Entry) (isAllowed : t.at? place = none → allowed place)
    (below : place ≠ []) : Adds allowed t (t.put place entry) := by
  intro other there
  rw [at?_put t entry below] at there
  split_ifs at there with same
  · subst same
    cases found : t.at? other with
    | none => exact .inr (isAllowed found)
    | some entry => exact .inl (Option.some_ne_none _)
  · exact .inl there

/-- No directory is missing on the way to a directory that a path opens, so those that are made
for a path further on stand in it. -/
theorem Leads.inside_of_makeDirectory {p target q : Path} (leads : t.Leads p out target)
    (approaches : q.Approaches target) (makes : t.makeDirectory q = .ok after) :
    ∃ place, Inside out place ∧ t.at? place = none ∧ after = t.put place .directory ∧
      after.OpensAt q place := by
  obtain ⟨directory, name, ends, nonempty, route, rfl⟩ := route_of_makeDirectory makes
  obtain ⟨_, _, nothing⟩ := route.of_free
  have opens := opensAt_of_free (origin_of_makeDirectory makes) route
  refine ⟨directory ++ [name], ?_, nothing, rfl, opens⟩
  obtain ⟨absolute, begins⟩ := approaches nonempty
  obtain ⟨more, _, split, downwards⟩ := leads.further
  have start : t.base q = t.base p := by rw [base, base, absolute, leads.isAbsolute]
  rw [start] at route
  have beyond : ¬ names q <+: names p := by
    rintro ⟨back, whole⟩
    have reaches := leads.opens.route false
    rw [← whole] at reaches
    exact reaches.walk_ne_free false route.walk
  rw [split] at begins
  rcases List.prefix_or_prefix_of_prefix begins (List.prefix_append _ more) with short | further
  · exact absurd short beyond
  · obtain ⟨inner, whole⟩ := further
    rw [← whole] at begins route beyond
    have inside := leads.opens.within leads.noLink (fun empty => beyond (by simp [empty]))
      (fun name among => downwards name
        (((List.prefix_append_right_inj _).1 begins).mem among)) route.walk
    refine ⟨inside, fun here => ?_⟩
    change directory ++ [name] = out at here
    rw [here, at?_of_isDirectoryAt leads.opens.directory] at nothing
    cases nothing

theorem Leads.adds_of_made {p target : Path} (leads : t.Leads p out target)
    (made : Made (fun q => q.Approaches target) t after) : Adds (Inside out) t after := by
  induction made with
  | none => exact .refl t
  | next made approaches makes ih =>
    have evolved : Develops t _ := evolves_of_made made
    obtain ⟨place, inside, nothing, rfl, _⟩ :=
      (leads.evolves evolved).inside_of_makeDirectory approaches makes
    exact ih.trans (adds_put _ (fun _ => inside)
      (ne_nil_of_noDirectory (noDirectory_of_nothing nothing)))

end FileTree

open FileTree

/-- An operation adds entries in the directory that its target goes on from. -/
theorem Operation.adds {t : FileTree} {p : Path} {out : Location} (rooted : t.Rooted)
    (source : Path) {op : Operation} (leads : t.Leads p out op.target) :
    Adds (Inside out) t (op.apply t source).tree := by
  obtain ⟨made, makes, puts⟩ :=
    apply_made (Path.outwards_approaches op.target) t source (.refl op.target)
  have added := leads.adds_of_made makes
  rcases puts with same | ⟨place, content, lands, put⟩
  · rwa [same]
  · have evolved : Develops t made := evolves_of_made makes
    have accepts := (accepts_of_placeForFile (evolved.rooted rooted) lands).1
    have inside := (leads.evolves evolved).inside_of_placeForFile (evolved.rooted rooted) lands
    rw [put]
    exact added.trans (adds_put _ (fun _ => inside) (ne_nil_of_noDirectory accepts.noDirectory))

namespace Job

variable {j : Job} {t : FileTree} {out : Location}

/-- Where the output path opens a directory without links, all that the walk adds is in it. -/
theorem generate_adds (rooted : t.Rooted) (nonempty : j.output ≠ [])
    (opens : (t.ensureDirectories j.output).tree.OpensAt j.output out)
    (noLink : ∀ below target, t.at? (out ++ below) ≠ some (.link target)) :
    Adds (Inside out) (t.ensureDirectories j.output).tree (j.generate t).value.tree := by
  have made : Develops t (t.ensureDirectories j.output).tree :=
    evolves_ensureDirectories t j.output
  cases done : (t.ensureDirectories j.output).result with
  | error fault =>
    rw [generate_of_failed done]
    exact .refl _
  | ok _ =>
    rw [generate_of_made done]
    refine template_preserves (made.rooted rooted) nonempty opens
      (fun below target found => noLink below target (made.link found)) ?_ (.refl _)
    intro between source op develops leads before
    exact before.trans (op.adds (develops.rooted (made.rooted rooted)) source leads)

variable {root : Location}

/-- Making the output directory adds nothing to what is at the root. Then the output path opens a
directory without links, and neither it nor the root is in the other. -/
structure StaysApart (j : Job) (t : FileTree) (root : Location) : Prop where
  nonempty : j.output ≠ []
  adds : ∀ below, (t.ensureDirectories j.output).tree.at? (root ++ below) ≠ none →
    t.at? (root ++ below) ≠ none
  noLink : ∀ out, (t.ensureDirectories j.output).tree.OpensAt j.output out →
    ∀ below target, t.at? (out ++ below) ≠ some (.link target)
  apart : ∀ out, (t.ensureDirectories j.output).tree.OpensAt j.output out →
    ¬ out <+: root ∧ ¬ root <+: out

/-- Generating a project adds nothing to a template that its output stays apart from. -/
theorem StaysApart.generate (stays : j.StaysApart t root) (rooted : t.Rooted) (below : Location)
    (there : (j.generate t).value.tree.at? (root ++ below) ≠ none) :
    t.at? (root ++ below) ≠ none := by
  refine stays.adds below ?_
  cases done : (t.ensureDirectories j.output).result with
  | error fault => rwa [generate_of_failed done] at there
  | ok _ =>
    obtain ⟨out, opens⟩ := exists_opensAt_of_ensureDirectories rooted stays.nonempty done
    obtain ⟨outside, inside⟩ := stays.apart out opens
    rcases generate_adds rooted stays.nonempty opens (stays.noLink out opens) _ there with
      made | added
    · exact made
    · rcases List.prefix_or_prefix_of_prefix added.1 (List.prefix_append root below) with
        around | within
      · exact absurd around outside
      · exact absurd within inside

end Job

end Scaffold
