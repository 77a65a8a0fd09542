import Mathlib.Data.List.Induction
import Scaffold.Proofs.File.Route
import Scaffold.Proofs.Generation.Containment

/-! How a tree may change while a project is generated. Directories and files are added to
directories that are there, and files are overwritten; nothing is removed, and nothing becomes
an entry of another kind. So a path that leads somewhere goes on leading there. -/

namespace Scaffold.FileTree

def Rooted (t : FileTree) : Prop :=
  ∀ entry ∈ t.entries, t.isDirectoryAt entry.1.dropLast = true

instance (t : FileTree) : Decidable t.Rooted :=
  inferInstanceAs (Decidable (∀ entry ∈ t.entries, t.isDirectoryAt entry.1.dropLast = true))

variable {t : FileTree} {place other : Location} {entry : Entry}

theorem at?_of_isDirectoryAt (directory : t.isDirectoryAt place = true) :
    t.at? place = some .directory := by simpa [isDirectoryAt] using directory

theorem at?_ne_none_of_isDirectoryAt (directory : t.isDirectoryAt place = true) :
    t.at? place ≠ none := by
  rw [at?_of_isDirectoryAt directory]
  exact Option.some_ne_none _

theorem mem_entries_of_at? (found : t.at? place = some entry) (below : place ≠ []) :
    (place, entry) ∈ t.entries := by
  rw [at?, if_neg below, List.lookup_eq_some_iff] at found
  obtain ⟨front, back, split, _⟩ := found
  rw [split]
  exact List.mem_append_right front List.mem_cons_self

theorem Rooted.around (rooted : t.Rooted) (found : t.at? place = some entry) :
    t.isDirectoryAt place.dropLast = true := by
  by_cases below : place = []
  · subst below
    rfl
  · exact rooted _ (mem_entries_of_at? found below)

theorem Rooted.at?_append_eq_none (rooted : t.Rooted) (nothing : t.at? place = none)
    (below : Location) : t.at? (place ++ below) = none := by
  induction below using List.reverseRecOn with
  | nil => rwa [List.append_nil]
  | append_singleton below name ih =>
    rw [← List.append_assoc]
    cases found : t.at? (place ++ below ++ [name]) with
    | none => rfl
    | some entry =>
      have around := at?_of_isDirectoryAt (rooted.around found)
      rw [List.dropLast_concat, ih] at around
      exact nomatch around

theorem isDirectoryAt_put_of_ne (different : other ≠ place) :
    (t.put place entry).isDirectoryAt other = t.isDirectoryAt other := by
  rw [isDirectoryAt, isDirectoryAt, at?_put_of_ne t entry different]

theorem Rooted.put (rooted : t.Rooted) (around : t.isDirectoryAt place.dropLast = true)
    (noDirectory : t.isDirectoryAt place = false) : (t.put place entry).Rooted := by
  have kept : ∀ {other}, t.isDirectoryAt other = true →
      (t.put place entry).isDirectoryAt other = true := by
    intro other directory
    have different : other ≠ place := fun same => by
      rw [same, noDirectory] at directory
      exact nomatch directory
    rwa [isDirectoryAt_put_of_ne different]
  intro found member
  rcases List.mem_cons.1 member with rfl | member
  · exact kept around
  · exact kept (rooted found (List.mem_filter.1 member).1)

/-- Nothing is removed, and only the content of files changes. -/
structure Grows (before after : FileTree) : Prop where
  working : after.working = before.working
  directory {place : Location} : before.at? place = some .directory →
    after.at? place = some .directory
  link {place : Location} {target : Path} : before.at? place = some (.link target) →
    after.at? place = some (.link target)
  file {place : Location} {content : ByteArray} : before.at? place = some (.file content) →
    ∃ content, after.at? place = some (.file content)

theorem Grows.refl (t : FileTree) : Grows t t :=
  ⟨rfl, fun found => found, fun found => found, fun found => ⟨_, found⟩⟩

theorem Grows.trans {before between after : FileTree} (first : Grows before between)
    (second : Grows between after) : Grows before after where
  working := second.working.trans first.working
  directory found := second.directory (first.directory found)
  link found := second.link (first.link found)
  file found := by
    obtain ⟨content, there⟩ := first.file found
    exact second.file there

theorem Grows.isDirectoryAt {after : FileTree} (grows : Grows t after)
    (directory : t.isDirectoryAt place = true) : after.isDirectoryAt place = true := by
  simpa [FileTree.isDirectoryAt] using grows.directory (at?_of_isDirectoryAt directory)

theorem Grows.at?_of_noLink {after : FileTree} (grows : Grows t after)
    (found : t.at? place = some entry) (noLink : ∀ target, entry ≠ .link target) :
    ∃ later, after.at? place = some later ∧ ∀ target, later ≠ .link target := by
  cases entry with
  | directory => exact ⟨_, grows.directory found, fun _ same => nomatch same⟩
  | link target => exact absurd rfl (noLink target)
  | file content =>
    obtain ⟨content, there⟩ := grows.file found
    exact ⟨_, there, fun _ same => nomatch same⟩

theorem Grows.at?_ne_none {after : FileTree} (grows : Grows t after)
    (found : t.at? place ≠ none) : after.at? place ≠ none := by
  obtain ⟨entry, found⟩ := Option.ne_none_iff_exists'.1 found
  cases entry with
  | directory => simp [grows.directory found]
  | link target => simp [grows.link found]
  | file content =>
    obtain ⟨content, there⟩ := grows.file found
    simp [there]

theorem Grows.isDirectoryAt_eq {after : FileTree} (grows : Grows t after)
    (found : t.at? place ≠ none) : after.isDirectoryAt place = t.isDirectoryAt place := by
  obtain ⟨entry, found⟩ := Option.ne_none_iff_exists'.1 found
  cases entry with
  | directory => simp [FileTree.isDirectoryAt, found, grows.directory found]
  | link target => simp [FileTree.isDirectoryAt, found, grows.link found]
  | file content =>
    obtain ⟨content, there⟩ := grows.file found
    simp [FileTree.isDirectoryAt, found, there]

theorem noDirectory_of_nothing (nothing : t.at? place = none) :
    t.isDirectoryAt place = false := by simp [isDirectoryAt, nothing]

def IsNamed (place : Location) : Prop := ∃ around name, place = around ++ [name] ∧ IsEntryName name

structure Accepts (t : FileTree) (place : Location) : Prop where
  around : t.isDirectoryAt place.dropLast = true
  replaces : (t.at? place = none ∧ IsNamed place) ∨ ∃ content, t.at? place = some (.file content)

theorem Accepts.noDirectory (accepts : t.Accepts place) : t.isDirectoryAt place = false := by
  rcases accepts.replaces with ⟨nothing, _⟩ | ⟨content, found⟩
  · exact noDirectory_of_nothing nothing
  · simp [isDirectoryAt, found]

theorem at?_put (t : FileTree) (entry : Entry) (below : place ≠ []) :
    (t.put place entry).at? other = if other = place then some entry else t.at? other := by
  split_ifs with same
  · rw [same, at?_put_self t entry below]
  · exact at?_put_of_ne t entry same

theorem ne_nil_of_noDirectory (noDirectory : t.isDirectoryAt place = false) : place ≠ [] := by
  rintro rfl
  exact nomatch noDirectory

theorem grows_put_of_nothing (nothing : t.at? place = none) (entry : Entry) :
    Grows t (t.put place entry) := by
  have kept : ∀ {other found}, t.at? other = some found →
      (t.put place entry).at? other = some found := by
    intro other found there
    have different : other ≠ place := fun same => by
      rw [same, nothing] at there
      exact nomatch there
    rwa [at?_put_of_ne t entry different]
  exact ⟨rfl, kept, kept, fun found => ⟨_, kept found⟩⟩

theorem grows_put_file (accepts : t.Accepts place) (content : ByteArray) :
    Grows t (t.put place (.file content)) := by
  rcases accepts.replaces with ⟨nothing, _⟩ | ⟨old, found⟩
  · exact grows_put_of_nothing nothing _
  · have below : place ≠ [] := ne_nil_of_noDirectory accepts.noDirectory
    have kept : ∀ {other entry}, t.at? other = some entry → (∀ content, entry ≠ .file content) →
        (t.put place (.file content)).at? other = some entry := by
      intro other entry there noFile
      have different : other ≠ place := fun same => by
        rw [same, found] at there
        exact noFile old (Option.some.inj there).symm
      rwa [at?_put_of_ne t _ different]
    refine ⟨rfl, fun there => kept there nofun, fun there => kept there nofun, ?_⟩
    intro other old there
    rw [at?_put t _ below]
    split_ifs
    · exact ⟨content, rfl⟩
    · exact ⟨old, there⟩

/-- A walk that leads to an entry leads there in a tree that has grown. -/
theorem Route.grows {after : FileTree} {follow : Bool} {links : Nat} {slash : Bool}
    {todo : List Bytes} {out : Location} (grows : Grows t after)
    (route : Route t follow links place slash todo (.taken out)) :
    Route after follow links place slash todo (.taken out) := by
  generalize whole : Spot.taken out = spot at route ⊢
  induction route with
  | arrived directory => exact .arrived fun ends => grows.isDirectoryAt (directory ends)
  | here directory _ ih => exact .here (grows.isDirectoryAt directory) (ih whole)
  | up directory _ ih => exact .up (grows.isDirectoryAt directory) (ih whole)
  | free => exact nomatch whole
  | last directory plain link kept =>
    exact .last (grows.isDirectoryAt directory) plain (grows.link link) kept
  | link directory plain link followed _ ih =>
    exact .link (grows.isDirectoryAt directory) plain (grows.link link) followed (ih whole)
  | down directory plain found noLink _ ih =>
    obtain ⟨later, there, noLink⟩ := grows.at?_of_noLink found noLink
    exact .down (grows.isDirectoryAt directory) plain there noLink (ih whole)

/-- A free place that a directory is made at is what the path leads to from then on. -/
theorem Route.put_free {follow ends : Bool} {links : Nat} {slash : Bool} {todo : List Bytes}
    {directory : Location} {name : Bytes}
    (route : Route t follow links place ends todo (.free directory name slash)) (slash' : Bool) :
    Route (t.put (directory ++ [name]) .directory) true links place slash' todo
      (.taken (directory ++ [name])) := by
  have grows : Grows t (t.put (directory ++ [name]) .directory) :=
    grows_put_of_nothing route.of_free.2.2 _
  generalize whole : Spot.free directory name slash = spot at route
  induction route generalizing slash' with
  | arrived | last => exact nomatch whole
  | here around _ ih => exact .here (grows.isDirectoryAt around) (ih slash' whole)
  | up around _ ih => exact .up (grows.isDirectoryAt around) (ih slash' whole)
  | free around plain nothing =>
    cases whole
    have made := at?_put_self t .directory
      (List.append_ne_nil_of_right_ne_nil directory (List.cons_ne_nil name []))
    exact .down (grows.isDirectoryAt around) plain made (fun _ same => nomatch same)
      (.arrived fun _ => by simp [FileTree.isDirectoryAt, made])
  | link around plain link _ _ ih =>
    exact .link (grows.isDirectoryAt around) plain (grows.link link) (by simp) (ih _ whole)
  | down around plain found noLink _ ih =>
    obtain ⟨later, there, noLink⟩ := grows.at?_of_noLink found noLink
    exact .down (grows.isDirectoryAt around) plain there noLink (ih slash' whole)

/-- The second tree is the first after directories have been made where nothing was, and files
written at places that are allowed. -/
inductive Evolves (allowed : Location → Prop) (before : FileTree) : FileTree → Prop where
  | refl : Evolves allowed before before
  | directory {after : FileTree} {place : Location} (evolved : Evolves allowed before after)
      (around : after.isDirectoryAt place.dropLast = true) (nothing : after.at? place = none)
      (named : IsNamed place) :
      Evolves allowed before (after.put place .directory)
  | file {after : FileTree} {place : Location} (evolved : Evolves allowed before after)
      (isAllowed : allowed place) (accepts : after.Accepts place) (content : ByteArray) :
      Evolves allowed before (after.put place (.file content))

abbrev Develops : FileTree → FileTree → Prop := Evolves fun _ => True

variable {allowed : Location → Prop} {after : FileTree}

theorem Evolves.trans {between : FileTree} (first : Evolves allowed t between)
    (second : Evolves allowed between after) : Evolves allowed t after := by
  induction second with
  | refl => exact first
  | directory _ around nothing named ih => exact .directory ih around nothing named
  | file _ isAllowed accepts content ih => exact .file ih isAllowed accepts content

theorem Evolves.rooted (evolved : Evolves allowed t after) (rooted : t.Rooted) :
    after.Rooted := by
  induction evolved with
  | refl => exact rooted
  | directory _ around nothing _ ih => exact ih.put around (noDirectory_of_nothing nothing)
  | file _ _ accepts _ ih => exact ih.put accepts.around accepts.noDirectory

theorem Evolves.grows (evolved : Evolves allowed t after) : Grows t after := by
  induction evolved with
  | refl => exact .refl t
  | directory _ _ nothing _ ih => exact ih.trans (grows_put_of_nothing nothing _)
  | file _ _ accepts content ih => exact ih.trans (grows_put_file accepts content)

/-- Where no file may be written, what is there stays as it is. -/
theorem Evolves.keeps (evolved : Evolves allowed t after) (kept : ¬ allowed place)
    (found : t.at? place = some entry) : after.at? place = some entry := by
  induction evolved with
  | refl => exact found
  | @directory between made _ _ nothing _ ih =>
    have different : place ≠ made := fun same => by
      rw [← same, ih] at nothing
      exact nomatch nothing
    rw [at?_put_of_ne between _ different, ih]
  | @file between written _ isAllowed _ _ ih =>
    have different : place ≠ written := fun same => kept (same ▸ isAllowed)
    rw [at?_put_of_ne between _ different, ih]

theorem Evolves.link (evolved : Evolves allowed t after) {target : Path}
    (found : after.at? place = some (.link target)) : t.at? place = some (.link target) := by
  induction evolved with
  | refl => exact found
  | directory _ _ nothing _ ih =>
    rw [at?_put _ _ (ne_nil_of_noDirectory (noDirectory_of_nothing nothing))] at found
    split_ifs at found
    · exact nomatch found
    · exact ih found
  | file _ _ accepts _ ih =>
    rw [at?_put _ _ (ne_nil_of_noDirectory accepts.noDirectory)] at found
    split_ifs at found
    · exact nomatch found
    · exact ih found

theorem route_of_makeDirectory {p : Path} (makes : t.makeDirectory p = .ok after) :
    ∃ directory name ends, p ≠ [] ∧
      Route t false linkLimit (t.base p) false (names p) (.free directory name ends) ∧
      after = t.put (directory ++ [name]) .directory := by
  obtain ⟨start, starts, makes⟩ := bind_eq_ok_iff.1 makes
  obtain ⟨rfl, nonempty⟩ := eq_base_of_origin starts
  obtain ⟨spot, walks, makes⟩ := bind_eq_ok_iff.1 makes
  cases spot with
  | taken place => exact nomatch makes
  | free directory name ends =>
    cases makes
    exact ⟨directory, name, ends, nonempty, route_of_walk walks, rfl⟩

theorem evolves_of_made {within : Path → Prop} (made : Made within t after) :
    Evolves allowed t after := by
  induction made with
  | none => exact .refl
  | next _ _ makes ih =>
    obtain ⟨directory, name, _, _, route, rfl⟩ := route_of_makeDirectory makes
    obtain ⟨around, _, nothing⟩ := route.of_free
    exact .directory ih (by rwa [List.dropLast_concat]) nothing
      ⟨directory, name, rfl, route.isEntryName_of_free fun _ => of_mem_names⟩

theorem evolves_ensureDirectories (t : FileTree) (p : Path) :
    Evolves allowed t (t.ensureDirectories p).tree :=
  evolves_of_made (made_ensureDirectories t p)

theorem Route.of_taken {slash : Bool} {links : Nat} {todo : List Bytes} {out : Location}
    (route : Route t true links place slash todo (.taken out)) (rooted : t.Rooted)
    (start : ∃ entry, t.at? place = some entry ∧ ∀ target, entry ≠ .link target) :
    ∃ entry, t.at? out = some entry ∧ ∀ target, entry ≠ .link target := by
  have open' : ∀ {place}, t.isDirectoryAt place = true →
      ∃ entry, t.at? place = some entry ∧ ∀ target, entry ≠ .link target :=
    fun directory => ⟨_, at?_of_isDirectoryAt directory, fun _ same => nomatch same⟩
  generalize whole : Spot.taken out = spot at route
  induction route with
  | arrived =>
    cases whole
    exact start
  | here _ _ ih => exact ih start whole
  | up directory _ ih => exact ih (open' (rooted.around (at?_of_isDirectoryAt directory))) whole
  | free => exact nomatch whole
  | last _ _ _ kept => exact nomatch kept
  | link directory _ _ _ _ ih =>
    refine ih (open' ?_) whole
    unfold linkStart
    split_ifs
    · rfl
    · exact directory
  | down _ _ found noLink _ ih => exact ih ⟨_, found, noLink⟩ whole

theorem endsInSlash_of_names_eq_nil {p : Path} (nonempty : p ≠ []) (unnamed : names p = []) :
    endsInSlash p = true := by
  induction p with
  | nil => exact absurd rfl nonempty
  | cons b p ih =>
    obtain ⟨first, rest, split⟩ := Path.exists_pieces p
    by_cases same : b = Path.slash
    · rw [names, same, Path.pieces_cons_slash, List.filter_cons_of_neg (by simp)] at unnamed
      by_cases empty : p = []
      · simp [endsInSlash, empty, same]
      · simpa [endsInSlash, List.getLast?_cons_of_ne_nil empty] using ih empty unnamed
    · rw [names, Path.pieces_cons_of_ne same split] at unnamed
      simp at unnamed

theorem accepts_of_placeForFile {p : Path} (rooted : t.Rooted)
    (found : t.placeForFile p = .ok place) :
    t.Accepts place ∧ ∃ spot, spot.place = place ∧
      t.walk true linkLimit (t.base p) false (names p) = .ok spot := by
  obtain ⟨start, starts, found⟩ := bind_eq_ok_iff.1 found
  obtain ⟨rfl, nonempty⟩ := eq_base_of_origin starts
  split_ifs at found with ends
  · obtain ⟨spot, _, found⟩ := bind_eq_ok_iff.1 found
    cases spot <;> exact nomatch found
  · obtain ⟨spot, walks, found⟩ := bind_eq_ok_iff.1 found
    have route := route_of_walk walks
    cases spot with
    | taken there =>
      dsimp only at found
      split_ifs at found with directory
      cases found
      refine ⟨?_, _, rfl, walks⟩
      have more : names p ≠ [] := fun empty => ends (endsInSlash_of_names_eq_nil nonempty empty)
      have start := at?_of_isDirectoryAt (route.directory_of_ne_nil more)
      obtain ⟨entry, there, noLink⟩ :=
        route.of_taken rooted ⟨_, start, fun _ same => nomatch same⟩
      refine ⟨rooted.around there, ?_⟩
      cases entry with
      | directory => simp [FileTree.isDirectoryAt, there] at directory
      | link target => exact absurd rfl (noLink target)
      | file content => exact .inr ⟨content, there⟩
    | free directory name slash =>
      dsimp only at found
      split_ifs at found with slashed
      cases found
      obtain ⟨around, _, nothing⟩ := route.of_free
      exact ⟨⟨by rwa [List.dropLast_concat], .inl ⟨nothing, directory, name, rfl,
        route.isEntryName_of_free fun _ => of_mem_names⟩⟩, _, rfl, walks⟩

end Scaffold.FileTree

namespace Scaffold.Operation

open FileTree

/-- An operation makes directories, and writes a file where its target then leads. -/
theorem evolves {allowed : Location → Prop} {t : FileTree} (rooted : t.Rooted) (source : Path)
    (op : Operation) (lands : ∀ {made place}, Evolves allowed t made →
      made.placeForFile op.target = .ok place → allowed place) :
    Evolves allowed t (op.apply t source).tree := by
  obtain ⟨made, makes, puts⟩ := apply_contained t source op
  have evolved : Evolves allowed t made := evolves_of_made makes
  rcases puts with same | ⟨place, content, found, put⟩
  · rwa [same]
  · rw [put]
    have accepts := (accepts_of_placeForFile (evolved.rooted rooted) found).1
    exact .file evolved (lands evolved found) accepts content

theorem develops {t : FileTree} (rooted : t.Rooted) (source : Path) (op : Operation) :
    Develops t (op.apply t source).tree :=
  evolves rooted source op fun _ _ => True.intro

end Scaffold.Operation
