import Scaffold.Proofs.Generation.History
import Scaffold.Proofs.Generation.Ordering
import Scaffold.Proofs.Generation.Vacant

/-! An account of the output directory. Where it is new, and neither in the template nor around it,
every file in it was put there by an entry of the list, the last one of those with that target, and
every directory was made for the target of some entry. An entry that fails leaves everything else
as it is. -/

namespace Scaffold

open FileTree

namespace Job

variable {j : Job} {t made tree after : FileTree} {root out place : Location} {source : Path}
  {seen : List Path} {done : List (Path × Operation)} {op : Operation} {content : ByteArray}

/-- The output directory is new, it stays apart from the template, and there are no links in the
template or on the way to the output. -/
structure StartsAfresh (j : Job) (t : FileTree) (root out : Location) : Prop where
  sound : t.Sound
  opens : t.OpensAt j.template root
  noLink : ∀ below target, t.at? (root ++ below) ≠ some (.link target)
  vacant : t.Vacant j.output out
  outside : ¬ out <+: root
  inside : ¬ root <+: out

def LastPut (j : Job) (t tree : FileTree) (done : List (Path × Operation)) (place : Location)
    (content : ByteArray) : Prop :=
  ∃ front source op back, done = front ++ (source, op) :: back ∧
    j.Yields t source op content ∧ tree.locate op.target = .ok place ∧
    ∀ later ∈ back, later.2.putsFile = true → tree.locate later.2.target ≠ .ok place

def Lands (tree : FileTree) (step : Path × Operation) : Prop :=
  ∃ place, tree.locate step.2.target = .ok place ∧
    if step.2.putsFile then ∃ content, tree.at? place = some (.file content)
    else tree.at? place = some .directory

theorem Lands.grows {step : Path × Operation} (lands : Lands tree step) (grows : Grows tree after) :
    Lands after step := by
  obtain ⟨place, located, found⟩ := lands
  refine ⟨place, locate_of_grows grows located, ?_⟩
  split_ifs at found ⊢ with file
  · obtain ⟨content, found⟩ := found
    exact grows.file found
  · exact grows.directory found

theorem LastPut.grows (last : j.LastPut t tree done place content)
    (lands : ∀ step ∈ done, Lands tree step) (grows : Grows tree after) :
    j.LastPut t after done place content := by
  obtain ⟨front, source, op, back, rfl, yields, located, others⟩ := last
  refine ⟨front, source, op, back, rfl, yields, locate_of_grows grows located, ?_⟩
  intro later among file here
  obtain ⟨place', located', _⟩ := lands later
    (List.mem_append_right _ (List.mem_cons_of_mem _ among))
  cases (locate_of_grows grows located').symm.trans here
  exact others later among file located'

theorem LastPut.concat (last : j.LastPut t tree done place content) {step : Path × Operation}
    (other : step.2.putsFile = true → tree.locate step.2.target ≠ .ok place) :
    j.LastPut t tree (done ++ [step]) place content := by
  obtain ⟨front, source, op, back, rfl, yields, located, others⟩ := last
  refine ⟨front, source, op, back ++ [step], by simp, yields, located, ?_⟩
  intro later among file
  rcases List.mem_append.1 among with among | among
  · exact others later among file
  · cases List.mem_singleton.1 among
    exact other file

structure Accounts (j : Job) (t : FileTree) (out : Location) (made : FileTree) (seen : List Path)
    (done : List (Path × Operation)) (tree : FileTree) : Prop where
  develops : Develops made tree
  outside : ∀ place, ¬ Inside out place → tree.at? place = made.at? place
  lands : ∀ step ∈ done, Lands tree step
  file : ∀ place content, Inside out place → tree.at? place = some (.file content) →
    j.LastPut t tree done place content
  directory : ∀ place, Inside out place → tree.at? place = some .directory →
    ∃ source ∈ seen, ∃ op, (j.process t source).value = .ok (some op) ∧
      ∃ q ∈ op.directories, tree.OpensAt q place

namespace Accounts

theorem start (bare : ∀ place, Inside out place → made.at? place = none) :
    j.Accounts t out made [] [] made where
  develops := .refl
  outside _ _ := rfl
  lands _ among := absurd among List.not_mem_nil
  file place _ inside found := nomatch (bare place inside).symm.trans found
  directory place inside found := nomatch (bare place inside).symm.trans found

variable (accounts : j.Accounts t out made seen done tree)

include accounts

theorem see (source : Path) : j.Accounts t out made (seen ++ [source]) done tree where
  develops := accounts.develops
  outside := accounts.outside
  lands := accounts.lands
  file := accounts.file
  directory place inside found := by
    obtain ⟨source, among, facts⟩ := accounts.directory place inside found
    exact ⟨source, List.mem_append_left _ among, facts⟩

theorem put_directory (among : source ∈ seen)
    (decided : (j.process t source).value = .ok (some op)) {q : Path} (allowed : q ∈ op.directories)
    (leads : tree.Leads j.output out op.target) (makes : tree.makeDirectory q = .ok after) :
    j.Accounts t out made seen done after := by
  obtain ⟨new, within, nothing, rfl, opens⟩ :=
    leads.inside_of_makeDirectory (Operation.approaches_of_mem_directories allowed) makes
  have below : new ≠ [] := ne_nil_of_noDirectory (noDirectory_of_nothing nothing)
  have step : Made (fun _ => True) tree (tree.put new .directory) :=
    .next (.none tree) True.intro makes
  have evolved : Develops tree (tree.put new .directory) := evolves_of_made step
  have grows := evolved.grows
  constructor
  case develops => exact accounts.develops.trans evolved
  case outside =>
    intro place outer
    have different : place ≠ new := fun same => outer (same ▸ within)
    rw [at?_put_of_ne tree _ different, accounts.outside place outer]
  case lands => exact fun step member => (accounts.lands step member).grows grows
  case file =>
    intro place content inside found
    rw [at?_put _ _ below] at found
    split_ifs at found
    · exact nomatch found
    · exact (accounts.file place content inside found).grows accounts.lands grows
  case directory =>
    intro place inside found
    rw [at?_put _ _ below] at found
    split_ifs at found with same
    · exact ⟨source, among, op, decided, q, allowed, same ▸ opens⟩
    · obtain ⟨source, among, op, decided, q, allowed, opens⟩ :=
        accounts.directory place inside found
      exact ⟨source, among, op, decided, q, allowed, opens.grows grows⟩

theorem made_directories (among : source ∈ seen)
    (decided : (j.process t source).value = .ok (some op))
    (leads : tree.Leads j.output out op.target) (makes : Made (· ∈ op.directories) tree after) :
    j.Accounts t out made seen done after := by
  induction makes with
  | none => exact accounts
  | next before allowed makes ih =>
    have evolved : Develops tree _ := evolves_of_made before
    exact ih.put_directory among decided allowed (leads.evolves evolved) makes

theorem add_create {target : Path} (opens : tree.OpensAt target place) :
    j.Accounts t out made seen (done ++ [(source, .create target)]) tree where
  develops := accounts.develops
  outside := accounts.outside
  lands step member := by
    rcases List.mem_append.1 member with member | member
    · exact accounts.lands step member
    · cases List.mem_singleton.1 member
      exact ⟨place, opens.locates, at?_of_isDirectoryAt opens.directory⟩
  file place content inside found :=
    (accounts.file place content inside found).concat fun file => nomatch file
  directory := accounts.directory

theorem add_file (rooted : tree.Rooted) (leads : tree.Leads j.output out op.target)
    (yields : j.Yields t source op content) (lands : tree.placeForFile op.target = .ok place) :
    j.Accounts t out made seen (done ++ [(source, op)]) (tree.put place (.file content)) := by
  have accepts := (accepts_of_placeForFile rooted lands).1
  have within := leads.inside_of_placeForFile rooted lands
  have located := locate_put_of_placeForFile rooted lands content
  have below : place ≠ [] := ne_nil_of_noDirectory accepts.noDirectory
  have evolved : Develops tree (tree.put place (.file content)) :=
    .file .refl True.intro accepts content
  have grows := evolved.grows
  constructor
  case develops => exact accounts.develops.trans evolved
  case outside =>
    intro other outer
    have different : other ≠ place := fun same => outer (same ▸ within)
    rw [at?_put_of_ne tree _ different, accounts.outside other outer]
  case lands =>
    intro step member
    rcases List.mem_append.1 member with member | member
    · exact (accounts.lands step member).grows grows
    · cases List.mem_singleton.1 member
      refine ⟨place, located, ?_⟩
      rw [if_pos yields.putsFile]
      exact ⟨content, at?_put_self tree _ below⟩
  case file =>
    intro other content' inside found
    rw [at?_put _ _ below] at found
    split_ifs at found with same
    · cases found
      refine ⟨done, source, op, [], rfl, yields, same ▸ located, ?_⟩
      exact fun later member => absurd member List.not_mem_nil
    · refine ((accounts.file other content' inside found).grows accounts.lands grows).concat ?_
      intro _ here
      exact same (Except.ok.inj (here.symm.trans located))
  case directory =>
    intro other inside found
    rw [at?_put _ _ below] at found
    split_ifs at found
    · exact nomatch found
    · obtain ⟨source, among, op, decided, q, allowed, opens⟩ :=
        accounts.directory other inside found
      exact ⟨source, among, op, decided, q, allowed, opens.grows grows⟩

end Accounts

namespace StartsAfresh

variable (fresh : j.StartsAfresh t root out)

include fresh

theorem bare (inside : Inside out place) :
    (t.ensureDirectories j.output).tree.at? place = none := by
  obtain ⟨⟨below, rfl⟩, other⟩ := inside
  exact fresh.vacant.at?_append_eq_none fresh.sound.rooted fun empty => other (by simp [empty])

theorem at?_template (outside : ∀ place, ¬ Inside out place →
      tree.at? place = (t.ensureDirectories j.output).tree.at? place) :
    SameBelow t tree root := by
  intro below
  have apart : ¬ Inside out (root ++ below) := by
    rintro ⟨begins, _⟩
    rcases List.prefix_or_prefix_of_prefix begins (List.prefix_append root below) with
      around | within
    · exact fresh.outside around
    · exact fresh.inside within
  rw [outside _ apart]
  rcases fresh.vacant.at?_ensureDirectories (root ++ below) with same | ⟨begins, _⟩
  · exact same
  · exact absurd ((List.prefix_append root below).trans begins) fresh.inside

end StartsAfresh

section Turn

variable (fresh : j.StartsAfresh t root out)
  (accounts : j.Accounts t out (t.ensureDirectories j.output).tree seen done tree)

include fresh accounts

theorem Accounts.mirrors : Mirrors t tree j.template root where
  opens := fresh.opens
  noLink := fresh.noLink
  grows := ((evolves_ensureDirectories t j.output).trans accounts.develops).grows
  same := fresh.at?_template accounts.outside

theorem Accounts.sound : tree.Sound :=
  ((evolves_ensureDirectories t j.output).trans accounts.develops).sound fresh.sound

theorem Accounts.leads (opens : (t.ensureDirectories j.output).tree.OpensAt j.output out)
    (decided : (j.process tree source).value = .ok (some op)) :
    tree.Leads j.output out op.target := by
  refine leads_of_process decided fresh.vacant.nonempty (opens.grows accounts.develops.grows) ?_
  intro below target link
  have old := ((evolves_ensureDirectories t j.output).trans accounts.develops).link link
  rw [fresh.sound.rooted.at?_append_eq_none fresh.vacant.nothing] at old
  exact nomatch old

/-- A file that is copied comes from the template, so it is not the one that is put. -/
theorem Accounts.yields_of_regular {origin : Location} {inner : List Bytes} {target : Path}
    (named : ∀ name ∈ inner, IsEntryName name) (within : Inside out place)
    (decided : (j.process t (j.template.descend inner)).value = .ok (some (.copy target)))
    (reads : tree.regular (j.template.descend inner) = .ok (origin, content)) :
    j.Yields t (j.template.descend inner) (.copy target)
      (if place = origin then .empty else content) := by
  have mirrors := accounts.mirrors fresh
  obtain ⟨located, found⟩ := regular_eq_ok_iff.1 reads
  obtain ⟨content', reads', yields⟩ := yields_of_copy decided
  have again := read_eq_ok_iff.2 ⟨origin, located, found⟩
  rw [mirrors.read_eq named, reads'] at again
  cases again
  rw [mirrors.locate_eq named] at located
  have apart : place ≠ origin := by
    rintro rfl
    rcases List.prefix_or_prefix_of_prefix within.1 (mirrors.within named located) with
      around | inside
    · exact fresh.outside around
    · exact fresh.inside inside
  rwa [if_neg apart]

/-- What an operation makes on the way to its target is accounted for, however it ends. -/
theorem Accounts.exists_settled {inner : List Bytes}
    (opens : (t.ensureDirectories j.output).tree.OpensAt j.output out)
    (named : ∀ name ∈ inner, IsEntryName name) (among : j.template.descend inner ∈ seen)
    (decided : (j.process tree (j.template.descend inner)).value = .ok (some op)) :
    ∃ between, j.Accounts t out (t.ensureDirectories j.output).tree seen done between ∧
      between.Leads j.output out op.target ∧
      Operation.Ends (j.template.descend inner) between op
        (op.apply tree (j.template.descend inner)) := by
  have leads := accounts.leads fresh opens decided
  have rooted := (accounts.sound fresh).rooted
  obtain ⟨between, makes, ends⟩ :=
    op.exists_ends rooted (j.template.descend inner) (target_ne_nil decided)
  rw [process_eq (accounts.mirrors fresh) named] at decided
  have evolved : Develops tree between := evolves_of_made makes
  exact ⟨between, accounts.made_directories among decided leads makes, leads.evolves evolved, ends⟩

end Turn

section Run

variable (fresh : j.StartsAfresh t root out)

include fresh

/-- One entry and what it does are accounted for. -/
theorem Accounts.enter {w : Walk} {inner : List Bytes}
    (opens : (t.ensureDirectories j.output).tree.OpensAt j.output out)
    (accounts : j.Accounts t out (t.ensureDirectories j.output).tree seen done w.tree)
    (named : ∀ name ∈ inner, IsEntryName name) :
    j.Accounts t out (t.ensureDirectories j.output).tree (seen ++ [j.template.descend inner])
      (done ++ (Walk.success? j (j.template.descend inner, w.tree)).toList)
      (w.enter j (j.template.descend inner)).tree := by
  have step := Walk.entered j w (j.template.descend inner)
  have same := process_eq (j := j) (accounts.mirrors fresh) named
  have seen' := accounts.see (j.template.descend inner)
  have among : j.template.descend inner ∈ seen ++ [j.template.descend inner] :=
    List.mem_append_right _ List.mem_cons_self
  generalize Walk.enter j w (j.template.descend inner) = after at step ⊢
  generalize Walk.success? j (j.template.descend inner, w.tree) = result at step ⊢
  cases step with
  | unchanged =>
    rw [Option.toList_none, List.append_nil]
    exact seen'
  | @failed op fault tree decided applies =>
    obtain ⟨between, settled, _, ends⟩ := seen'.exists_settled fresh opens named among decided
    rw [applies] at ends
    cases ends
    rw [Option.toList_none, List.append_nil]
    exact settled
  | @done op tree decided applies =>
    obtain ⟨between, settled, leads, ends⟩ := seen'.exists_settled fresh opens named among decided
    have rooted := (settled.sound fresh).rooted
    rw [same] at decided
    rw [applies] at ends
    rw [Option.toList_some]
    cases ends with
    | created opens => exact settled.add_create opens
    | written lands => exact settled.add_file rooted leads (yields_of_write decided) lands
    | copied reads lands =>
      have within := leads.inside_of_placeForFile rooted lands
      exact settled.add_file rooted leads
        (settled.yields_of_regular fresh named within decided reads) lands

/-- All entries and what they do are accounted for, and the decision about each is the one that the
template alone leads to. -/
theorem Accounts.foldl_enter {w : Walk} {sources : List Path}
    (opens : (t.ensureDirectories j.output).tree.OpensAt j.output out)
    (accounts : j.Accounts t out (t.ensureDirectories j.output).tree seen done w.tree)
    (below : ∀ source ∈ sources, ∃ inner, source = j.template.descend inner ∧
      ∀ name ∈ inner, IsEntryName name) :
    j.Accounts t out (t.ensureDirectories j.output).tree (seen ++ sources)
        (done ++ (Walk.history j w sources).filterMap (Walk.success? j))
        (sources.foldl (Walk.enter j) w).tree ∧
      ∀ turn ∈ Walk.history j w sources,
        j.process turn.2 turn.1 = j.process t turn.1 ∧ turn.2.Rooted := by
  induction sources generalizing w seen done with
  | nil =>
    rw [List.append_nil, Walk.history, List.filterMap_nil, List.append_nil]
    exact ⟨accounts, fun turn among => absurd among List.not_mem_nil⟩
  | cons source rest ih =>
    obtain ⟨⟨inner, rfl, named⟩, others⟩ := List.forall_mem_cons.1 below
    obtain ⟨settled, decided⟩ := ih (accounts.enter fresh opens named) others
    rw [Walk.history, List.foldl_cons, List.filterMap_cons]
    constructor
    · rw [List.append_assoc, List.append_assoc] at settled
      cases success : Walk.success? j (j.template.descend inner, w.tree) with
      | none => simpa [success] using settled
      | some step => simpa [success] using settled
    · refine List.forall_mem_cons.2 ⟨?_, decided⟩
      exact ⟨process_eq (accounts.mirrors fresh) named, (accounts.sound fresh).rooted⟩

end Run

def history (j : Job) (t : FileTree) : List (Path × FileTree) :=
  Walk.history j ⟨(t.ensureDirectories j.output).tree, [], none⟩ (j.visited t)

def succeeded (j : Job) (t : FileTree) : List (Path × Operation) :=
  (j.history t).filterMap (Walk.success? j)

/-- What the generation of a project leaves, and from which entries of the template. -/
structure Accounted (j : Job) (t : FileTree) (root out : Location) : Prop where
  order : ∃ inners : List (List Bytes), j.visited t = inners.map j.template.descend ∧
    inners.Pairwise (· < ·) ∧ ∀ inner, inner ∈ inners ↔ t.at? (root ++ inner) ≠ none
  turns : (j.history t).map Prod.fst = j.visited t
  decided : ∀ turn ∈ j.history t, j.process turn.2 turn.1 = j.process t turn.1
  listed : (j.generate t).value.generated = (j.succeeded t).map Walk.listing
  once : ((j.succeeded t).map Prod.fst).Sublist (j.visited t)
  present : ∀ entry ∈ (j.generate t).value.generated,
    (entry.action = "Creating" ∧ (j.generate t).value.tree.isDirectory entry.target = true) ∨
      ((entry.action = "Writing" ∨ entry.action = "Copying") ∧
        (j.generate t).value.tree.isFile entry.target = true)
  /-- A file has the content of the last entry of the list that has it as its target. -/
  file : ∀ place content, Inside out place →
    (j.generate t).value.tree.at? place = some (.file content) →
    j.LastPut t (j.generate t).value.tree (j.succeeded t) place content
  /-- A directory is the target of an entry for a directory, or around the target of some entry. -/
  directory : ∀ place, Inside out place →
    (j.generate t).value.tree.at? place = some .directory →
    ∃ source ∈ j.visited t, ∃ op, (j.process t source).value = .ok (some op) ∧
      ∃ q, (q ∈ op.target.outer ∨ op = .create q) ∧
        (j.generate t).value.tree.OpensAt q place
  outside : ∀ place, ¬ out <+: place →
    (j.generate t).value.tree.at? place = t.at? place ∨
      place <+: out ∧ t.at? place = none ∧ (j.generate t).value.tree.at? place = some .directory
  /-- An entry that does not succeed is not listed and stops nothing, and what is there when it is
  processed stays as it is. -/
  failing : ∀ (w : Walk) source, (source, w.tree) ∈ j.history t →
    Walk.success? j (source, w.tree) = none →
    (w.enter j source).generated = w.generated ∧ (w.enter j source).failure = w.failure ∧
      ∀ place entry, w.tree.at? place = some entry →
        (w.enter j source).tree.at? place = some entry

theorem Lands.present {step : Path × Operation} (lands : Lands tree step) :
    ((Walk.listing step).action = "Creating" ∧ tree.isDirectory step.2.target = true) ∨
      (((Walk.listing step).action = "Writing" ∨ (Walk.listing step).action = "Copying") ∧
        tree.isFile step.2.target = true) := by
  obtain ⟨source, op⟩ := step
  obtain ⟨place, located, found⟩ := lands
  have there : tree.entry? op.target = tree.at? place := by
    unfold entry?
    rw [located]
  cases op with
  | create target =>
    refine .inl ⟨rfl, ?_⟩
    rw [isDirectory, there, decide_eq_true_iff]
    exact found
  | copy target =>
    obtain ⟨content, found⟩ := found
    refine .inr ⟨.inr rfl, ?_⟩
    rw [isFile, there, found]
  | write target text =>
    obtain ⟨content, found⟩ := found
    refine .inr ⟨.inl rfl, ?_⟩
    rw [isFile, there, found]

/-- Where the output directory is new and apart from the template, and there are no links, all of
it comes from the entries of the template, and nothing else is changed. -/
theorem generate_accounted (fresh : j.StartsAfresh t root out)
    (finished : (j.generate t).value.failure = none) : j.Accounted t root out := by
  have sound := fresh.sound
  cases made : (t.ensureDirectories j.output).result with
  | error fault =>
    rw [generate_of_failed made] at finished
    exact nomatch finished
  | ok _ =>
    have opens := fresh.vacant.opensAt_ensureDirectories sound.rooted made
    have stays := fresh.vacant.staysApart sound.rooted fresh.outside fresh.inside
    have apart := stays.generate sound.rooted
    obtain ⟨inners, listed, sorted, inside⟩ :=
      exists_inners sound fresh.opens apart finished
    have below : ∀ source ∈ j.visited t, ∃ inner, source = j.template.descend inner ∧
        ∀ name ∈ inner, IsEntryName name := by
      intro source member
      rw [listed] at member
      obtain ⟨inner, among, rfl⟩ := List.mem_map.1 member
      exact ⟨inner, rfl, fun name named =>
        sound.spelled_of_at? ((inside inner).1 among) name (List.mem_append_right _ named)⟩
    have bare : ∀ place, Inside out place →
        (t.ensureDirectories j.output).tree.at? place = none := fun place => fresh.bare
    obtain ⟨accounts, decided⟩ := (Accounts.start (j := j) (t := t) bare).foldl_enter fresh
      (w := ⟨(t.ensureDirectories j.output).tree, [], none⟩) opens below
    obtain ⟨tree, generated⟩ := generate_agrees fresh.opens
    rw [← tree] at accounts
    rw [Walk.generated_foldl_enter] at generated
    have list : (j.generate t).value.generated = (j.succeeded t).map Walk.listing := generated
    constructor
    case order => exact ⟨inners, listed, sorted, inside⟩
    case turns => exact Walk.map_fst_history _ _
    case decided => exact fun turn among => (decided turn among).1
    case listed => exact list
    case once =>
      rw [← Walk.map_fst_history ⟨(t.ensureDirectories j.output).tree, [], none⟩ (j.visited t)]
      exact Walk.map_fst_success_sublist _
    case present =>
      intro entry member
      rw [list] at member
      obtain ⟨step, among, rfl⟩ := List.mem_map.1 member
      exact (accounts.lands step among).present
    case file => exact accounts.file
    case directory =>
      intro place within found
      obtain ⟨source, among, op, decided, q, allowed, opens⟩ :=
        accounts.directory place within found
      exact ⟨source, among, op, decided, q, Operation.mem_directories_iff.1 allowed, opens⟩
    case outside =>
      intro place outer
      rw [accounts.outside place fun within => outer within.1]
      exact fresh.vacant.at?_ensureDirectories place
    case failing =>
      intro w source among fails
      exact Walk.enter_of_success?_eq_none (decided _ among).2 fails

def twinTemplate : FileTree :=
  ⟨[([Bytes.ofString "t"], .directory),
    ([Bytes.ofString "t", Bytes.ofString "N"], .file "x".toUTF8),
    ([Bytes.ofString "t", Bytes.ofString "s"], .file "y".toUTF8)], []⟩

/-- Both files are listed, and the second one is what is there in the end. -/
theorem generate_accounted_twins :
    let j : Job := ⟨Path.ofString "t", Path.ofString "o", ⟨"s", .empty⟩, ["N"], ⟨[]⟩⟩
    (j.generate twinTemplate).value.failure = none ∧
      (j.generate twinTemplate).value.generated =
        [⟨"Writing", Path.ofString "o/s"⟩, ⟨"Writing", Path.ofString "o/s"⟩] ∧
      (j.generate twinTemplate).value.tree.at? [Bytes.ofString "o", Bytes.ofString "s"] =
        some (.file "y".toUTF8) ∧
      j.StartsAfresh twinTemplate [Bytes.ofString "t"] [Bytes.ofString "o"] ∧
      j.Accounted twinTemplate [Bytes.ofString "t"] [Bytes.ofString "o"] := by
  intro j
  let t₁ := twinTemplate.put [Bytes.ofString "o"] .directory
  let t₂ := t₁.put [Bytes.ofString "o", Bytes.ofString "s"] (.file "x".toUTF8)
  let t₃ := t₂.put [Bytes.ofString "o", Bytes.ofString "s"] (.file "y".toUTF8)
  have sound : twinTemplate.Sound := ⟨by decide, by decide, by decide⟩
  have opens : twinTemplate.OpensAt j.template [Bytes.ofString "t"] := ⟨by decide +kernel, rfl⟩
  have noLink : ∀ place target, twinTemplate.at? place ≠ some (.link target) := by
    intro place target link
    have below : place ≠ [] := by
      rintro rfl
      simp [at?] at link
    have member := mem_entries_of_at? link below
    simp [twinTemplate] at member
  have vacant : twinTemplate.Vacant j.output [Bytes.ofString "o"] :=
    ⟨by decide, by decide, by decide, fun front _ => noLink front, by decide⟩
  have fresh : j.StartsAfresh twinTemplate [Bytes.ofString "t"] [Bytes.ofString "o"] :=
    ⟨sound, opens, fun below => noLink _, vacant, by decide, by decide⟩
  have made : twinTemplate.ensureDirectories j.output = .done t₁ := by decide +kernel
  have starts : Walk.root t₁ j.template = .ok (j.template, true) := by decide +kernel
  have sound₁ : t₁.Sound := ⟨by decide, by decide, by decide⟩
  have opens₁ : t₁.OpensAt j.template [Bytes.ofString "t"] := ⟨by decide +kernel, rfl⟩
  have listed : t₁.list j.template = .ok [(Bytes.ofString "N", .file "x".toUTF8),
      (Bytes.ofString "s", .file "y".toUTF8)] :=
    sound₁.list_eq_ok opens₁ (by decide +kernel) (by decide)
  have below : Walk.below j.template [(Bytes.ofString "N", .file "x".toUTF8),
      (Bytes.ofString "s", .file "y".toUTF8)] =
      [(Path.ofString "t/N", false), (Path.ofString "t/s", false)] := by decide
  have unignored : ∀ path, j.isIgnored path = false := fun path => by
    simp [isIgnored, j, IgnoreList.isMatch]
  have first : (j.process t₁ (Path.ofString "t/N")).value =
      .ok (some (.write (Path.ofString "o/s") "x")) := by
    have isText : String.fromUTF8? "x".toUTF8 = some "x" := by decide +kernel
    have inside : j.template.below? (Path.ofString "t/N") = some "N" := by decide +kernel
    have named : (j.render "N" "N").value = "s" := by decide +kernel
    have text : (j.render "x" "N").value = "x" := by decide +kernel
    exact process_of_text inside (by decide) (unignored "N") named (by decide) (by decide +kernel)
      (by decide +kernel) isText text
  have written : (Operation.write (Path.ofString "o/s") "x").apply t₁ (Path.ofString "t/N") =
      .done t₂ := by decide +kernel
  have second : (j.process t₂ (Path.ofString "t/s")).value =
      .ok (some (.write (Path.ofString "o/s") "y")) := by
    have isText : String.fromUTF8? "y".toUTF8 = some "y" := by decide +kernel
    have inside : j.template.below? (Path.ofString "t/s") = some "s" := by decide +kernel
    have named : (j.render "s" "s").value = "s" := by decide +kernel
    have text : (j.render "y" "s").value = "y" := by decide +kernel
    exact process_of_text inside (by decide) (unignored "s") named (by decide) (by decide +kernel)
      (by decide +kernel) isText text
  have written' : (Operation.write (Path.ofString "o/s") "y").apply t₂ (Path.ofString "t/s") =
      .done t₃ := by decide +kernel
  have ended : (j.generate twinTemplate).value = ⟨t₃, [] ++ [⟨"Writing", Path.ofString "o/s"⟩] ++
      [⟨"Writing", Path.ofString "o/s"⟩], none⟩ := by
    rw [generate_of_listed made starts listed, below, Walk.each_write _ _ first written,
      Walk.each_write _ _ second written']
    rfl
  have finished : (j.generate twinTemplate).value.failure = none := by rw [ended]
  have list : (j.generate twinTemplate).value.generated =
      [⟨"Writing", Path.ofString "o/s"⟩, ⟨"Writing", Path.ofString "o/s"⟩] := by
    rw [ended]
    rfl
  have second' : (j.generate twinTemplate).value.tree.at?
      [Bytes.ofString "o", Bytes.ofString "s"] = some (.file "y".toUTF8) := by
    rw [ended]
    exact at?_put_self t₂ _ (List.cons_ne_nil _ _)
  exact ⟨finished, list, second', fresh, generate_accounted fresh finished⟩

end Job

end Scaffold
