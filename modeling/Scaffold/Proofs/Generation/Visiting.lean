import Mathlib.Data.List.Perm.Subperm
import Scaffold.Proofs.Generation.Apart
import Scaffold.Proofs.Generation.Listing

/-! Which entries are processed while a project is generated. What lay below the template is
processed, each entry once, and besides it only what the generation itself puts there: nothing
keeps the output directory out of the template. -/

namespace Scaffold

open FileTree

namespace Walk

variable {j : Job}

def eachVisited (visit : Walk → Path × Bool → Recorded Walk)
    (visited : Walk → Path × Bool → List Path) (w : Walk) : List (Path × Bool) → List Path
  | [] => []
  | found :: rest =>
    if w.failure.isSome then []
    else visited w found ++ eachVisited visit visited (visit w found).value rest

def visited (j : Job) : (depth : Nat) → Walk → Path × Bool → List Path
  | 0, _, found => [found.1]
  | depth + 1, w, found =>
    if found.2 then
      match w.tree.list found.1 with
      | .error _ => [found.1]
      | .ok children =>
        found.1 :: eachVisited (visit j depth) (visited j depth) (w.entry j found.1).value
          (below found.1 children)
    else [found.1]

theorem visited_entry (depth : Nat) (w : Walk) (source : Path) :
    visited j depth w (source, false) = [source] := by
  cases depth <;> rfl

theorem visited_unlisted {w : Walk} {source : Path} {fault : FileFault} (depth : Nat)
    (refused : w.tree.list source = .error fault) :
    visited j (depth + 1) w (source, true) = [source] := by
  rw [visited, if_pos rfl]
  dsimp only
  rw [refused]

theorem visited_listed {w : Walk} {source : Path} {children : List (Bytes × Entry)} (depth : Nat)
    (listed : w.tree.list source = .ok children) :
    visited j (depth + 1) w (source, true) =
      source :: eachVisited (visit j depth) (visited j depth) (w.entry j source).value
        (below source children) := by
  rw [visited, if_pos rfl]
  dsimp only
  rw [listed]

theorem exists_visited (j : Job) (depth : Nat) (w : Walk) (found : Path × Bool) :
    ∃ rest, visited j depth w found = found.1 :: rest := by
  obtain ⟨source, isDirectory⟩ := found
  cases isDirectory with
  | false => exact ⟨[], visited_entry depth w source⟩
  | true =>
    cases depth with
    | zero => exact ⟨[], rfl⟩
    | succ depth =>
      cases listed : w.tree.list source with
      | error fault => exact ⟨[], visited_unlisted depth listed⟩
      | ok children => exact ⟨_, visited_listed depth listed⟩

section Order

def Agrees (w other : Walk) : Prop := w.tree = other.tree ∧ w.generated = other.generated

def enter (j : Job) (w : Walk) (source : Path) : Walk := (w.entry j source).value

theorem Agrees.enter {w other : Walk} (same : Agrees w other) (source : Path) :
    Agrees (w.enter j source) (other.enter j source) := by
  obtain ⟨tree, generated, failure⟩ := w
  obtain ⟨tree', generated', failure'⟩ := other
  obtain ⟨rfl, rfl⟩ := same
  unfold Walk.enter entry
  rw [Recorded.value_bind, Recorded.value_bind]
  dsimp only
  cases (j.process tree source).value with
  | error e => exact ⟨rfl, rfl⟩
  | ok decision =>
    cases decision with
    | none => exact ⟨rfl, rfl⟩
    | some op =>
      dsimp only [applied]
      cases (op.apply tree source).result <;> exact ⟨rfl, rfl⟩

theorem Agrees.foldl_enter {w other : Walk} (same : Agrees w other) (sources : List Path) :
    Agrees (sources.foldl (Walk.enter j) w) (sources.foldl (Walk.enter j) other) := by
  induction sources generalizing w other with
  | nil => exact same
  | cons source rest ih => exact ih (same.enter source)

theorem each_agrees {visit : Walk → Path × Bool → Recorded Walk}
    {visited : Walk → Path × Bool → List Path}
    (step : ∀ w found, Agrees (visit w found).value ((visited w found).foldl (enter j) w))
    (w : Walk) (found : List (Path × Bool)) :
    Agrees (each visit w found).value
      ((eachVisited visit visited w found).foldl (enter j) w) := by
  induction found generalizing w with
  | nil => exact ⟨rfl, rfl⟩
  | cons first rest ih =>
    rw [each, eachVisited]
    split_ifs
    · exact ⟨rfl, rfl⟩
    · rw [List.foldl_append]
      have onwards := (step w first).foldl_enter (j := j)
        (eachVisited visit visited (visit w first).value rest)
      have whole := ih (visit w first).value
      exact ⟨whole.1.trans onwards.1, whole.2.trans onwards.2⟩

/-- A visit does what processing its entries one after the other does. -/
theorem visit_agrees (depth : Nat) (w : Walk) (found : Path × Bool) :
    Agrees (visit j depth w found).value ((visited j depth w found).foldl (enter j) w) := by
  induction depth generalizing w found with
  | zero => exact ⟨rfl, rfl⟩
  | succ depth ih =>
    obtain ⟨source, isDirectory⟩ := found
    cases isDirectory with
    | false =>
      rw [visit_entry, visited_entry]
      exact ⟨rfl, rfl⟩
    | true =>
      cases listed : w.tree.list source with
      | error fault =>
        rw [visit_unlisted depth listed, visited_unlisted depth listed]
        exact ⟨rfl, rfl⟩
      | ok children =>
        rw [visit_listed depth listed, visited_listed depth listed, List.foldl_cons]
        exact each_agrees ih _ _

theorem length_generated_enter (w : Walk) (source : Path) :
    (w.enter j source).generated.length ≤ w.generated.length + 1 := by
  rcases entry_cases (j := j) w source with same | ⟨op, _, same⟩
  · rw [enter, same]
    exact Nat.le_succ _
  · rw [enter, same, applied]
    cases (op.apply w.tree source).result with
    | ok => exact (List.length_append ..).le
    | error fault => exact Nat.le_succ _

theorem length_generated_foldl (w : Walk) (sources : List Path) :
    (sources.foldl (enter j) w).generated.length ≤ w.generated.length + sources.length := by
  induction sources generalizing w with
  | nil => exact Nat.le_refl _
  | cons source rest ih =>
    have first := length_generated_enter (j := j) w source
    have behind := ih (w.enter j source)
    rw [List.foldl_cons, List.length_cons]
    omega

end Order

section Growth

theorem develops_entry {w : Walk} (rooted : w.tree.Rooted) (source : Path) :
    Develops w.tree (w.entry j source).value.tree := by
  rcases tree_entry (j := j) w source with same | ⟨op, _, same⟩
  · rw [same]
    exact .refl
  · rw [same]
    exact op.develops rooted source

theorem develops_visit {w : Walk} (rooted : w.tree.Rooted) (depth : Nat) (found : Path × Bool) :
    Develops w.tree (visit j depth w found).value.tree := by
  have step : ∀ (later : Walk) source, Develops w.tree later.tree →
      Develops w.tree (later.entry j source).value.tree :=
    fun _ source before => before.trans (develops_entry (before.rooted rooted) source)
  exact visit_preserves step depth w found .refl

theorem develops_each {w : Walk} (rooted : w.tree.Rooted) (depth : Nat)
    (found : List (Path × Bool)) :
    Develops w.tree (each (visit j depth) w found).value.tree := by
  have step : ∀ (later : Walk) found, Develops w.tree later.tree →
      Develops w.tree (visit j depth later found).value.tree :=
    fun _ found before => before.trans (develops_visit (before.rooted rooted) depth found)
  exact each_preserves step w found .refl

end Growth

structure Covers (j : Job) (root : Location) (before : FileTree) (after : Walk)
    (within : List Bytes → Prop) (visited : List Path) : Prop where
  once : visited.Nodup
  there : ∀ source ∈ visited, ∃ inner, within inner ∧ source = j.template.descend inner ∧
    after.tree.at? (root ++ inner) ≠ none
  all : after.failure = none → ∀ inner, within inner → before.at? (root ++ inner) ≠ none →
    j.template.descend inner ∈ visited

variable {root : Location}

theorem Covers.append {before : FileTree} {between after : Walk} {within within' : List Bytes → Prop}
    {first second : List Path} (nonempty : j.template ≠ []) (sound : after.tree.Sound)
    (grows : Grows before between.tree) (grows' : Grows between.tree after.tree)
    (failed : after.failure = none → between.failure = none)
    (apart : ∀ inner, within inner → ¬ within' inner)
    (front : Covers j root before between within first)
    (back : Covers j root between.tree after within' second) :
    Covers j root before after (fun inner => within inner ∨ within' inner) (first ++ second) where
  once := by
    rw [List.nodup_append]
    refine ⟨front.once, back.once, ?_⟩
    rintro source member _ member' rfl
    obtain ⟨inner, inside, rfl, there⟩ := front.there source member
    obtain ⟨inner', inside', same, there'⟩ := back.there _ member'
    have spelled := sound.spelled_of_at? (grows'.at?_ne_none there)
    have spelled' := sound.spelled_of_at? there'
    have equal := Path.descend_inj nonempty
      (fun name among => spelled name (List.mem_append_right _ among))
      (fun name among => spelled' name (List.mem_append_right _ among)) same
    exact apart inner inside (equal ▸ inside')
  there := by
    intro source member
    rcases List.mem_append.1 member with member | member
    · obtain ⟨inner, inside, same, there⟩ := front.there source member
      exact ⟨inner, .inl inside, same, grows'.at?_ne_none there⟩
    · obtain ⟨inner, inside, same, there⟩ := back.there source member
      exact ⟨inner, .inr inside, same, there⟩
  all := by
    intro finished inner inside there
    rcases inside with inside | inside
    · exact List.mem_append_left _ (front.all (failed finished) inner inside there)
    · exact List.mem_append_right _ (back.all finished inner inside (grows.at?_ne_none there))

theorem Covers.congr {before : FileTree} {after : Walk} {within within' : List Bytes → Prop}
    {visited : List Path} (same : ∀ inner, within inner ↔ within' inner)
    (covers : Covers j root before after within visited) :
    Covers j root before after within' visited := by
  rwa [funext fun inner => propext (same inner)] at covers

theorem failure_of_each {visit : Walk → Path × Bool → Recorded Walk} {w : Walk}
    {found : List (Path × Bool)} (finished : (each visit w found).value.failure = none) :
    w.failure = none := by
  cases found with
  | nil => exact finished
  | cons first rest =>
    rw [each] at finished
    split_ifs at finished with failed
    · exact finished
    · simpa using failed

/-- Entries of one directory have no entry in common that is theirs or below them. -/
theorem apart_of_not_mem {names : List Bytes} {name : Bytes} {children : List (Bytes × Entry)}
    (other : name ∉ children.map Prod.fst) {inner : List Bytes} (begins : names ++ [name] <+: inner) :
    ¬ ∃ child ∈ children, names ++ [child.1] <+: inner := by
  rintro ⟨child, member, begins'⟩
  have ordered := List.prefix_of_prefix_length_le begins begins' (by simp)
  have same := List.append_cancel_left (ordered.eq_of_length (by simp))
  exact other ((List.cons.inj same).1 ▸ List.mem_map_of_mem member)

def VisitCovers (j : Job) (root : Location) (depth : Nat) (names : List Bytes) : Prop :=
  ∀ w : Walk, w.tree.Sound → w.tree.OpensAt j.template root → w.tree.at? (root ++ names) ≠ none →
    Covers j root w.tree
      (visit j depth w (j.template.descend names, w.tree.isDirectoryAt (root ++ names))).value
      (names <+: ·)
      (visited j depth w (j.template.descend names, w.tree.isDirectoryAt (root ++ names)))

theorem each_covers {depth : Nat} {names : List Bytes} (nonempty : j.template ≠ [])
    (visits : ∀ name, VisitCovers j root depth (names ++ [name]))
    (w : Walk) (sound : w.tree.Sound) (opens : w.tree.OpensAt j.template root)
    (children : List (Bytes × Entry)) (distinct : (children.map Prod.fst).Nodup)
    (there : ∀ child ∈ children, w.tree.at? (root ++ (names ++ [child.1])) ≠ none ∧
      decide (child.2 = .directory) = w.tree.isDirectoryAt (root ++ (names ++ [child.1]))) :
    Covers j root w.tree
      (each (visit j depth) w (below (j.template.descend names) children)).value
      (fun inner => ∃ child ∈ children, names ++ [child.1] <+: inner)
      (eachVisited (visit j depth) (visited j depth) w
        (below (j.template.descend names) children)) := by
  induction children generalizing w with
  | nil =>
    exact ⟨List.nodup_nil, fun _ member => absurd member List.not_mem_nil,
      fun _ _ inside => absurd inside (by simp)⟩
  | cons child rest ih =>
    by_cases going : w.failure = none
    · obtain ⟨here, isDirectory⟩ := there child List.mem_cons_self
      rw [List.map_cons, List.nodup_cons] at distinct
      have first := visits child.1 w sound opens here
      rw [← isDirectory, Path.descend_concat] at first
      have develops := develops_visit (j := j) sound.rooted depth
        ((j.template.descend names).join child.1, decide (child.2 = .directory))
      generalize reached : (visit j depth w ((j.template.descend names).join child.1,
        decide (child.2 = .directory))).value = w' at first develops
      have behind := ih w' (develops.sound sound) (opens.grows develops.grows) distinct.2
        fun child member => by
          obtain ⟨there, isDirectory⟩ := there child (List.mem_cons_of_mem _ member)
          exact ⟨develops.grows.at?_ne_none there,
            isDirectory.trans (develops.grows.isDirectoryAt_eq there).symm⟩
      have develops' := develops_each (j := j) (develops.rooted sound.rooted) depth
        (below (j.template.descend names) rest)
      have whole := Covers.append nonempty (develops'.sound (develops.sound sound)) develops.grows
        develops'.grows failure_of_each (fun _ => apart_of_not_mem distinct.1) first behind
      rw [below, List.map_cons, each_cons going, eachVisited, going, reached]
      exact whole.congr fun inner => by simp
    · have failed : w.failure.isSome = true := Option.isSome_iff_ne_none.2 going
      rw [below, List.map_cons, each, eachVisited, if_pos failed, if_pos failed]
      exact ⟨List.nodup_nil, fun _ member => absurd member List.not_mem_nil,
        fun finished => absurd finished going⟩

theorem covers_entry {before : FileTree} {after : Walk} {names : List Bytes}
    (grows : Grows before after.tree) (there : before.at? (root ++ names) ≠ none)
    (alone : after.failure = none → ∀ more, more ≠ [] → before.at? (root ++ (names ++ more)) = none) :
    Covers j root before after (names <+: ·) [j.template.descend names] where
  once := List.nodup_singleton _
  there := by
    intro source member
    obtain rfl := List.mem_singleton.1 member
    exact ⟨names, List.prefix_rfl, rfl, grows.at?_ne_none there⟩
  all := by
    rintro finished _ ⟨more, rfl⟩ found
    by_cases empty : more = []
    · rw [empty, List.append_nil]
      exact List.mem_cons_self
    · exact absurd (alone finished more empty) found

theorem Covers.cons {before : FileTree} {between after : Walk} {names : List Bytes}
    {children : List (Bytes × Entry)} {inner : List Path} (nonempty : j.template ≠ [])
    (sound : before.Sound) (develops : Develops before between.tree)
    (develops' : Develops between.tree after.tree)
    (there : before.at? (root ++ names) ≠ none)
    (listed : ∀ name, before.at? (root ++ (names ++ [name])) ≠ none →
      name ∈ children.map Prod.fst)
    (covers : Covers j root between.tree after
      (fun inner => ∃ child ∈ children, names ++ [child.1] <+: inner) inner) :
    Covers j root before after (names <+: ·) (j.template.descend names :: inner) where
  once := by
    rw [List.nodup_cons]
    refine ⟨fun member => ?_, covers.once⟩
    obtain ⟨_, ⟨child, _, more, rfl⟩, same, found⟩ := covers.there _ member
    have spelled := ((develops.trans develops').sound sound).spelled_of_at? found
    have spelled' := sound.spelled_of_at? there
    have equal := Path.descend_inj nonempty
      (fun name among => spelled' name (List.mem_append_right _ among))
      (fun name among => spelled name (List.mem_append_right _ among)) same
    simp at equal
  there := by
    intro source member
    rcases List.mem_cons.1 member with rfl | member
    · exact ⟨names, List.prefix_rfl, rfl, (develops.trans develops').grows.at?_ne_none there⟩
    · obtain ⟨inner, ⟨child, _, begins⟩, same, found⟩ := covers.there source member
      exact ⟨inner, (List.prefix_append _ _).trans begins, same, found⟩
  all := by
    rintro finished _ ⟨more, rfl⟩ found
    cases more with
    | nil =>
      rw [List.append_nil]
      exact List.mem_cons_self
    | cons name more =>
      have split : names ++ name :: more = names ++ [name] ++ more := by simp
      have outer : before.at? (root ++ (names ++ [name])) ≠ none := by
        rw [split, ← List.append_assoc] at found
        exact sound.rooted.at?_ne_none_of_append found
      obtain ⟨child, member, rfl⟩ := List.mem_map.1 (listed name outer)
      exact List.mem_cons_of_mem _ (covers.all finished _ ⟨child, member, more, split.symm⟩
        (develops.grows.at?_ne_none found))

/-- A visit covers the entry and all that is below it. A path is too long before the depth is
used up. -/
theorem visit_covers {depth : Nat} {names : List Bytes} (positive : 0 < depth)
    (long : pathLimit < (j.template.descend names).length + depth) :
    VisitCovers j root depth names := by
  intro w sound opens there
  have nonempty : j.template ≠ [] := (eq_base_of_origin (locate_eq_ok_iff.1 opens.locates).1).2
  induction depth generalizing w names with
  | zero => exact absurd positive (Nat.lt_irrefl 0)
  | succ depth ih =>
    have entered := develops_entry (j := j) sound.rooted (j.template.descend names)
    cases directory : w.tree.isDirectoryAt (root ++ names) with
    | false =>
      rw [visit_entry, visited_entry]
      refine covers_entry entered.grows there fun _ more nonempty => ?_
      by_contra found
      rw [← List.append_assoc] at found
      rw [sound.rooted.isDirectoryAt_of_append found nonempty] at directory
      exact nomatch directory
    | true =>
      cases listed : w.tree.list (j.template.descend names) with
      | error fault =>
        rw [visit_unlisted depth listed, visited_unlisted depth listed]
        exact covers_entry entered.grows there fun finished => nomatch finished
      | ok children =>
        obtain ⟨short, place, opened, rfl⟩ := exists_opensAt_of_list listed
        have spelled := sound.spelled_of_at? there
        obtain rfl := opens.eq_of_descend sound.rooted
          (fun name among => spelled name (List.mem_append_right _ among)) directory opened
        rw [visit_listed depth listed, visited_listed depth listed]
        have visits : ∀ name, VisitCovers j root depth (names ++ [name]) := by
          intro name w sound opens found
          have isName := sound.spelled_of_at? found name (by simp)
          have longer := Path.length_lt_join (p := j.template.descend names) isName
          rw [← Path.descend_concat] at longer
          exact ih (by omega) (by omega) w sound opens found
        have covers := each_covers nonempty visits (w.entry j (j.template.descend names)).value
          (entered.sound sound) (opens.grows entered.grows) (w.tree.children (root ++ names))
          (sound.nodup_children _) ?_
        · refine covers.cons nonempty sound entered
            (develops_each (entered.rooted sound.rooted) depth _) there fun name found => ?_
          obtain ⟨entry, found⟩ := Option.ne_none_iff_exists'.1 found
          rw [← List.append_assoc] at found
          exact List.mem_map_of_mem (sound.mem_children_iff.2 found)
        · rintro ⟨name, entry⟩ member
          have found := sound.mem_children_iff.1 member
          rw [List.append_assoc] at found
          have present : w.tree.at? (root ++ (names ++ [name])) ≠ none := by simp [found]
          refine ⟨entered.grows.at?_ne_none present, ?_⟩
          rw [entered.grows.isDirectoryAt_eq present, isDirectoryAt, found]
          simp

end Walk

def FileTree.entriesBelow (t : FileTree) (root : Location) : List (Location × Entry) :=
  t.entries.filter fun entry => root.isPrefixOf entry.1 && entry.1 != root

namespace Job

variable {j : Job} {t : FileTree} {root : Location}

def visited (j : Job) (t : FileTree) : List Path :=
  let change := t.ensureDirectories j.output
  match change.result, Walk.root change.tree j.template with
  | .ok (), .ok found => Walk.visited j pathLimit ⟨change.tree, [], none⟩ found
  | _, _ => []

theorem eq_of_root {found : Path × Bool} (opens : t.OpensAt j.template root)
    (starts : Walk.root t j.template = .ok found) :
    found = (j.template.descend [], t.isDirectoryAt (root ++ [])) := by
  obtain ⟨_, _, starts⟩ := bind_eq_ok_iff.1 starts
  obtain ⟨place, located, starts⟩ := bind_eq_ok_iff.1 starts
  cases opens.locates.symm.trans located
  cases starts
  rw [List.append_nil]
  rfl

theorem generate_cases (opens : t.OpensAt j.template root) :
    let made := (t.ensureDirectories j.output).tree
    (∃ e, (j.generate t).value = ⟨made, [], some e⟩ ∧ j.visited t = []) ∨
      (j.generate t).value = (Walk.visit j pathLimit ⟨made, [], none⟩
        (j.template.descend [], made.isDirectoryAt (root ++ []))).value ∧
      j.visited t = Walk.visited j pathLimit ⟨made, [], none⟩
        (j.template.descend [], made.isDirectoryAt (root ++ [])) := by
  intro made
  have develops : Develops t made := evolves_ensureDirectories t j.output
  unfold visited
  dsimp only
  cases done : (t.ensureDirectories j.output).result with
  | error fault =>
    rw [generate_of_failed done]
    exact .inl ⟨_, rfl, rfl⟩
  | ok _ =>
    rw [generate_of_made done]
    cases starts : Walk.root (t.ensureDirectories j.output).tree j.template with
    | error fault =>
      rw [Walk.template, starts]
      exact .inl ⟨_, rfl, rfl⟩
    | ok found =>
      rw [Walk.template_of_root starts, eq_of_root (opens.grows develops.grows) starts]
      exact .inr ⟨rfl, rfl⟩

/-- The walk does what processing the entries one after the other does. -/
theorem generate_agrees (opens : t.OpensAt j.template root) :
    Walk.Agrees (j.generate t).value ((j.visited t).foldl (Walk.enter j)
      ⟨(t.ensureDirectories j.output).tree, [], none⟩) := by
  rcases generate_cases opens with ⟨e, ended, nothing⟩ | ⟨ended, walked⟩
  · rw [ended, nothing]
    exact ⟨rfl, rfl⟩
  · rw [ended, walked]
    exact Walk.visit_agrees pathLimit _ _

theorem covers_generate (sound : t.Sound) (opens : t.OpensAt j.template root) :
    Walk.Covers j root t (j.generate t).value (fun _ => True) (j.visited t) := by
  have nonempty : j.template ≠ [] := (eq_base_of_origin (locate_eq_ok_iff.1 opens.locates).1).2
  have develops : Develops t (t.ensureDirectories j.output).tree :=
    evolves_ensureDirectories t j.output
  rcases generate_cases opens with ⟨e, ended, nothing⟩ | ⟨ended, walked⟩
  · rw [ended, nothing]
    exact ⟨List.nodup_nil, fun _ member => absurd member List.not_mem_nil,
      fun finished => nomatch finished⟩
  · rw [ended, walked]
    have there := at?_ne_none_of_isDirectoryAt opens.directory
    have long : pathLimit < (j.template.descend []).length + pathLimit := by
      have positive : 0 < j.template.length := List.length_pos_of_ne_nil nonempty
      change pathLimit < j.template.length + pathLimit
      omega
    have covers := Walk.visit_covers (by decide) long
      ⟨(t.ensureDirectories j.output).tree, [], none⟩ (develops.sound sound)
      (opens.grows develops.grows)
      (by rw [List.append_nil]; exact develops.grows.at?_ne_none there)
    refine ⟨covers.once, fun source member => ?_, fun finished inner _ found => ?_⟩
    · obtain ⟨inner, _, facts⟩ := covers.there source member
      exact ⟨inner, True.intro, facts⟩
    · exact covers.all finished inner List.nil_prefix (develops.grows.at?_ne_none found)

theorem length_generated_le (opens : t.OpensAt j.template root) :
    (j.generate t).value.generated = [] ∨
      ∃ rest, j.visited t = j.template :: rest ∧
        (j.generate t).value.generated.length ≤ rest.length := by
  rcases generate_cases opens with ⟨e, ended, _⟩ | ⟨ended, walked⟩
  · rw [ended]
    exact .inl rfl
  · obtain ⟨rest, split⟩ := Walk.exists_visited j pathLimit
      ⟨(t.ensureDirectories j.output).tree, [], none⟩
      (j.template.descend [], (t.ensureDirectories j.output).tree.isDirectoryAt (root ++ []))
    refine .inr ⟨rest, walked.trans split, ?_⟩
    have agrees := (Walk.visit_agrees (j := j) pathLimit
      ⟨(t.ensureDirectories j.output).tree, [], none⟩
      (j.template.descend [], (t.ensureDirectories j.output).tree.isDirectoryAt (root ++ []))).2
    have skipped : Walk.enter j ⟨(t.ensureDirectories j.output).tree, [], none⟩ j.template =
        ⟨(t.ensureDirectories j.output).tree, [], none⟩ :=
      Walk.entry_of_none (process_of_root (Path.below?_self j.template))
    have start : j.template.descend [] = j.template := rfl
    rw [split, List.foldl_cons, start, skipped] at agrees
    rw [ended, start, agrees]
    exact (Walk.length_generated_foldl _ rest).trans (by simp)

theorem mem_map_entriesBelow {names : List Bytes} (there : t.at? (root ++ names) ≠ none)
    (nonempty : names ≠ []) :
    j.template.descend names ∈
      ((t.entriesBelow root).map Prod.fst).map fun place =>
        j.template.descend (place.drop root.length) := by
  obtain ⟨entry, found⟩ := Option.ne_none_iff_exists'.1 there
  have member := mem_entries_of_at? found (by simp [nonempty])
  have inside : (root ++ names, entry) ∈ t.entriesBelow root :=
    List.mem_filter.2 ⟨member, by simp [nonempty]⟩
  exact List.mem_map.2 ⟨root ++ names, List.mem_map_of_mem inside, by rw [List.drop_left]⟩

/-- Every entry below the template is processed, unless a directory cannot be listed, and none
twice. What is processed besides was put below the template by the generation itself. If nothing
is, as when the output stays apart from the template, then only what lay there before is
processed, and the project has no more entries than that. -/
theorem generate_visits (sound : t.Sound) (opens : t.OpensAt j.template root) :
    let after := (j.generate t).value
    Walk.Agrees after ((j.visited t).foldl (Walk.enter j)
      ⟨(t.ensureDirectories j.output).tree, [], none⟩) ∧
    (j.visited t).Nodup ∧
    (after.failure = none → ∀ names, t.at? (root ++ names) ≠ none →
      j.template.descend names ∈ j.visited t) ∧
    (∀ source ∈ j.visited t, ∃ names, source = j.template.descend names ∧
      after.tree.at? (root ++ names) ≠ none) ∧
    ((∀ names, after.tree.at? (root ++ names) ≠ none → t.at? (root ++ names) ≠ none) →
      (∀ source ∈ j.visited t, ∃ names, source = j.template.descend names ∧
        t.at? (root ++ names) ≠ none) ∧
      after.generated.length ≤ (t.entriesBelow root).length) ∧
    (j.StaysApart t root →
      ∀ names, after.tree.at? (root ++ names) ≠ none → t.at? (root ++ names) ≠ none) := by
  intro after
  have covers := covers_generate sound opens
  have below : ∀ source ∈ j.visited t, ∃ names, source = j.template.descend names ∧
      after.tree.at? (root ++ names) ≠ none := by
    intro source member
    obtain ⟨names, _, facts⟩ := covers.there source member
    exact ⟨names, facts⟩
  refine ⟨generate_agrees opens, covers.once,
    fun finished names => covers.all finished names True.intro, below, fun apart => ?_,
    fun stays => stays.generate sound.rooted⟩
  have old : ∀ source ∈ j.visited t, ∃ names, source = j.template.descend names ∧
      t.at? (root ++ names) ≠ none := by
    intro source member
    obtain ⟨names, same, there⟩ := below source member
    exact ⟨names, same, apart names there⟩
  refine ⟨old, ?_⟩
  rcases length_generated_le opens with nothing | ⟨rest, split, bounded⟩
  · exact nothing ▸ Nat.zero_le _
  · have once := covers.once
    rw [split, List.nodup_cons] at once
    refine bounded.trans ?_
    have inside : rest ⊆ ((t.entriesBelow root).map Prod.fst).map
        fun place => j.template.descend (place.drop root.length) := by
      intro source member
      obtain ⟨names, rfl, there⟩ := old source (split ▸ List.mem_cons_of_mem _ member)
      refine mem_map_entriesBelow there ?_
      rintro rfl
      exact once.1 member
    have bound := (List.subperm_of_subset once.2 inside).length_le
    rwa [List.length_map, List.length_map] at bound

def plainJob (template output : Path) : Job :=
  ⟨template, output, ⟨"s", .empty⟩, [], ⟨[]⟩⟩

theorem isIgnored_plainJob (template output : Path) (path : String) :
    (plainJob template output).isIgnored path = false := by
  simp [isIgnored, plainJob, IgnoreList.isMatch]

def smallTemplate : FileTree :=
  ⟨[([Bytes.ofString "t"], .directory),
    ([Bytes.ofString "t", Bytes.ofString "a"], .file "x".toUTF8)], []⟩

theorem generate_visits_small_template :
    let j := plainJob (Path.ofString "t") (Path.ofString "o")
    (j.generate smallTemplate).value.failure = none ∧
      Path.ofString "t/a" ∈ j.visited smallTemplate ∧ (j.visited smallTemplate).Nodup ∧
      (j.generate smallTemplate).value.generated.length ≤ 1 := by
  intro j
  let t₁ := smallTemplate.put [Bytes.ofString "o"] .directory
  let t₂ := t₁.put [Bytes.ofString "o", Bytes.ofString "a"] (.file "x".toUTF8)
  have sound : smallTemplate.Sound := ⟨by decide, by decide, by decide⟩
  have opens : smallTemplate.OpensAt j.template [Bytes.ofString "t"] := ⟨by decide +kernel, rfl⟩
  have made : smallTemplate.ensureDirectories j.output = .done t₁ := by decide +kernel
  have lands : t₁.locate j.output = .ok [Bytes.ofString "o"] := by decide +kernel
  have stays : j.StaysApart smallTemplate [Bytes.ofString "t"] := by
    refine ⟨by decide, fun below there => ?_, fun out opened below target => ?_,
      fun out opened => ?_⟩
    · rw [made] at there
      have different : [Bytes.ofString "t"] ++ below ≠ [Bytes.ofString "o"] := by
        rintro same
        exact absurd (List.cons.inj same).1 (by decide)
      rwa [Change.done, at?_put_of_ne _ _ different] at there
    · rw [made] at opened
      cases opened.locates.symm.trans lands
      rw [sound.rooted.at?_append_eq_none (by decide)]
      rintro ⟨⟩
    · rw [made] at opened
      cases opened.locates.symm.trans lands
      decide
  have starts : Walk.root t₁ j.template = .ok (j.template, true) := by decide +kernel
  have listed : t₁.list j.template = .ok [(Bytes.ofString "a", .file "x".toUTF8)] := by
    decide +kernel
  have below : Walk.below j.template [(Bytes.ofString "a", .file "x".toUTF8)] =
      [(Path.ofString "t/a", false)] := by decide
  have isText : String.fromUTF8? "x".toUTF8 = some "x" := by decide +kernel
  have inside : j.template.below? (Path.ofString "t/a") = some "a" := by decide +kernel
  have named : (j.render "a" "a").value = "a" := by decide +kernel
  have text : (j.render "x" "a").value = "x" := by decide +kernel
  have decided : (j.process t₁ (Path.ofString "t/a")).value =
      .ok (some (.write (Path.ofString "o/a") "x")) :=
    process_of_text inside (by decide) (isIgnored_plainJob ..) named (by decide)
      (by decide +kernel) (by decide +kernel) isText text
  have written : (Operation.write (Path.ofString "o/a") "x").apply t₁ (Path.ofString "t/a") =
      .done t₂ := by decide +kernel
  have ended : (j.generate smallTemplate).value = ⟨t₂, [⟨"Writing", Path.ofString "o/a"⟩], none⟩ := by
    rw [generate_of_listed made starts listed, below, Walk.each_write _ _ decided written]
    rfl
  obtain ⟨_, once, all, _, bounded, apart⟩ := generate_visits sound opens
  have finished : (j.generate smallTemplate).value.failure = none := by rw [ended]
  exact ⟨finished, all finished [Bytes.ofString "a"] (by decide), once, (bounded (apart stays)).2⟩

def oneFile : FileTree := ⟨[([Bytes.ofString "a"], .file "x".toUTF8)], []⟩

/-- Where the output directory stands in the template, its own file is processed. -/
theorem generate_visits_its_output :
    let j := plainJob (Path.ofString ".") (Path.ofString "s")
    oneFile.Sound ∧ oneFile.OpensAt j.template [] ∧ (j.generate oneFile).value.failure = none ∧
      (j.generate oneFile).value.generated =
        [⟨"Writing", Path.ofString "s/a"⟩, ⟨"Creating", Path.ofString "s/s"⟩,
          ⟨"Writing", Path.ofString "s/s/a"⟩] ∧
      (oneFile.entriesBelow []).length = 1 := by
  intro j
  let t₁ := oneFile.put [Bytes.ofString "s"] .directory
  let t₂ := t₁.put [Bytes.ofString "s", Bytes.ofString "a"] (.file "x".toUTF8)
  let t₃ := t₂.put [Bytes.ofString "s", Bytes.ofString "s"] .directory
  let t₄ := t₃.put [Bytes.ofString "s", Bytes.ofString "s", Bytes.ofString "a"] (.file "x".toUTF8)
  have opens : oneFile.OpensAt j.template [] := ⟨by decide +kernel, rfl⟩
  have made : oneFile.ensureDirectories j.output = .done t₁ := by decide +kernel
  have starts : Walk.root t₁ j.template = .ok (j.template, true) := by decide +kernel
  have sound₁ : t₁.Sound := ⟨by decide, by decide, by decide⟩
  have opens₁ : t₁.OpensAt j.template [] := ⟨by decide +kernel, rfl⟩
  have listed : t₁.list j.template =
      .ok [(Bytes.ofString "a", .file "x".toUTF8), (Bytes.ofString "s", .directory)] :=
    sound₁.list_eq_ok opens₁ (by decide +kernel) (by decide)
  have below : Walk.below j.template
      [(Bytes.ofString "a", .file "x".toUTF8), (Bytes.ofString "s", .directory)] =
      [(Path.ofString "./a", false), (Path.ofString "./s", true)] := by decide
  have isText : String.fromUTF8? "x".toUTF8 = some "x" := by decide +kernel
  have inside : j.template.below? (Path.ofString "./a") = some "a" := by decide +kernel
  have named : (j.render "a" "a").value = "a" := by decide +kernel
  have text : (j.render "x" "a").value = "x" := by decide +kernel
  have first : (j.process t₁ (Path.ofString "./a")).value =
      .ok (some (.write (Path.ofString "s/a") "x")) :=
    process_of_text inside (by decide) (isIgnored_plainJob ..) named (by decide)
      (by decide +kernel) (by decide +kernel) isText text
  have written : (Operation.write (Path.ofString "s/a") "x").apply t₁ (Path.ofString "./a") =
      .done t₂ := by decide +kernel
  -- By now the output directory is listed with the file in it.
  have listed' : t₂.list (Path.ofString "./s") = .ok [(Bytes.ofString "a", .file "x".toUTF8)] := by
    decide +kernel
  have inside' : j.template.below? (Path.ofString "./s") = some "s" := by decide +kernel
  have named' : (j.render "s" "s").value = "s" := by decide +kernel
  have second : (j.process t₂ (Path.ofString "./s")).value =
      .ok (some (.create (Path.ofString "s/s"))) :=
    process_of_directory inside' (by decide) (isIgnored_plainJob ..) named' (by decide)
      (by decide +kernel)
  have created : (Operation.create (Path.ofString "s/s")).apply t₂ (Path.ofString "./s") =
      .done t₃ := by decide +kernel
  have below' : Walk.below (Path.ofString "./s") [(Bytes.ofString "a", .file "x".toUTF8)] =
      [(Path.ofString "./s/a", false)] := by decide
  have inside'' : j.template.below? (Path.ofString "./s/a") = some "s/a" := by decide +kernel
  have named'' : (j.render "s/a" "s/a").value = "s/a" := by decide +kernel
  have text' : (j.render "x" "s/a").value = "x" := by decide +kernel
  have third : (j.process t₃ (Path.ofString "./s/a")).value =
      .ok (some (.write (Path.ofString "s/s/a") "x")) :=
    process_of_text inside'' (by decide) (isIgnored_plainJob ..) named'' (by decide)
      (by decide +kernel) (by decide +kernel) isText text'
  have written' : (Operation.write (Path.ofString "s/s/a") "x").apply t₃ (Path.ofString "./s/a") =
      .done t₄ := by decide +kernel
  have ended : (j.generate oneFile).value =
      ⟨t₄, [] ++ [⟨"Writing", Path.ofString "s/a"⟩] ++ [⟨"Creating", Path.ofString "s/s"⟩] ++
        [⟨"Writing", Path.ofString "s/s/a"⟩], none⟩ := by
    rw [generate_of_listed made starts listed, below, Walk.each_write _ _ first written,
      pathLimit, Walk.each_create 4094 _ listed' second created, below',
      Walk.each_write _ _ third written']
    rfl
  rw [ended]
  exact ⟨⟨by decide, by decide, by decide⟩, opens, rfl, rfl, by decide⟩

end Job

end Scaffold
