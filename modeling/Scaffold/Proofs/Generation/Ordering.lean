import Scaffold.Proofs.Generation.Visiting

/-! In what order the entries of a template are processed. A directory comes before what is in it,
and the names in a directory come in the order of their bytes, so the entries come in the order of
their names from the template down. -/

namespace Scaffold

open FileTree

namespace Walk

variable {j : Job} {within within' : List Bytes → Prop} {first second : List Path}
  {names : List Bytes}

def Ordered (j : Job) (within : List Bytes → Prop) (visited : List Path) : Prop :=
  ∃ inners : List (List Bytes), visited = inners.map j.template.descend ∧
    inners.Pairwise (· < ·) ∧ ∀ inner ∈ inners, within inner ∧ ∀ name ∈ inner, IsEntryName name

theorem ordered_nil : Ordered j within [] :=
  ⟨[], rfl, .nil, fun _ among => absurd among List.not_mem_nil⟩

theorem ordered_singleton (named : ∀ name ∈ names, IsEntryName name) :
    Ordered j (· = names) [j.template.descend names] := by
  refine ⟨[names], rfl, List.pairwise_singleton _ _, fun inner among => ?_⟩
  cases List.mem_singleton.1 among
  exact ⟨rfl, named⟩

theorem Ordered.append (front : Ordered j within first) (back : Ordered j within' second)
    (before : ∀ a b, within a → within' b → a < b) :
    Ordered j (fun inner => within inner ∨ within' inner) (first ++ second) := by
  obtain ⟨inners, rfl, ordered, inside⟩ := front
  obtain ⟨inners', rfl, ordered', inside'⟩ := back
  refine ⟨inners ++ inners', List.map_append.symm, ?_, fun inner among => ?_⟩
  · rw [List.pairwise_append]
    exact ⟨ordered, ordered',
      fun a among b among' => before a b (inside a among).1 (inside' b among').1⟩
  · rcases List.mem_append.1 among with among | among
    · exact ⟨.inl (inside inner among).1, (inside inner among).2⟩
    · exact ⟨.inr (inside' inner among).1, (inside' inner among).2⟩

theorem Ordered.mono (ordered : Ordered j within first)
    (wider : ∀ inner, within inner → within' inner) :
    Ordered j within' first := by
  obtain ⟨inners, same, sorted, inside⟩ := ordered
  exact ⟨inners, same, sorted,
    fun inner among => ⟨wider inner (inside inner among).1, (inside inner among).2⟩⟩

theorem ordered_alone (named : ∀ name ∈ names, IsEntryName name) :
    Ordered j (names <+: ·) [j.template.descend names] :=
  (ordered_singleton named).mono fun _ same => same ▸ List.prefix_rfl

theorem lt_of_prefix {name : Bytes} {inner : List Bytes} (begins : names ++ [name] <+: inner) :
    names < inner := by
  obtain ⟨more, rfl⟩ := begins
  have grows : names ++ [] < names ++ name :: more :=
    List.append_left_lt (List.nil_lt_cons name more)
  rwa [List.append_nil, ← List.singleton_append, ← List.append_assoc] at grows

theorem lt_of_prefix_of_lt {name name' : Bytes} {inner inner' : List Bytes} (less : name < name')
    (begins : names ++ [name] <+: inner) (begins' : names ++ [name'] <+: inner') :
    inner < inner' := by
  obtain ⟨more, rfl⟩ := begins
  obtain ⟨more', rfl⟩ := begins'
  rw [List.append_assoc, List.append_assoc]
  exact List.append_left_lt (List.cons_lt_cons_iff.2 (.inl less))

def VisitOrdered (j : Job) (depth : Nat) (names : List Bytes) : Prop :=
  ∀ (w : Walk) (isDirectory : Bool), w.tree.Sound → (∀ name ∈ names, IsEntryName name) →
    Ordered j (names <+: ·) (visited j depth w (j.template.descend names, isDirectory))

theorem each_ordered {depth : Nat} (named : ∀ name ∈ names, IsEntryName name)
    (visits : ∀ name, VisitOrdered j depth (names ++ [name])) (w : Walk) (sound : w.tree.Sound)
    (children : List (Bytes × Entry)) (sorted : (children.map Prod.fst).Pairwise (· < ·))
    (spelled : ∀ child ∈ children, IsEntryName child.1) :
    Ordered j (fun inner => ∃ child ∈ children, names ++ [child.1] <+: inner)
      (eachVisited (visit j depth) (visited j depth) w
        (below (j.template.descend names) children)) := by
  induction children generalizing w with
  | nil => exact ordered_nil
  | cons child rest ih =>
    rw [below, List.map_cons, eachVisited]
    split_ifs
    · exact ordered_nil
    · rw [List.map_cons, List.pairwise_cons] at sorted
      rw [← Path.descend_concat]
      have named' : ∀ name ∈ names ++ [child.1], IsEntryName name := by
        intro name among
        rcases List.mem_append.1 among with among | among
        · exact named name among
        · exact List.mem_singleton.1 among ▸ spelled child List.mem_cons_self
      have develops := develops_visit (j := j) sound.rooted depth
        (j.template.descend (names ++ [child.1]), decide (child.2 = .directory))
      have front := visits child.1 w (decide (child.2 = .directory)) sound named'
      have back := ih _ (develops.sound sound) sorted.2
        fun child member => spelled child (List.mem_cons_of_mem _ member)
      refine (front.append back ?_).mono ?_
      · rintro a b begins ⟨later, member, begins'⟩
        exact lt_of_prefix_of_lt (sorted.1 _ (List.mem_map_of_mem member)) begins begins'
      · rintro inner (begins | ⟨later, member, begins⟩)
        · exact ⟨child, List.mem_cons_self, begins⟩
        · exact ⟨later, List.mem_cons_of_mem _ member, begins⟩

/-- A visit processes the entry and what is below it in the order of the names. -/
theorem visit_ordered (depth : Nat) (names : List Bytes) : VisitOrdered j depth names := by
  induction depth generalizing names with
  | zero => exact fun w isDirectory sound named => ordered_alone named
  | succ depth ih =>
    intro w isDirectory sound named
    cases isDirectory with
    | false =>
      rw [visited_entry]
      exact ordered_alone named
    | true =>
      cases listed : w.tree.list (j.template.descend names) with
      | error fault =>
        rw [visited_unlisted depth listed]
        exact ordered_alone named
      | ok children =>
        obtain ⟨_, place, _, rfl⟩ := exists_opensAt_of_list listed
        have entered := develops_entry (j := j) sound.rooted (j.template.descend names)
        have behind := each_ordered named (fun name => ih (names ++ [name]))
          (w.entry j (j.template.descend names)).value (entered.sound sound)
          (w.tree.children place) (sound.pairwise_children place) fun child member => by
            have found := sound.mem_children_iff.1 member
            exact sound.spelled_of_at? (by rw [found]; exact Option.some_ne_none _) child.1
              (List.mem_append_right _ List.mem_cons_self)
        rw [visited_listed depth listed]
        refine ((ordered_singleton named).append behind ?_).mono ?_
        · rintro a b rfl ⟨child, _, begins⟩
          exact lt_of_prefix begins
        · rintro inner (rfl | ⟨child, _, begins⟩)
          · exact List.prefix_rfl
          · exact (List.prefix_append names [child.1]).trans begins

end Walk

namespace Job

variable {j : Job} {t : FileTree} {root : Location}

theorem ordered_generate (sound : t.Sound) (opens : t.OpensAt j.template root) :
    Walk.Ordered j (fun _ => True) (j.visited t) := by
  have develops : Develops t (t.ensureDirectories j.output).tree :=
    evolves_ensureDirectories t j.output
  rcases generate_cases opens with ⟨_, _, nothing⟩ | ⟨_, walked⟩
  · rw [nothing]
    exact Walk.ordered_nil
  · rw [walked]
    exact (Walk.visit_ordered _ [] _ _ (develops.sound sound)
      fun name among => absurd among List.not_mem_nil).mono fun _ _ => True.intro

/-- The entries that are processed come in the order of their names from the template down. If
nothing is added to the template and all of it can be listed, they are just its entries. -/
theorem exists_inners (sound : t.Sound) (opens : t.OpensAt j.template root)
    (apart : ∀ names, (j.generate t).value.tree.at? (root ++ names) ≠ none →
      t.at? (root ++ names) ≠ none)
    (finished : (j.generate t).value.failure = none) :
    ∃ inners : List (List Bytes), j.visited t = inners.map j.template.descend ∧
      inners.Pairwise (· < ·) ∧ ∀ inner, inner ∈ inners ↔ t.at? (root ++ inner) ≠ none := by
  have nonempty : j.template ≠ [] := (eq_base_of_origin (locate_eq_ok_iff.1 opens.locates).1).2
  have covers := covers_generate sound opens
  obtain ⟨inners, listed, sorted, named⟩ := ordered_generate sound opens
  have spelled : ∀ inner, t.at? (root ++ inner) ≠ none → ∀ name ∈ inner, IsEntryName name :=
    fun inner there name among =>
      sound.spelled_of_at? there name (List.mem_append_right _ among)
  refine ⟨inners, listed, sorted, fun inner => ⟨fun among => ?_, fun there => ?_⟩⟩
  · have member : j.template.descend inner ∈ j.visited t := listed ▸ List.mem_map_of_mem among
    obtain ⟨other, _, same, there⟩ := covers.there _ member
    have old := apart other there
    rwa [Path.descend_inj nonempty (named inner among).2 (spelled other old) same]
  · have member := covers.all finished inner True.intro there
    rw [listed] at member
    obtain ⟨other, among, same⟩ := List.mem_map.1 member
    rwa [← Path.descend_inj nonempty (named other among).2 (spelled inner there) same]

end Job

end Scaffold
