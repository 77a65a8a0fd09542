import Scaffold.Generation.Walk
import Scaffold.Proofs.Generation.Opening

/-! What holds of the tree all along the generation of a project. A walk changes the tree by the
operations of its entries alone, so what every operation preserves holds to the end. -/

namespace Scaffold

namespace Walk

variable {j : Job}

theorem tree_applied (w : Walk) (operation : Operation) (change : FileTree.Change) :
    (w.applied operation change).value.tree = change.tree := by
  unfold applied
  cases change.result <;> rfl

theorem entry_cases (w : Walk) (source : Path) :
    (w.entry j source).value = w ∨ ∃ op, (j.process w.tree source).value = .ok (some op) ∧
      (w.entry j source).value = (w.applied op (op.apply w.tree source)).value := by
  rw [entry, Recorded.value_bind]
  cases (j.process w.tree source).value with
  | error e => exact .inl rfl
  | ok decision =>
    cases decision with
    | none => exact .inl rfl
    | some op => exact .inr ⟨op, rfl, rfl⟩

theorem tree_entry (w : Walk) (source : Path) :
    (w.entry j source).value.tree = w.tree ∨ ∃ op, (j.process w.tree source).value = .ok (some op) ∧
      (w.entry j source).value.tree = (op.apply w.tree source).tree := by
  rcases entry_cases (j := j) w source with same | ⟨op, decided, same⟩
  · exact .inl (congrArg Walk.tree same)
  · exact .inr ⟨op, decided, by rw [same, tree_applied]⟩

theorem entry_of_none {w : Walk} {source : Path}
    (decided : (j.process w.tree source).value = .ok none) : (w.entry j source).value = w := by
  rw [entry, Recorded.value_bind, decided]
  rfl

theorem entry_of_done {t after : FileTree} {generated : List Generated} {failure : Option Error}
    {source : Path} {op : Operation} (decided : (j.process t source).value = .ok (some op))
    (done : op.apply t source = .done after) :
    (entry j ⟨t, generated, failure⟩ source).value =
      ⟨after, generated ++ [⟨op.action, op.target⟩], failure⟩ := by
  rw [entry, Recorded.value_bind, decided]
  dsimp only
  rw [done]
  rfl

theorem visit_entry (j : Job) (depth : Nat) (w : Walk) (source : Path) :
    visit j depth w (source, false) = w.entry j source := by
  cases depth <;> rfl

theorem visit_listed {w : Walk} {source : Path} {children : List (Bytes × Entry)} (depth : Nat)
    (listed : w.tree.list source = .ok children) :
    (visit j (depth + 1) w (source, true)).value =
      (each (visit j depth) (w.entry j source).value (below source children)).value := by
  rw [visit, if_pos rfl]
  dsimp only
  rw [listed]
  rfl

theorem visit_unlisted {w : Walk} {source : Path} {fault : FileFault} (depth : Nat)
    (refused : w.tree.list source = .error fault) :
    (visit j (depth + 1) w (source, true)).value =
      { (w.entry j source).value with
        failure := some (.unreadableDirectory source.display fault) } := by
  rw [visit, if_pos rfl]
  dsimp only
  rw [refused]
  rfl

theorem each_cons {visit : Walk → Path × Bool → Recorded Walk} {w : Walk}
    (going : w.failure = none) (found : Path × Bool) (rest : List (Path × Bool)) :
    (each visit w (found :: rest)).value = (each visit (visit w found).value rest).value := by
  rw [each, going]
  rfl

theorem template_of_root {w : Walk} {found : Path × Bool}
    (starts : root w.tree j.template = .ok found) :
    template j w = visit j FileTree.pathLimit w found := by
  rw [template, starts]

section Each

variable {t after : FileTree} {generated : List Generated} {source target : Path} {content : String}

theorem each_write (depth : Nat) (rest : List (Path × Bool))
    (decided : (j.process t source).value = .ok (some (.write target content)))
    (done : (Operation.write target content).apply t source = .done after) :
    (each (visit j depth) ⟨t, generated, none⟩ ((source, false) :: rest)).value =
      (each (visit j depth) ⟨after, generated ++ [⟨"Writing", target⟩], none⟩ rest).value := by
  rw [each_cons (w := ⟨t, generated, none⟩) rfl, visit_entry, entry_of_done decided done]
  rfl

theorem each_create (depth : Nat) (rest : List (Path × Bool)) {children : List (Bytes × Entry)}
    (listed : t.list source = .ok children)
    (decided : (j.process t source).value = .ok (some (.create target)))
    (done : (Operation.create target).apply t source = .done after) :
    (each (visit j (depth + 1)) ⟨t, generated, none⟩ ((source, true) :: rest)).value =
      (each (visit j (depth + 1)) (each (visit j depth)
        ⟨after, generated ++ [⟨"Creating", target⟩], none⟩ (below source children)).value
        rest).value := by
  have listed' : (⟨t, generated, none⟩ : Walk).tree.list source = .ok children := listed
  rw [each_cons (w := ⟨t, generated, none⟩) rfl, visit_listed depth listed',
    entry_of_done decided done]
  rfl

end Each

section Invariant

variable {holds : FileTree → Prop}

theorem each_preserves {visit : Walk → Path × Bool → Recorded Walk}
    (step : ∀ w found, holds w.tree → holds (visit w found).value.tree) (w : Walk)
    (found : List (Path × Bool)) (before : holds w.tree) :
    holds (each visit w found).value.tree := by
  induction found generalizing w with
  | nil => exact before
  | cons first rest ih =>
    rw [each]
    split_ifs
    · exact before
    · exact ih _ (step w first before)

/-- What every entry preserves, a walk preserves. -/
theorem visit_preserves
    (step : ∀ (w : Walk) source, holds w.tree → holds (w.entry j source).value.tree) (depth : Nat)
    (w : Walk) (found : Path × Bool) (before : holds w.tree) :
    holds (visit j depth w found).value.tree := by
  induction depth generalizing w found with
  | zero => exact step w found.1 before
  | succ depth ih =>
    obtain ⟨source, isDirectory⟩ := found
    have entered := step w source before
    cases isDirectory with
    | false =>
      rw [visit_entry]
      exact entered
    | true =>
      cases listed : w.tree.list source with
      | error fault =>
        rw [visit_unlisted depth listed]
        exact entered
      | ok children =>
        rw [visit_listed depth listed]
        exact each_preserves ih _ _ entered

theorem template_preserves
    (step : ∀ (w : Walk) source, holds w.tree → holds (w.entry j source).value.tree) (w : Walk)
    (before : holds w.tree) : holds (template j w).value.tree := by
  unfold template
  cases root w.tree j.template with
  | error fault => exact before
  | ok found => exact visit_preserves step _ w found before

end Invariant

end Walk

theorem Path.below?_self (p : Path) : p.below? p = some "" := by
  have whole : ∀ cs : List Component, behind? cs cs = some [] := by
    intro cs
    induction cs with
    | nil => rfl
    | cons c cs ih => rw [behind?, if_pos rfl, ih]
  rw [below?, whole]
  rfl

namespace Job

open FileTree

variable {j : Job} {t : FileTree}

theorem process_of_root {source : Path} (below : j.template.below? source = some "") :
    (j.process t source).value = .ok none := by
  rw [process, below]
  rfl

theorem process_of_valid {source : Path} {path : String}
    (below : j.template.below? source = some path) (present : path ≠ "")
    (noticed : j.isIgnored path = false)
    (valid : TargetPath.isValid (j.render path path).value = true) :
    (j.process t source).value =
      (j.operation t source path (j.targetOf (j.render path path).value)).value.map some := by
  rw [process, below]
  dsimp only
  rw [if_neg present, if_neg (Bool.eq_false_iff.1 noticed), Recorded.value_bind, if_pos valid]
  rfl

theorem operation_of_directory {source target : Path} {path : String}
    (directory : t.isDirectory source = true) :
    (j.operation t source path target).value = .ok (.create target) := by
  rw [operation, directory, if_pos rfl]
  rfl

theorem operation_of_text {source target : Path} {path text : String} {content : ByteArray}
    (noDirectory : t.isDirectory source = false) (reads : t.read source = .ok content)
    (isText : String.fromUTF8? content = some text) :
    (j.operation t source path target).value =
      .ok (.write target (j.render text path).value) := by
  rw [operation, noDirectory, if_neg Bool.false_ne_true, reads]
  dsimp only
  rw [isText]
  rfl

theorem process_of_text {source : Path} {path name text result : String} {content : ByteArray}
    (below : j.template.below? source = some path) (present : path ≠ "")
    (noticed : j.isIgnored path = false) (named : (j.render path path).value = name)
    (valid : TargetPath.isValid name = true) (noDirectory : t.isDirectory source = false)
    (reads : t.read source = .ok content) (isText : String.fromUTF8? content = some text)
    (rendered : (j.render text path).value = result) :
    (j.process t source).value = .ok (some (.write (j.targetOf name) result)) := by
  rw [process_of_valid below present noticed (by rwa [named]), named,
    operation_of_text noDirectory reads isText, rendered]
  rfl

theorem process_of_directory {source : Path} {path name : String}
    (below : j.template.below? source = some path) (present : path ≠ "")
    (noticed : j.isIgnored path = false) (named : (j.render path path).value = name)
    (valid : TargetPath.isValid name = true) (directory : t.isDirectory source = true) :
    (j.process t source).value = .ok (some (.create (j.targetOf name))) := by
  rw [process_of_valid below present noticed (by rwa [named]), named,
    operation_of_directory directory]
  rfl

theorem leads_of_process {source : Path} {op : Operation} {out : Location}
    (decided : (j.process t source).value = .ok (some op)) (nonempty : j.output ≠ [])
    (opens : t.OpensAt j.output out)
    (noLink : ∀ below target, t.at? (out ++ below) ≠ some (.link target)) :
    t.Leads j.output out op.target := by
  obtain ⟨rendered, valid, target⟩ := exists_rendered decided
  obtain ⟨first, rest, split, relative, noParent⟩ := pieces_of_isValid valid
  have notAbsolute : (Path.ofString rendered).isAbsolute = false := Bool.eq_false_iff.2 fun absolute =>
    relative ((Path.isAbsolute_iff _ split).1 absolute).1
  have more : names (Path.ofString rendered) ≠ [] := by
    rw [names, split, List.filter_cons_of_pos (by simpa using relative)]
    exact List.cons_ne_nil _ _
  rw [target]
  refine ⟨opens, noLink, Path.isAbsolute_join nonempty notAbsolute, names (Path.ofString rendered),
    more, Path.names_join nonempty notAbsolute, fun name among => ?_⟩
  exact noParent name (split ▸ (List.mem_filter.1 among).1)

/-- What every operation preserves whose target goes on from the directory that the output path
opens, a walk preserves, as long as there are no links in that directory. -/
theorem template_preserves {holds : FileTree → Prop} {out : Location} (rooted : t.Rooted)
    (nonempty : j.output ≠ []) (opens : t.OpensAt j.output out)
    (noLink : ∀ below target, t.at? (out ++ below) ≠ some (.link target))
    (step : ∀ between source (op : Operation), Develops t between →
      between.Leads j.output out op.target → holds between → holds (op.apply between source).tree)
    (before : holds t) :
    holds (Walk.template j ⟨t, [], none⟩).value.tree := by
  have entered : ∀ (w : Walk) source, Develops t w.tree ∧ holds w.tree →
      Develops t (w.entry j source).value.tree ∧ holds (w.entry j source).value.tree := by
    rintro w source ⟨develops, going⟩
    rcases Walk.tree_entry w source with same | ⟨op, decided, same⟩
    · rw [same]
      exact ⟨develops, going⟩
    · have leads := leads_of_process decided nonempty (opens.grows develops.grows)
        fun below target found => noLink below target (develops.link found)
      rw [same]
      exact ⟨develops.trans (op.develops (develops.rooted rooted) source),
        step w.tree source op develops leads going⟩
  exact (@Walk.template_preserves j (fun later => Develops t later ∧ holds later) entered
    ⟨t, [], none⟩ ⟨.refl, before⟩).2

theorem generate_of_failed {fault : FileFault}
    (failed : (t.ensureDirectories j.output).result = .error fault) :
    (j.generate t).value = ⟨(t.ensureDirectories j.output).tree, [], some (.io fault)⟩ := by
  rw [generate, Recorded.value_bind]
  dsimp only
  rw [failed]
  rfl

theorem generate_of_made (made : (t.ensureDirectories j.output).result = .ok ()) :
    (j.generate t).value =
      (Walk.template j ⟨(t.ensureDirectories j.output).tree, [], none⟩).value := by
  rw [generate, Recorded.value_bind]
  dsimp only
  rw [made]

/-- A template that can be listed is gone through once the output directory is there. -/
theorem generate_of_listed {made : FileTree} {children : List (Bytes × Entry)}
    (makes : t.ensureDirectories j.output = .done made)
    (starts : Walk.root made j.template = .ok (j.template, true))
    (listed : made.list j.template = .ok children) :
    (j.generate t).value = (Walk.each (Walk.visit j (pathLimit - 1)) ⟨made, [], none⟩
      (Walk.below j.template children)).value := by
  have listed' : (⟨made, [], none⟩ : Walk).tree.list j.template = .ok children := listed
  have root : (j.process made j.template).value = .ok none :=
    process_of_root (Path.below?_self j.template)
  rw [generate_of_made (by rw [makes]; rfl), makes]
  change (Walk.template j ⟨made, [], none⟩).value = _
  rw [Walk.template_of_root starts, pathLimit, Walk.visit_listed _ listed',
    Walk.entry_of_none (w := ⟨made, [], none⟩) root]

/-- Where the output path opens a directory that is new, generating a project leaves all that was
there as it was. -/
theorem generate_keeps (rooted : t.Rooted) (nonempty : j.output ≠ [])
    (new : t.OpensOnlyNew j.output)
    {place : Location} {entry : Entry} (found : t.at? place = some entry) :
    (j.generate t).value.tree.at? place = some entry := by
  have made : Evolves (fun _ => False) t (t.ensureDirectories j.output).tree :=
    evolves_ensureDirectories t j.output
  cases done : (t.ensureDirectories j.output).result with
  | error fault =>
    rw [generate_of_failed done]
    exact made.keeps (fun impossible => impossible) found
  | ok _ =>
    rw [generate_of_made done]
    obtain ⟨out, opens⟩ := exists_opensAt_of_ensureDirectories rooted nonempty done
    have nothing := new done out opens
    have empty : ∀ below, t.at? (out ++ below) = none := rooted.at?_append_eq_none nothing
    have evolved : Evolves (Inside out) t (t.ensureDirectories j.output).tree :=
      evolves_ensureDirectories t j.output
    have noLink : ∀ below target,
        (t.ensureDirectories j.output).tree.at? (out ++ below) ≠ some (.link target) := by
      intro below target link
      have old := evolved.link link
      rw [empty below] at old
      exact nomatch old
    have whole : Evolves (Inside out) (t.ensureDirectories j.output).tree
        (Walk.template j ⟨(t.ensureDirectories j.output).tree, [], none⟩).value.tree := by
      refine template_preserves (made.rooted rooted) nonempty opens noLink ?_ .refl
      intro between source op develops leads before
      have rooted := develops.rooted (made.rooted rooted)
      exact before.trans (Operation.evolves rooted source op fun evolved lands =>
        (leads.evolves evolved).inside_of_placeForFile (evolved.rooted rooted) lands)
    refine (evolved.trans whole).keeps ?_ found
    rintro ⟨⟨below, rfl⟩, _⟩
    rw [empty below] at found
    exact nomatch found

end Job

end Scaffold
