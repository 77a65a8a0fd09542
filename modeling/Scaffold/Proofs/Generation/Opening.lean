import Scaffold.Proofs.File.Names
import Scaffold.Proofs.Generation.Growth

/-! What a path opens once its directories have been made. Where the path was not there before,
and every `..` of it stands behind something that was, it opens a directory that is new, and empty.
-/

namespace Scaffold.FileTree

variable {t after : FileTree} {p : Path} {out : Location}

/-- Every `..` of the path stands behind names that lead to something. -/
def Grounded (t : FileTree) (p : Path) : Prop :=
  ∀ front back, names p = front ++ parentName :: back →
    ∃ place, t.walk true linkLimit (t.base p) false front = .ok (.taken place)

theorem origin_of_grows (grows : Grows t after) : after.origin p = t.origin p := by
  rw [origin, origin, grows.working]

theorem locate_of_grows (grows : Grows t after) (located : t.locate p = .ok out) :
    after.locate p = .ok out := by
  obtain ⟨starts, route⟩ := locate_eq_ok_iff.1 located
  have same : after.base p = t.base p := by rw [base, base, grows.working]
  refine locate_eq_ok_iff.2 ⟨?_, ?_⟩
  · rw [origin_of_grows grows, same, starts]
  · rw [same]
    exact route.grows grows

theorem OpensAt.grows (opens : t.OpensAt p out) (grows : Grows t after) : after.OpensAt p out :=
  ⟨locate_of_grows grows opens.locates, grows.isDirectoryAt opens.directory⟩

/-- What the path opens once its directories are made was not there before. -/
def OpensOnlyNew (t : FileTree) (p : Path) : Prop :=
  (t.ensureDirectories p).result = .ok () →
    ∀ out, (t.ensureDirectories p).tree.OpensAt p out → t.at? out = none

structure OpensNew (before after : FileTree) (p : Path) (out : Location) : Prop where
  opens : after.OpensAt p out
  new : before.at? out = none
  bare : ∀ below, below ≠ [] → after.at? (out ++ below) = none

theorem origin_of_makeDirectory (makes : t.makeDirectory p = .ok after) :
    t.origin p = .ok (t.base p) := by
  obtain ⟨start, starts, _⟩ := bind_eq_ok_iff.1 makes
  rw [starts, (eq_base_of_origin starts).1]

theorem opensAt_of_free {directory : Location} {name : Bytes} {ends : Bool}
    (starts : t.origin p = .ok (t.base p))
    (route : Route t false linkLimit (t.base p) false (names p) (.free directory name ends)) :
    (t.put (directory ++ [name]) .directory).OpensAt p (directory ++ [name]) where
  locates := locate_eq_ok_iff.2 ⟨starts, route.put_free (endsInSlash p)⟩
  directory := by
    have below : directory ++ [name] ≠ [] :=
      List.append_ne_nil_of_right_ne_nil _ (List.cons_ne_nil name [])
    simp [isDirectoryAt, at?_put_self t .directory below]

theorem opensNew_of_makeDirectory (rooted : t.Rooted) (makes : t.makeDirectory p = .ok after) :
    ∃ out, OpensNew t after p out := by
  obtain ⟨directory, name, ends, _, route, rfl⟩ := route_of_makeDirectory makes
  obtain ⟨_, _, nothing⟩ := route.of_free
  have opens := opensAt_of_free (origin_of_makeDirectory makes) route
  refine ⟨directory ++ [name], opens, nothing, fun inner nonempty => ?_⟩
  have different : directory ++ [name] ++ inner ≠ directory ++ [name] := fun same =>
    nonempty (List.append_right_eq_self.1 same)
  rw [at?_put_of_ne t _ different, rooted.at?_append_eq_none nothing]

theorem ensureDirectory_cases (rooted : t.Rooted) (done : (t.ensureDirectory p).result = .ok ()) :
    ((t.ensureDirectory p).tree = t ∧ t.isDirectory p = true) ∨
      ∃ out, OpensNew t (t.ensureDirectory p).tree p out := by
  unfold ensureDirectory at done ⊢
  cases makes : t.makeDirectory p with
  | ok changed => exact .inr (opensNew_of_makeDirectory rooted makes)
  | error fault =>
    rw [makes] at done
    dsimp only at done ⊢
    split_ifs at done ⊢ with directory
    · exact .inl ⟨rfl, directory⟩
    · exact nomatch done

theorem Change.andThen_eq_ok {change : Change} {next : FileTree → Change}
    (done : (change.andThen next).result = .ok ()) :
    change.result = .ok () ∧ change.andThen next = next change.tree := by
  unfold andThen at done ⊢
  cases first : change.result with
  | ok => exact ⟨rfl, rfl⟩
  | error fault =>
    rw [first] at done
    dsimp only at done
    rw [first] at done
    exact nomatch done

theorem walk_stays {follow slash : Bool} {links : Nat} {place : Location}
    {dots rest : List Bytes} (stays : Path.Stays dots) (directory : t.isDirectoryAt place = true) :
    t.walk follow links place slash (dots ++ rest) = t.walk follow links place slash rest := by
  induction dots with
  | nil => rfl
  | cons name dots ih =>
    obtain ⟨rfl, others⟩ := List.forall_mem_cons.1 stays
    rw [List.cons_append, walk_here directory, ih others]

/-- Where everything before the last name is there, no directory is missing. -/
theorem makeDirectory_ne_notFound {front behind : List Bytes} {place : Location} (nonempty : p ≠ [])
    (split : names p = front ++ parentName :: behind) (stays : Path.Stays behind)
    (leads : t.walk true linkLimit (t.base p) false front = .ok (.taken place)) :
    t.makeDirectory p ≠ .error .notFound := by
  intro missing
  obtain ⟨left, onwards⟩ := (route_of_walk leads).walk_append
  have reaches := onwards false false (parentName :: behind) (List.cons_ne_nil _ _)
  unfold makeDirectory at missing
  cases starts : t.origin p with
  | error fault =>
    rw [starts] at missing
    unfold origin at starts
    split_ifs at starts <;> cases starts <;> cases missing
  | ok start =>
    rw [starts, (eq_base_of_origin starts).1] at missing
    change (t.walk false linkLimit (t.base p) false (names p) >>= _) = _ at missing
    rw [split, reaches] at missing
    by_cases directory : t.isDirectoryAt place = true
    · rw [walk_up directory] at missing
      cases behind with
      | nil =>
        rw [walk] at missing
        cases missing
      | cons name behind =>
        obtain ⟨rfl, others⟩ := List.forall_mem_cons.1 stays
        by_cases upper : t.isDirectoryAt place.dropLast = true
        · rw [walk_here upper, ← List.append_nil behind, walk_stays others upper, walk] at missing
          cases missing
        · rw [walk, if_pos (by simpa using upper)] at missing
          cases missing
    · rw [walk, if_pos (by simpa using directory)] at missing
      cases missing

theorem OpensNew.isDirectory_eq_false {next : Path} (opened : OpensNew t after next out)
    {before behind : List Bytes} {name : Bytes} (same : after.base p = after.base next)
    (split : names p = names next ++ (before ++ name :: behind)) (stays : Path.Stays before)
    (notDot : name ≠ [Path.dot]) (notParent : name ≠ parentName) :
    after.isDirectory p = false := by
  rw [Bool.eq_false_iff, Ne, isDirectory_iff]
  rintro ⟨place, opens⟩
  obtain ⟨left, onwards⟩ := (opened.opens.route false).walk_append
  have walks := (opens.route false).walk
  have more : before ++ name :: behind ≠ [] := by simp
  rw [split, same, onwards true false _ more,
    walk_stays stays opened.opens.directory] at walks
  have nothing := opened.bare [name] (List.cons_ne_nil name [])
  cases route_of_walk walks with
  | here => exact notDot rfl
  | up => exact notParent rfl
  | last _ _ found | link _ _ found | down _ _ found =>
    rw [nothing] at found
    exact nomatch found

theorem Grounded.outer {next : Path} {tail : List Bytes} (grounded : t.Grounded p)
    (same : t.base p = t.base next) (split : names p = names next ++ tail) : t.Grounded next := by
  intro front back inner
  rw [inner, List.append_assoc, List.cons_append] at split
  rw [← same]
  exact grounded front (back ++ tail) split

theorem ensureWithin_cases (rooted : t.Rooted) {outer : List Path} (around : p.outer = outer)
    (nonempty : p ≠ []) (grounded : t.Grounded p)
    (done : (t.ensureWithin p outer).result = .ok ()) :
    ((t.ensureWithin p outer).tree = t ∧ t.isDirectory p = true) ∨
      ∃ out, OpensNew t (t.ensureWithin p outer).tree p out := by
  induction outer generalizing p with
  | nil => exact ensureDirectory_cases rooted done
  | cons next more ih =>
    by_cases missing : t.makeDirectory p = .error .notFound
    · rw [ensureWithin, missing] at done ⊢
      dsimp only at done ⊢
      split_ifs at done ⊢ with empty
      · cases done
      · obtain ⟨outerDone, whole⟩ := Change.andThen_eq_ok done
        rw [whole] at done ⊢
        obtain ⟨inner, absolute, before, name, behind, split, stays, dots, notDot⟩ :=
          Path.outer_eq_cons around empty
        have same : ∀ t : FileTree, t.base p = t.base next := fun t => by
          rw [base, base, absolute]
        rcases ih inner empty (grounded.outer (same t) split) outerDone with
          ⟨unchanged, _⟩ | ⟨_, opened⟩
        · rw [unchanged] at done ⊢
          exact ensureDirectory_cases rooted done
        · have notParent : name ≠ parentName := by
            rintro rfl
            rw [← List.append_assoc] at split
            obtain ⟨place, leads⟩ := grounded _ _ split
            exact makeDirectory_ne_notFound nonempty split dots leads missing
          have evolved : Evolves (fun _ => False) t (t.ensureWithin next more).tree :=
            evolves_of_made (made_ensureWithin t next more fun _ _ => True.intro)
          rcases ensureDirectory_cases (evolved.rooted rooted) done with ⟨_, there⟩ | ⟨out, new⟩
          · rw [opened.isDirectory_eq_false (same _) split stays notDot notParent] at there
            cases there
          · refine .inr ⟨out, new.opens, ?_, new.bare⟩
            cases found : t.at? out with
            | none => rfl
            | some entry =>
              exact absurd new.new (evolved.grows.at?_ne_none (by simp [found]))
    · have single : t.ensureWithin p (next :: more) = t.ensureDirectory p := by
        rw [ensureWithin]
        split
        next missing' => exact absurd missing' missing
        next => rfl
      rw [single] at done ⊢
      exact ensureDirectory_cases rooted done

theorem exists_opensAt_of_ensureDirectories (rooted : t.Rooted) (nonempty : p ≠ [])
    (done : (t.ensureDirectories p).result = .ok ()) :
    ∃ out, (t.ensureDirectories p).tree.OpensAt p out := by
  have last : ∃ made, Evolves (fun _ => False) t made ∧
      t.ensureDirectories p = made.ensureDirectory p := by
    unfold ensureDirectories at done ⊢
    rw [if_neg nonempty] at done ⊢
    generalize p.outer = outer at done ⊢
    cases outer with
    | nil => exact ⟨t, .refl, rfl⟩
    | cons next more =>
      rw [ensureWithin] at done ⊢
      split at done
      next =>
        split_ifs at done ⊢ with empty
        · cases done
        · have evolved : Evolves (fun _ => False) t (t.ensureWithin next more).tree :=
            evolves_of_made (made_ensureWithin t next more fun _ _ => True.intro)
          exact ⟨_, evolved, (Change.andThen_eq_ok done).2⟩
      next => exact ⟨t, .refl, rfl⟩
  obtain ⟨made, evolved, same⟩ := last
  rw [same] at done ⊢
  rcases ensureDirectory_cases (evolved.rooted rooted) done with ⟨unchanged, there⟩ | ⟨out, new⟩
  · rw [unchanged]
    exact isDirectory_iff.1 there
  · exact ⟨out, new.opens⟩

theorem contains_of_isDirectory (directory : t.isDirectory p = true) : t.contains p = true := by
  rw [isDirectory, decide_eq_true_eq] at directory
  rw [contains, directory]
  rfl

/-- A path that was not there, and of which every `..` stands behind something that was, opens
what is new. -/
theorem opensOnlyNew_of_grounded (rooted : t.Rooted) (nonempty : p ≠ []) (grounded : t.Grounded p)
    (absent : t.contains p = false) : t.OpensOnlyNew p := by
  intro done out opens
  unfold ensureDirectories at done opens
  rw [if_neg nonempty] at done opens
  rcases ensureWithin_cases rooted rfl nonempty grounded done with ⟨_, there⟩ | ⟨fresh, opened⟩
  · rw [contains_of_isDirectory there] at absent
    exact nomatch absent
  · cases opened.opens.locates.symm.trans opens.locates
    exact opened.new

structure Leads (t : FileTree) (p : Path) (out : Location) (target : Path) : Prop where
  opens : t.OpensAt p out
  noLink : ∀ below target, t.at? (out ++ below) ≠ some (.link target)
  isAbsolute : target.isAbsolute = p.isAbsolute
  further : ∃ more, more ≠ [] ∧ names target = names p ++ more ∧
    ∀ name ∈ more, name ≠ parentName

theorem Leads.base_eq {target : Path} (leads : t.Leads p out target) :
    t.base target = t.base p := by
  rw [base, base, leads.isAbsolute]

theorem Leads.evolves {target : Path} {allowed : Location → Prop} (leads : t.Leads p out target)
    (evolved : Evolves allowed t after) : after.Leads p out target where
  opens := leads.opens.grows evolved.grows
  noLink below target found := leads.noLink below target (evolved.link found)
  isAbsolute := leads.isAbsolute
  further := leads.further

def Inside (out place : Location) : Prop := out <+: place ∧ place ≠ out

theorem Leads.inside_of_placeForFile {target : Path} {place : Location}
    (leads : t.Leads p out target) (rooted : t.Rooted)
    (lands : t.placeForFile target = .ok place) : Inside out place := by
  obtain ⟨accepts, spot, rfl, walks⟩ := accepts_of_placeForFile rooted lands
  obtain ⟨more, nonempty, split, downwards⟩ := leads.further
  rw [leads.base_eq, split] at walks
  refine ⟨leads.opens.within leads.noLink nonempty downwards walks, fun here => ?_⟩
  have directory := leads.opens.directory
  rw [← here, accepts.noDirectory] at directory
  exact nomatch directory

end Scaffold.FileTree
