import Scaffold.Proofs.Generation.Apart

/-! How an operation ends. It makes directories at its target or around it, and then either it
fails and leaves it at that, or the target is there: a directory, or a file with the content of the
operation. -/

namespace Scaffold

namespace FileTree

variable {t after : FileTree} {p : Path} {place : Location} {content : ByteArray}

theorem Route.put_file {links : Nat} {ends : Bool} {todo : List Bytes} {directory : Location}
    {name : Bytes} (content : ByteArray)
    (route : Route t true links place ends todo (.free directory name false)) :
    Route (t.put (directory ++ [name]) (.file content)) true links place ends todo
      (.taken (directory ++ [name])) := by
  have grows : Grows t (t.put (directory ++ [name]) (.file content)) :=
    grows_put_of_nothing route.of_free.2.2 _
  generalize whole : Spot.free directory name false = spot at route
  induction route with
  | arrived | last => exact nomatch whole
  | here around _ ih => exact .here (grows.isDirectoryAt around) (ih whole)
  | up around _ ih => exact .up (grows.isDirectoryAt around) (ih whole)
  | free around plain nothing =>
    cases whole
    have put := at?_put_self t (.file content)
      (List.append_ne_nil_of_right_ne_nil directory (List.cons_ne_nil name []))
    exact .down (grows.isDirectoryAt around) plain put (fun _ same => nomatch same)
      (.arrived fun slash => nomatch slash)
  | link around plain link followed _ ih =>
    exact .link (grows.isDirectoryAt around) plain (grows.link link) followed (ih whole)
  | down around plain found noLink _ ih =>
    obtain ⟨later, there, noLink⟩ := grows.at?_of_noLink found noLink
    exact .down (grows.isDirectoryAt around) plain there noLink (ih whole)

theorem locate_put_of_placeForFile (rooted : t.Rooted) (lands : t.placeForFile p = .ok place)
    (content : ByteArray) : (t.put place (.file content)).locate p = .ok place := by
  have accepts := (accepts_of_placeForFile rooted lands).1
  obtain ⟨start, starts, found⟩ := bind_eq_ok_iff.1 lands
  obtain ⟨rfl, nonempty⟩ := eq_base_of_origin starts
  split_ifs at found with ends
  · obtain ⟨spot, _, found⟩ := bind_eq_ok_iff.1 found
    cases spot <;> exact nomatch found
  · obtain ⟨spot, walks, found⟩ := bind_eq_ok_iff.1 found
    refine locate_eq_ok_iff.2 ⟨starts, ?_⟩
    rw [Bool.eq_false_iff.2 ends]
    have route := route_of_walk walks
    cases spot with
    | taken there =>
      dsimp only at found
      split_ifs at found
      cases found
      exact route.grows (grows_put_file accepts content)
    | free directory name slash =>
      dsimp only at found
      split_ifs at found with slashed
      cases found
      rw [Bool.eq_false_iff.2 slashed] at route
      exact route.put_file content

theorem read_eq_ok_iff : t.read p = .ok content ↔
    ∃ place, t.locate p = .ok place ∧ t.at? place = some (.file content) := by
  unfold FileTree.read
  constructor
  · intro reads
    obtain ⟨place, located, reads⟩ := bind_eq_ok_iff.1 reads
    refine ⟨place, located, ?_⟩
    split at reads
    next found =>
      cases reads
      exact found
    all_goals exact nomatch reads
  · rintro ⟨place, located, found⟩
    refine bind_eq_ok_iff.2 ⟨place, located, ?_⟩
    rw [found]

theorem regular_eq_ok_iff : t.regular p = .ok (place, content) ↔
    t.locate p = .ok place ∧ t.at? place = some (.file content) := by
  unfold regular
  constructor
  · intro reads
    obtain ⟨place, located, reads⟩ := bind_eq_ok_iff.1 reads
    split at reads
    next found =>
      cases reads
      exact ⟨located, found⟩
    next => exact nomatch reads
  · rintro ⟨located, found⟩
    refine bind_eq_ok_iff.2 ⟨place, located, ?_⟩
    rw [found]

end FileTree

namespace Operation

open FileTree

variable {t : FileTree} {source : Path} {op : Operation}

def directories : Operation → List Path
  | .create target => target :: target.outer
  | .copy target | .write target _ => target.outer

def putsFile : Operation → Bool
  | .create _ => false
  | .copy _ | .write _ _ => true

inductive Ends (source : Path) (made : FileTree) : Operation → Change → Prop
  | failed (op : Operation) (fault : FileFault) : Ends source made op (.failed made fault)
  | created {target : Path} {place : Location} (opens : made.OpensAt target place) :
      Ends source made (.create target) (.done made)
  | written {target : Path} {text : String} {place : Location}
      (lands : made.placeForFile target = .ok place) :
      Ends source made (.write target text) (.done (made.put place (.file text.toUTF8)))
  | copied {target : Path} {place origin : Location} {content : ByteArray}
      (reads : made.regular source = .ok (origin, content))
      (lands : made.placeForFile target = .ok place) :
      Ends source made (.copy target)
        (.done (made.put place (.file (if place = origin then .empty else content))))

theorem ends_of_error {change : Change} {fault : FileFault}
    (failed : change.result = .error fault) :
    Ends source change.tree op change := by
  obtain ⟨tree, result⟩ := change
  cases failed
  exact .failed op fault

theorem ends_create {target : Path} (rooted : t.Rooted) (nonempty : target ≠ []) :
    Ends source (t.ensureDirectories target).tree (.create target)
      (t.ensureDirectories target) := by
  cases done : (t.ensureDirectories target).result with
  | error fault => exact ends_of_error done
  | ok _ =>
    obtain ⟨place, opens⟩ := exists_opensAt_of_ensureDirectories rooted nonempty done
    generalize t.ensureDirectories target = change at done opens ⊢
    obtain ⟨tree, result⟩ := change
    cases done
    exact .created opens

theorem ends_write (made : FileTree) (target : Path) (text : String) :
    Ends source made (.write target text) (Change.of made (made.write target text.toUTF8)) := by
  unfold FileTree.write
  cases lands : made.placeForFile target with
  | error fault => exact .failed _ fault
  | ok place => exact .written lands

theorem ends_copy (made : FileTree) (target : Path) :
    Ends source made (.copy target) (Change.of made (made.copy source target)) := by
  unfold FileTree.copy
  cases reads : made.regular source with
  | error fault => exact .failed _ fault
  | ok regular =>
    obtain ⟨origin, content⟩ := regular
    cases lands : made.placeForFile target with
    | error fault => exact .failed _ fault
    | ok place => exact .copied reads lands

theorem ends_andThen {change : Change} {next : FileTree → Change}
    (ends : Ends source change.tree op (next change.tree)) :
    Ends source change.tree op (change.andThen next) := by
  unfold Change.andThen
  cases done : change.result with
  | ok => exact ends
  | error fault => exact ends_of_error done

theorem made_ensureAround_outer (t : FileTree) (target : Path) :
    Made (· ∈ target.outer) t (ensureAround t target).tree := by
  unfold ensureAround
  cases parent : target.parent? with
  | none => exact .none t
  | some directory =>
    obtain ⟨more, around⟩ := List.head?_eq_some_iff.1 parent
    dsimp only
    by_cases empty : directory = []
    · rw [ensureDirectories, if_pos empty]
      exact .none t
    · rw [ensureDirectories, if_neg empty, (Path.outer_eq_cons around empty).1, around]
      exact made_ensureWithin t directory more fun _ member => member

theorem exists_ends (rooted : t.Rooted) (source : Path) (nonempty : op.target ≠ []) :
    ∃ made, Made (· ∈ op.directories) t made ∧ Ends source made op (op.apply t source) := by
  cases op with
  | create target =>
    change target ≠ [] at nonempty
    refine ⟨_, ?_, ends_create rooted nonempty⟩
    unfold ensureDirectories
    rw [if_neg nonempty]
    exact made_ensureWithin t target target.outer fun _ member => member
  | copy target =>
    refine ⟨_, made_ensureAround_outer t target, ?_⟩
    rw [apply, copyFile]
    apply ends_andThen
    exact ends_copy _ target
  | write target text =>
    refine ⟨_, made_ensureAround_outer t target, ?_⟩
    rw [apply, writeFile]
    apply ends_andThen
    exact ends_write _ target text

theorem mem_directories_iff {q : Path} :
    q ∈ op.directories ↔ q ∈ op.target.outer ∨ op = .create q := by
  cases op with
  | create target => simp [directories, Operation.target, or_comm, eq_comm]
  | copy target | write target => simp [directories, Operation.target]

theorem approaches_of_mem_directories {q : Path} (member : q ∈ op.directories) :
    q.Approaches op.target := by
  rcases mem_directories_iff.1 member with around | rfl
  · exact Path.outwards_approaches op.target op.target (.refl op.target) q around
  · exact .refl q

end Operation

end Scaffold
