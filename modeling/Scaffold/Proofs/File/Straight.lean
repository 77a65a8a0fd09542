import Scaffold.Proofs.File.Route

/-! Walks that meet no link and never lead upwards. Such a walk ends at the place that its names
spell, and two trees with the same entries below a place are walked alike from there. -/

namespace Scaffold.FileTree

variable {t other : FileTree} {follow : Bool} {links : Nat} {place : Location} {slash : Bool}
  {name : Bytes} {todo : List Bytes} {spot : Spot}

def steps (names : List Bytes) : Location := names.filter (· ≠ [Path.dot])

theorem steps_here : steps ([Path.dot] :: todo) = steps todo :=
  List.filter_cons_of_neg (by simp)

theorem steps_cons (notDot : name ≠ [Path.dot]) : steps (name :: todo) = name :: steps todo :=
  List.filter_cons_of_pos (by simpa using notDot)

structure Straight (t : FileTree) (place : Location) (todo : List Bytes) : Prop where
  downwards : parentName ∉ todo
  noLink : ∀ front, front <+: steps todo → ∀ target, t.at? (place ++ front) ≠ some (.link target)

theorem Straight.here (straight : Straight t place ([Path.dot] :: todo)) :
    Straight t place todo where
  downwards inside := straight.downwards (List.mem_cons_of_mem _ inside)
  noLink front begins := straight.noLink front (by rwa [steps_here])

theorem Straight.down (straight : Straight t place (name :: todo)) (notDot : name ≠ [Path.dot]) :
    Straight t (place ++ [name]) todo where
  downwards inside := straight.downwards (List.mem_cons_of_mem _ inside)
  noLink front begins := by
    rw [List.append_assoc]
    apply straight.noLink
    rw [steps_cons notDot]
    exact List.cons_prefix_cons.2 ⟨rfl, begins⟩

theorem Straight.no_link (straight : Straight t place (name :: todo)) (notDot : name ≠ [Path.dot])
    (target : Path) : t.at? (place ++ [name]) ≠ some (.link target) := by
  apply straight.noLink
  rw [steps_cons notDot]
  exact List.cons_prefix_cons.2 ⟨rfl, List.nil_prefix⟩

/-- The walk ends at the place that the names spell. -/
theorem Route.place_eq (route : Route t follow links place slash todo spot)
    (straight : Straight t place todo) : spot.place = place ++ steps todo := by
  induction route with
  | arrived => exact (List.append_nil _).symm
  | here _ _ ih =>
    rw [steps_here]
    exact ih straight.here
  | up => exact absurd List.mem_cons_self straight.downwards
  | free _ plain =>
    rw [steps_cons plain.notDot]
    rfl
  | last _ plain link => exact absurd link (straight.no_link plain.notDot _)
  | link _ plain link => exact absurd link (straight.no_link plain.notDot _)
  | down _ plain _ _ _ ih =>
    rw [ih (straight.down plain.notDot), steps_cons plain.notDot, List.append_assoc]
    rfl

def SameBelow (t other : FileTree) (place : Location) : Prop :=
  ∀ below, other.at? (place ++ below) = t.at? (place ++ below)

theorem SameBelow.at? (same : SameBelow t other place) : other.at? place = t.at? place := by
  simpa using same []

theorem SameBelow.down (same : SameBelow t other place) (name : Bytes) :
    SameBelow t other (place ++ [name]) := fun below => by
  rw [List.append_assoc]
  exact same ([name] ++ below)

/-- Where no link is below the place, the walks down from there do not differ, whatever number of
links is left. -/
theorem SameBelow.walk_eq (same : SameBelow t other place)
    (noLink : ∀ below target, t.at? (place ++ below) ≠ some (.link target))
    (downwards : parentName ∉ todo) (links' : Nat) :
    other.walk follow links' place slash todo = t.walk follow links place slash todo := by
  have directory : other.isDirectoryAt place = t.isDirectoryAt place := by
    rw [isDirectoryAt, isDirectoryAt, same.at?]
  induction todo generalizing place with
  | nil => rw [walk, walk, directory]
  | cons name rest ih =>
    have onwards : parentName ∉ rest := fun inside => downwards (List.mem_cons_of_mem _ inside)
    have notParent : name ≠ parentName := fun same => downwards (same ▸ List.mem_cons_self)
    by_cases open' : t.isDirectoryAt place = true
    · by_cases dot : name = [Path.dot]
      · rw [dot, walk_here (directory.trans open'), walk_here open']
        exact ih same noLink onwards directory
      · by_cases short : name.length ≤ nameLimit
        · have plain : IsPlain name := ⟨dot, notParent, short⟩
          have noLink' : ∀ below target, t.at? (place ++ [name] ++ below) ≠ some (.link target) :=
            fun below => by
              rw [List.append_assoc]
              exact noLink _
          have behind := ih (same.down name) noLink' onwards
            (by rw [isDirectoryAt, isDirectoryAt, (same.down name).at?])
          rw [walk_plain (directory.trans open') plain, walk_plain open' plain,
            (same.down name).at?]
          cases found : t.at? (place ++ [name]) with
          | none => rfl
          | some entry =>
            cases entry with
            | directory => exact behind
            | file content => exact behind
            | link target => exact absurd found (noLink [name] target)
        · rw [walk, walk, directory]
          simp only [if_neg dot, if_neg notParent, if_pos (Nat.lt_of_not_le short)]
    · rw [walk, walk, directory]
      simp only [Bool.not_eq_true] at open'
      simp only [open', Bool.not_false, if_pos]

end Scaffold.FileTree
