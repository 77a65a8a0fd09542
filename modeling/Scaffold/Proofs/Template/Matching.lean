import Scaffold.Proofs.Template.Run

/-! Which `[endif]` closes which `[if]`, said of the places of the pieces and for any order of
directives: an `[endif]` closes the nearest `[if]` before it that is still open. The open
blocks of a run are the `[if]`s that are open at that place, with the last one in front. -/

namespace Scaffold.Template.Matching

def IfAt (ps : List Piece) (i : Nat) (condition : String) : Prop :=
  ∃ source, ps[i]? = some (.directive (.ifHolds condition) source)

def ElseAt (ps : List Piece) (j : Nat) : Prop :=
  ∃ source, ps[j]? = some (.directive .elseBranch source)

def EndIfAt (ps : List Piece) (j : Nat) : Prop :=
  ∃ source, ps[j]? = some (.directive .endIf source)

/-- The `[endif]` at `j` closes the `[if]` at `i`: no `[endif]` before `j` does, and every
`[if]` between the two is closed before `j`. -/
def Closes (ps : List Piece) (i j : Nat) : Prop :=
  (∃ condition, IfAt ps i condition) ∧ EndIfAt ps j ∧ i < j ∧
    (∀ k, k < j → ¬Closes ps i k) ∧
    ∀ m condition, i < m → m < j → IfAt ps m condition → ∃ k, ∃ _ : k < j, Closes ps m k
termination_by j

/-- The `[if]` at `i` lies before place `n`, and nothing before `n` closes it. -/
def IsOpen (ps : List Piece) (i n : Nat) : Prop :=
  (∃ condition, IfAt ps i condition) ∧ i < n ∧ ∀ k, k < n → ¬Closes ps i k

def IsInnermost (ps : List Piece) (i n : Nat) : Prop :=
  IsOpen ps i n ∧ ∀ m, IsOpen ps m n → m ≤ i

def InElse (ps : List Piece) (i n : Nat) : Prop :=
  ∃ j, i < j ∧ j < n ∧ ElseAt ps j ∧ IsInnermost ps i j

/-- Place `n` is in the branch that was taken of each block that is open there. -/
def Shown (flags : FlagSet) (ps : List Piece) (n : Nat) : Prop :=
  ∀ i condition, IfAt ps i condition → IsOpen ps i n →
    ((Condition.evaluate flags condition).value = true ↔ ¬InElse ps i n)

theorem closes_iff (ps : List Piece) (i j : Nat) :
    Closes ps i j ↔ EndIfAt ps j ∧ IsInnermost ps i j := by
  rw [Closes]
  constructor
  · rintro ⟨opens, ends, before, unclosed, between⟩
    refine ⟨ends, ⟨opens, before, unclosed⟩, ?_⟩
    intro m ⟨⟨condition, isIf⟩, earlier, stillOpen⟩
    by_contra later
    obtain ⟨k, bound, closed⟩ := between m condition (by omega) earlier isIf
    exact stillOpen k bound closed
  · rintro ⟨ends, ⟨opens, before, unclosed⟩, innermost⟩
    refine ⟨opens, ends, before, unclosed, ?_⟩
    intro m condition later earlier isIf
    by_contra notClosed
    have isOpen : IsOpen ps m j :=
      ⟨⟨condition, isIf⟩, earlier, fun k bound closed => notClosed ⟨k, bound, closed⟩⟩
    have := innermost m isOpen
    omega

theorem not_isOpen_zero (ps : List Piece) (i : Nat) : ¬IsOpen ps i 0 :=
  fun isOpen => Nat.not_lt_zero i isOpen.2.1

theorem isOpen_succ (ps : List Piece) (i n : Nat) :
    IsOpen ps i (n + 1) ↔
      (IsOpen ps i n ∧ ¬Closes ps i n) ∨ (i = n ∧ ∃ condition, IfAt ps n condition) := by
  constructor
  · rintro ⟨opens, before, unclosed⟩
    by_cases last : i = n
    · exact Or.inr ⟨last, last ▸ opens⟩
    · exact Or.inl ⟨⟨opens, by omega, fun k bound => unclosed k (by omega)⟩,
        unclosed n (Nat.lt_succ_self n)⟩
  · rintro (⟨⟨opens, before, unclosed⟩, notNow⟩ | ⟨rfl, opens⟩)
    · refine ⟨opens, by omega, fun k bound closed => ?_⟩
      by_cases last : k = n
      · exact notNow (last ▸ closed)
      · exact unclosed k (by omega) closed
    · refine ⟨opens, Nat.lt_succ_self i, fun k bound closed => ?_⟩
      have later := ((closes_iff ps i k).1 closed).2.1.2.1
      omega

theorem inElse_succ (ps : List Piece) (i n : Nat) :
    InElse ps i (n + 1) ↔ InElse ps i n ∨ (ElseAt ps n ∧ IsInnermost ps i n) := by
  constructor
  · rintro ⟨j, after, before, isElse, innermost⟩
    by_cases last : j = n
    · exact Or.inr (last ▸ ⟨isElse, innermost⟩)
    · exact Or.inl ⟨j, after, by omega, isElse, innermost⟩
  · rintro (⟨j, after, before, isElse, innermost⟩ | ⟨isElse, innermost⟩)
    · exact ⟨j, after, by omega, isElse, innermost⟩
    · exact ⟨n, innermost.1.2.1, Nat.lt_succ_self n, isElse, innermost⟩

structure Tracks (flags : FlagSet) (ps : List Piece) (n : Nat)
    (blocks : List (Nat × Block)) : Prop where
  descending : (blocks.map Prod.fst).Pairwise (· > ·)
  isOpen : ∀ i, i ∈ blocks.map Prod.fst ↔ IsOpen ps i n
  condition : ∀ entry ∈ blocks, IfAt ps entry.1 entry.2.condition
  holds : ∀ entry ∈ blocks,
    entry.2.holds = (Condition.evaluate flags entry.2.condition).value
  inElse : ∀ entry ∈ blocks, (entry.2.inElse = true ↔ InElse ps entry.1 n)

namespace Tracks

variable {flags : FlagSet} {ps : List Piece} {n : Nat} {blocks : List (Nat × Block)}

theorem innermost_cons {i : Nat} {block : Block}
    (tracks : Tracks flags ps n ((i, block) :: blocks)) (m : Nat) :
    IsInnermost ps m n ↔ m = i := by
  have front : IsOpen ps i n := (tracks.isOpen i).1 (by simp)
  have greatest : ∀ m, IsOpen ps m n → m ≤ i := by
    intro m isOpen
    have known := (tracks.isOpen m).2 isOpen
    have order := tracks.descending
    rw [List.map_cons, List.pairwise_cons] at order
    rcases List.mem_cons.1 known with same | behind
    · exact Nat.le_of_eq same
    · exact Nat.le_of_lt (order.1 m behind)
  constructor
  · rintro ⟨isOpen, last⟩
    exact Nat.le_antisymm (greatest m isOpen) (last i front)
  · rintro rfl
    exact ⟨front, greatest⟩

theorem not_innermost (tracks : Tracks flags ps n []) (m : Nat) : ¬IsInnermost ps m n := by
  intro innermost
  have known := (tracks.isOpen m).2 innermost.1
  simp at known

theorem keep (tracks : Tracks flags ps n blocks) (noIf : ∀ condition, ¬IfAt ps n condition)
    (noElse : ∀ i, ElseAt ps n → ¬IsInnermost ps i n) (noEnd : ∀ i, ¬Closes ps i n) :
    Tracks flags ps (n + 1) blocks where
  descending := tracks.descending
  isOpen := by
    intro i
    rw [tracks.isOpen, isOpen_succ]
    constructor
    · intro isOpen
      exact Or.inl ⟨isOpen, noEnd i⟩
    · rintro (⟨isOpen, _⟩ | ⟨_, condition, isIf⟩)
      · exact isOpen
      · exact absurd isIf (noIf condition)
  condition := tracks.condition
  holds := tracks.holds
  inElse := by
    intro entry member
    rw [tracks.inElse entry member, inElse_succ]
    constructor
    · exact Or.inl
    · rintro (earlier | ⟨isElse, innermost⟩)
      · exact earlier
      · exact absurd innermost (noElse entry.1 isElse)

theorem push (tracks : Tracks flags ps n blocks) {condition : String}
    (isIf : IfAt ps n condition) (noElse : ¬ElseAt ps n) (noEnd : ¬EndIfAt ps n) :
    Tracks flags ps (n + 1)
      ((n, ⟨condition, (Condition.evaluate flags condition).value, false⟩) :: blocks) where
  descending := by
    rw [List.map_cons, List.pairwise_cons]
    refine ⟨fun i member => ?_, tracks.descending⟩
    exact ((tracks.isOpen i).1 member).2.1
  isOpen := by
    intro i
    rw [List.map_cons, List.mem_cons, tracks.isOpen, isOpen_succ]
    constructor
    · rintro (same | isOpen)
      · exact Or.inr ⟨same, condition, isIf⟩
      · exact Or.inl ⟨isOpen, fun closed => noEnd ((closes_iff ps i n).1 closed).1⟩
    · rintro (⟨isOpen, _⟩ | ⟨same, _⟩)
      · exact Or.inr isOpen
      · exact Or.inl same
  condition := by
    intro entry member
    rcases List.mem_cons.1 member with rfl | behind
    · exact isIf
    · exact tracks.condition entry behind
  holds := by
    intro entry member
    rcases List.mem_cons.1 member with rfl | behind
    · rfl
    · exact tracks.holds entry behind
  inElse := by
    intro entry member
    rw [inElse_succ]
    rcases List.mem_cons.1 member with rfl | behind
    · have fresh : ¬InElse ps n n := fun ⟨j, after, before, _⟩ => by omega
      simp [fresh, noElse]
    · rw [tracks.inElse entry behind]
      simp [noElse]

theorem turn {i : Nat} {block : Block} (tracks : Tracks flags ps n ((i, block) :: blocks))
    (isElse : ElseAt ps n) (noIf : ∀ condition, ¬IfAt ps n condition)
    (noEnd : ¬EndIfAt ps n) :
    Tracks flags ps (n + 1) ((i, { block with inElse := true }) :: blocks) where
  descending := tracks.descending
  isOpen := by
    intro m
    have known := tracks.isOpen m
    rw [List.map_cons] at known ⊢
    rw [known, isOpen_succ]
    constructor
    · intro isOpen
      exact Or.inl ⟨isOpen, fun closed => noEnd ((closes_iff ps m n).1 closed).1⟩
    · rintro (⟨isOpen, _⟩ | ⟨_, condition, isIf⟩)
      · exact isOpen
      · exact absurd isIf (noIf condition)
  condition := by
    intro entry member
    rcases List.mem_cons.1 member with rfl | behind
    · exact tracks.condition (i, block) (List.mem_cons_self ..)
    · exact tracks.condition entry (List.mem_cons_of_mem _ behind)
  holds := by
    intro entry member
    rcases List.mem_cons.1 member with rfl | behind
    · exact tracks.holds (i, block) (List.mem_cons_self ..)
    · exact tracks.holds entry (List.mem_cons_of_mem _ behind)
  inElse := by
    intro entry member
    rw [inElse_succ, tracks.innermost_cons]
    rcases List.mem_cons.1 member with rfl | behind
    · simp [isElse]
    · -- the blocks behind the front one are opened at earlier places
      have order := tracks.descending
      rw [List.map_cons, List.pairwise_cons] at order
      have earlier := order.1 entry.1 (List.mem_map_of_mem behind)
      have other : entry.1 ≠ i := Nat.ne_of_lt earlier
      rw [tracks.inElse entry (List.mem_cons_of_mem _ behind)]
      simp [other]

theorem pop {i : Nat} {block : Block} (tracks : Tracks flags ps n ((i, block) :: blocks))
    (ends : EndIfAt ps n) (noIf : ∀ condition, ¬IfAt ps n condition) (noElse : ¬ElseAt ps n) :
    Tracks flags ps (n + 1) blocks where
  descending := (List.pairwise_cons.1 tracks.descending).2
  isOpen := by
    intro m
    have known := tracks.isOpen m
    have order := (List.pairwise_cons.1 tracks.descending).1
    rw [List.map_cons, List.mem_cons] at known
    rw [isOpen_succ, ← known, closes_iff, tracks.innermost_cons]
    constructor
    · intro behind
      have earlier := order m behind
      exact Or.inl ⟨Or.inr behind, fun closed => Nat.ne_of_lt earlier closed.2⟩
    · rintro (⟨same | behind, notClosed⟩ | ⟨_, condition, isIf⟩)
      · exact absurd ⟨ends, same⟩ notClosed
      · exact behind
      · exact absurd isIf (noIf condition)
  condition := fun entry member => tracks.condition entry (List.mem_cons_of_mem _ member)
  holds := fun entry member => tracks.holds entry (List.mem_cons_of_mem _ member)
  inElse := by
    intro entry member
    rw [tracks.inElse entry (List.mem_cons_of_mem _ member), inElse_succ]
    simp [noElse]

/-- One piece further, the places go with the open blocks behind that piece. -/
theorem step (tracks : Tracks flags ps n blocks) {piece : Piece} (here : ps[n]? = some piece) :
    ∃ next, Tracks flags ps (n + 1) next ∧
      next.map Prod.snd = piece.blocksAfter flags (blocks.map Prod.snd) := by
  cases piece with
  | plain c =>
    refine ⟨blocks, tracks.keep ?_ ?_ ?_, rfl⟩
    · simp [IfAt, here]
    · simp [ElseAt, here]
    · simp [closes_iff, EndIfAt, here]
  | directive d source =>
    cases d with
    | ifHolds condition =>
      refine ⟨_, tracks.push ⟨source, here⟩ ?_ ?_, rfl⟩
      · simp [ElseAt, here]
      · simp [EndIfAt, here]
    | elseBranch =>
      have noIf : ∀ condition, ¬IfAt ps n condition := by simp [IfAt, here]
      have noEnd : ¬EndIfAt ps n := by simp [EndIfAt, here]
      cases blocks with
      | nil =>
        refine ⟨[], tracks.keep noIf (fun i _ => tracks.not_innermost i) ?_, rfl⟩
        simp [closes_iff, noEnd]
      | cons entry outer => exact ⟨_, tracks.turn ⟨source, here⟩ noIf noEnd, rfl⟩
    | endIf =>
      have noIf : ∀ condition, ¬IfAt ps n condition := by simp [IfAt, here]
      have noElse : ¬ElseAt ps n := by simp [ElseAt, here]
      cases blocks with
      | nil =>
        refine ⟨[], tracks.keep noIf (fun i isElse => absurd isElse noElse) ?_, rfl⟩
        simp [closes_iff, tracks.not_innermost]
      | cons entry outer => exact ⟨_, tracks.pop ⟨source, here⟩ noIf noElse, rfl⟩

end Tracks

theorem tracks_start (flags : FlagSet) (ps : List Piece) : Tracks flags ps 0 [] where
  descending := List.Pairwise.nil
  isOpen := by
    intro i
    simp [not_isOpen_zero]
  condition := by simp
  holds := by simp
  inElse := by simp

theorem exists_tracks (flags : FlagSet) (ps : List Piece) (n : Nat) (bound : n ≤ ps.length) :
    ∃ blocks, Tracks flags ps n blocks ∧
      blocks.map Prod.snd = (Renderer.start.run flags (ps.take n)).value.blocks := by
  induction n with
  | zero => exact ⟨[], tracks_start flags ps, rfl⟩
  | succ n ih =>
    obtain ⟨blocks, tracks, same⟩ := ih (by omega)
    have here : ps[n]? = some ps[n] := List.getElem?_eq_getElem bound
    obtain ⟨next, tracksNext, sameNext⟩ := tracks.step here
    refine ⟨next, tracksNext, ?_⟩
    rw [sameNext, same, List.take_add_one, here, Option.toList_some, Renderer.run_append,
      Renderer.run_cons, Renderer.run_nil, Renderer.step_blocks]

theorem IfAt.condition_unique {ps : List Piece} {i : Nat} {first second : String}
    (isFirst : IfAt ps i first) (isSecond : IfAt ps i second) : first = second := by
  obtain ⟨_, here⟩ := isFirst
  obtain ⟨_, also⟩ := isSecond
  rw [here] at also
  cases also
  rfl

theorem visible_iff_shown (flags : FlagSet) (ps : List Piece) (n : Nat)
    (bound : n ≤ ps.length) :
    (Renderer.start.run flags (ps.take n)).value.visible = true ↔ Shown flags ps n := by
  obtain ⟨blocks, tracks, same⟩ := exists_tracks flags ps n bound
  have consistent := Renderer.consistent_start.run flags (ps.take n)
  rw [consistent, ← same, List.all_eq_true]
  constructor
  · intro active i condition isIf isOpen
    obtain ⟨entry, member, place⟩ := List.mem_map.1 ((tracks.isOpen i).2 isOpen)
    subst place
    have known := IfAt.condition_unique (tracks.condition entry member) isIf
    have here := (Block.isActive_iff _).1 (active entry.2 (List.mem_map_of_mem member))
    rw [tracks.holds entry member, tracks.inElse entry member, known] at here
    exact here
  · intro shown block known
    obtain ⟨entry, member, rfl⟩ := List.mem_map.1 known
    have isOpen := (tracks.isOpen entry.1).1 (List.mem_map_of_mem member)
    rw [Block.isActive_iff, tracks.holds entry member, tracks.inElse entry member]
    exact shown entry.1 _ (tracks.condition entry member) isOpen

end Scaffold.Template.Matching
