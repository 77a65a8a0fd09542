import Scaffold.Proofs.Generation.Deciding
import Scaffold.Proofs.Generation.Visiting

/-! The entries of a walk in turn, each with the tree as it is at its turn, and the operations among
them that succeed. They are what the walk lists, and an entry without a success changes nothing that
is there. -/

namespace Scaffold

open FileTree

namespace Walk

variable {j : Job} {w : Walk} {source : Path} {op : Operation}

def history (j : Job) (w : Walk) : List Path → List (Path × FileTree)
  | [] => []
  | source :: rest => (source, w.tree) :: history j (w.enter j source) rest

def success? (j : Job) (turn : Path × FileTree) : Option (Path × Operation) :=
  match (j.process turn.2 turn.1).value with
  | .ok (some op) =>
    match (op.apply turn.2 turn.1).result with
    | .ok () => some (turn.1, op)
    | .error _ => none
  | _ => none

def listing (step : Path × Operation) : Generated := ⟨step.2.action, step.2.target⟩

theorem map_fst_history (w : Walk) (sources : List Path) :
    (history j w sources).map Prod.fst = sources := by
  induction sources generalizing w with
  | nil => rfl
  | cons source rest ih =>
    rw [history, List.map_cons, ih]

theorem fst_of_success? {turn : Path × FileTree} {step : Path × Operation}
    (success : success? j turn = some step) : step.1 = turn.1 := by
  unfold success? at success
  split at success
  next =>
    split at success
    next =>
      cases success
      rfl
    next => exact nomatch success
  next => exact nomatch success

theorem map_fst_success_sublist (turns : List (Path × FileTree)) :
    ((turns.filterMap (success? j)).map Prod.fst).Sublist (turns.map Prod.fst) := by
  induction turns with
  | nil => exact .refl []
  | cons turn rest ih =>
    rw [List.filterMap_cons, List.map_cons]
    cases success : success? j turn with
    | none => exact ih.cons _
    | some step =>
      rw [← fst_of_success? success]
      exact ih.cons_cons _

inductive Entered (j : Job) (w : Walk) (source : Path) : Option (Path × Operation) → Walk → Prop
  | unchanged (undecided : ∀ op, (j.process w.tree source).value ≠ .ok (some op)) :
      Entered j w source none w
  | failed {op : Operation} {fault : FileFault} {tree : FileTree}
      (decided : (j.process w.tree source).value = .ok (some op))
      (applies : op.apply w.tree source = .failed tree fault) :
      Entered j w source none { w with tree := tree }
  | done {op : Operation} {tree : FileTree}
      (decided : (j.process w.tree source).value = .ok (some op))
      (applies : op.apply w.tree source = .done tree) :
      Entered j w source (some (source, op))
        { w with tree := tree, generated := w.generated ++ [listing (source, op)] }

theorem entered (j : Job) (w : Walk) (source : Path) :
    Entered j w source (success? j (source, w.tree)) (w.enter j source) := by
  unfold success? enter entry
  rw [Recorded.value_bind]
  dsimp only
  cases decided : (j.process w.tree source).value with
  | error e => exact .unchanged fun op same => nomatch decided.symm.trans same
  | ok decision =>
    cases decision with
    | none => exact .unchanged fun op same => nomatch decided.symm.trans same
    | some op =>
      dsimp only [applied]
      cases result : (op.apply w.tree source).result with
      | error fault =>
        have applies : op.apply w.tree source = .failed (op.apply w.tree source).tree fault := by
          rw [Change.failed, ← result]
        exact .failed decided applies
      | ok _ =>
        have applies : op.apply w.tree source = .done (op.apply w.tree source).tree := by
          rw [Change.done, ← result]
        exact .done decided applies

theorem generated_foldl_enter (w : Walk) (sources : List Path) :
    (sources.foldl (enter j) w).generated =
      w.generated ++ ((history j w sources).filterMap (success? j)).map listing := by
  induction sources generalizing w with
  | nil => exact (List.append_nil _).symm
  | cons source rest ih =>
    rw [List.foldl_cons, ih, history, List.filterMap_cons]
    have step := entered j w source
    generalize w.enter j source = after at step ⊢
    generalize success? j (source, w.tree) = result at step ⊢
    cases step with
    | unchanged => rfl
    | failed => rfl
    | done =>
      rw [List.append_assoc]
      rfl

/-- An entry without a success goes unlisted and stops nothing, and what is there stays as it is. -/
theorem enter_of_success?_eq_none (rooted : w.tree.Rooted)
    (fails : success? j (source, w.tree) = none) :
    (w.enter j source).generated = w.generated ∧ (w.enter j source).failure = w.failure ∧
      ∀ place entry, w.tree.at? place = some entry →
        (w.enter j source).tree.at? place = some entry := by
  have step := entered j w source
  rw [fails] at step
  generalize w.enter j source = after at step ⊢
  cases step with
  | unchanged => exact ⟨rfl, rfl, fun _ _ found => found⟩
  | @failed op fault tree decided applies =>
    refine ⟨rfl, rfl, fun place entry found => ?_⟩
    obtain ⟨made, makes, ends⟩ := op.exists_ends rooted source (Job.target_ne_nil decided)
    have evolved : Evolves (fun _ => False) w.tree made := evolves_of_made makes
    rw [applies] at ends
    cases ends
    exact evolved.keeps (fun impossible => impossible) found

end Walk

end Scaffold
