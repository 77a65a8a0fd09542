/-! When a computation that may fail succeeds, and when it fails. -/

namespace Scaffold

variable {ε α β : Type} {x : Except ε α} {b : β} {e : ε}

theorem bind_eq_ok_iff {f : α → Except ε β} :
    x.bind f = .ok b ↔ ∃ a, x = .ok a ∧ f a = .ok b := by
  cases x with
  | error e => simp [Except.bind]
  | ok a => simp [Except.bind]

theorem bind_eq_error_iff {f : α → Except ε β} :
    x.bind f = .error e ↔ x = .error e ∨ ∃ a, x = .ok a ∧ f a = .error e := by
  cases x with
  | error e => simp [Except.bind]
  | ok a => simp [Except.bind]

theorem map_eq_ok_iff {f : α → β} : x.map f = .ok b ↔ ∃ a, x = .ok a ∧ f a = b := by
  cases x with
  | error e => simp [Except.map]
  | ok a => simp [Except.map]

theorem map_eq_error_iff {f : α → β} : x.map f = .error e ↔ x = .error e := by
  cases x with
  | error e => simp [Except.map]
  | ok a => simp [Except.map]

section Lists

variable {f : α → Except ε β} {xs : List α} {ys : List β}

theorem mapM_cons_eq (a : α) (xs : List α) :
    (a :: xs).mapM f = (f a).bind fun b => (xs.mapM f).map (b :: ·) := by
  rw [List.mapM_cons]
  cases f a with
  | error e => rfl
  | ok b => cases xs.mapM f <;> rfl

theorem mem_of_mapM_eq_ok (all : xs.mapM f = .ok ys) : b ∈ ys ↔ ∃ a ∈ xs, f a = .ok b := by
  induction xs generalizing ys with
  | nil =>
    cases all
    simp
  | cons a xs ih =>
    rw [mapM_cons_eq] at all
    obtain ⟨first, here, behind⟩ := bind_eq_ok_iff.1 all
    obtain ⟨rest, later, rfl⟩ := map_eq_ok_iff.1 behind
    rw [List.mem_cons, ih later]
    constructor
    · rintro (rfl | ⟨x, member, same⟩)
      · exact ⟨a, List.mem_cons_self, here⟩
      · exact ⟨x, List.mem_cons_of_mem a member, same⟩
    · rintro ⟨x, member, same⟩
      rcases List.mem_cons.1 member with rfl | inside
      · exact .inl (Except.ok.inj (same.symm.trans here))
      · exact .inr ⟨x, inside, same⟩

theorem exists_mapM_eq_ok_iff : (∃ ys, xs.mapM f = .ok ys) ↔ ∀ a ∈ xs, ∃ b, f a = .ok b := by
  induction xs with
  | nil => exact iff_of_true ⟨[], rfl⟩ fun _ member => nomatch member
  | cons a xs ih =>
    simp only [mapM_cons_eq, bind_eq_ok_iff, map_eq_ok_iff, List.forall_mem_cons, ← ih]
    constructor
    · rintro ⟨_, first, here, rest, later, rfl⟩
      exact ⟨⟨first, here⟩, rest, later⟩
    · rintro ⟨⟨first, here⟩, rest, later⟩
      exact ⟨first :: rest, first, here, rest, later, rfl⟩

/-- The first step that fails ends a list of steps. -/
theorem exists_of_mapM_eq_error (fails : xs.mapM f = .error e) :
    ∃ before a after, xs = before ++ a :: after ∧ (∀ x ∈ before, ∃ y, f x = .ok y) ∧
      f a = .error e := by
  induction xs with
  | nil => exact nomatch fails
  | cons a xs ih =>
    rw [mapM_cons_eq] at fails
    rcases bind_eq_error_iff.1 fails with here | ⟨first, here, behind⟩
    · exact ⟨[], a, xs, rfl, fun _ member => (nomatch member), here⟩
    · obtain ⟨before, faulty, after, rfl, good, bad⟩ := ih (map_eq_error_iff.1 behind)
      exact ⟨a :: before, faulty, after, rfl, List.forall_mem_cons.2 ⟨⟨first, here⟩, good⟩, bad⟩

end Lists

end Scaffold
