import Mathlib.Tactic.Common
import Scaffold.Answers.Interview

/-! What is given beforehand for a flag, apart from the notices it takes to find that out. Nothing
of it is asked. -/

namespace Scaffold

def Event.prompt? : Event → Option Prompt
  | .asked prompt => some prompt
  | _ => none

def prompts (events : List Event) : List Prompt := events.filterMap Event.prompt?

@[simp] theorem prompts_append (first second : List Event) :
    prompts (first ++ second) = prompts first ++ prompts second :=
  List.filterMap_append

theorem prompts_map_notice {α : Type} (f : α → Notice) (items : List α) :
    prompts (items.map fun item => .notice (f item)) = [] := by
  rw [prompts, List.filterMap_map, List.filterMap_eq_nil_iff]
  exact fun _ _ => rfl

theorem nodup_eraseDups (names : List String) : names.eraseDups.Nodup := by
  cases names with
  | nil => exact List.nodup_nil
  | cons name rest =>
    rw [List.eraseDups_cons, List.nodup_cons]
    refine ⟨fun again => ?_, nodup_eraseDups _⟩
    have kept := (List.mem_filter.1 (List.mem_eraseDups.1 again)).2
    rw [beq_self_eq_true] at kept
    exact nomatch kept
termination_by names.length
decreasing_by exact Nat.lt_succ_of_le (List.length_filter_le _ _)

namespace Preloaded

def answer? (preloaded : Json) (key : String) : Option Bool :=
  match preloaded.member? key with
  | some (.bool value) => some value
  | some (.string answer) => yesNo? answer
  | _ => none

theorem mem_flagKeys_iff {preloaded : Json} {key : String} : key ∈ flagKeys preloaded ↔
    key ≠ Answers.nameKey ∧ (preloaded.member? key).isSome = true := by
  rw [flagKeys, List.mem_filter, decide_eq_true_iff, and_comm, Json.member?,
    List.lookup_isSome_iff]
  simp only [List.mem_map, beq_iff_eq]
  constructor
  · rintro ⟨other, entry, member, rfl⟩
    exact ⟨other, entry, member, rfl⟩
  · rintro ⟨other, entry, member, rfl⟩
    exact ⟨other, entry, member, rfl⟩

variable (preloaded : Json) (key : String)

@[simp] theorem value_flag? : (flag? preloaded key).value = answer? preloaded key := by
  unfold flag? answer?
  cases preloaded.member? key with
  | none => rfl
  | some value =>
    cases value with
    | string answer =>
      dsimp only
      cases yesNo? answer <;> rfl
    | _ => rfl

@[simp] theorem prompts_flag? : prompts (flag? preloaded key).events = [] := by
  unfold flag?
  cases preloaded.member? key with
  | none => rfl
  | some value =>
    cases value with
    | string answer =>
      dsimp only
      cases yesNo? answer <;> rfl
    | _ => rfl

end Preloaded

namespace Overrides

variable {o : Overrides} {key : String}

theorem flag?_of_mem_enable (enabled : key ∈ o.enable) : o.flag? key = some true :=
  if_pos (List.contains_iff_mem.2 enabled)

theorem flag?_of_mem_disable (apart : key ∉ o.enable) (disabled : key ∈ o.disable) :
    o.flag? key = some false := by
  rw [flag?, if_neg (mt List.contains_iff_mem.1 apart), if_pos (List.contains_iff_mem.2 disabled)]

theorem flag?_eq_none (notEnabled : key ∉ o.enable) (notDisabled : key ∉ o.disable) :
    o.flag? key = none := by
  rw [flag?, if_neg (mt List.contains_iff_mem.1 notEnabled),
    if_neg (mt List.contains_iff_mem.1 notDisabled)]

theorem conflict?_eq_none_iff : o.conflict? = none ↔ ∀ key ∈ o.enable, key ∉ o.disable := by
  simp [conflict?]

theorem mem_of_conflict? (conflict : o.conflict? = some key) :
    key ∈ o.enable ∧ key ∈ o.disable :=
  ⟨List.mem_of_find?_eq_some conflict, List.contains_iff_mem.1 (List.find?_some conflict)⟩

end Overrides

namespace Given

def answer? (g : Given) (key : String) : Option Bool :=
  (g.overrides.flag? key).or (Preloaded.answer? g.preloaded key)

variable (g : Given) (q : Questionnaire)

@[simp] theorem value_flag? (key : String) : (g.flag? key).value = g.answer? key := by
  unfold flag? answer?
  cases g.overrides.flag? key with
  | none => exact Preloaded.value_flag? _ _
  | some value => rfl

@[simp] theorem prompts_flag? (key : String) : prompts (g.flag? key).events = [] := by
  unfold flag?
  cases g.overrides.flag? key with
  | none => exact Preloaded.prompts_flag? _ _
  | some value => rfl

theorem prompts_noteUndeclared : prompts (g.noteUndeclared q).events = [] := by
  rw [noteUndeclared, prompts_append, prompts_map_notice, prompts_map_notice, List.append_nil]

theorem nodup_undeclaredKeys : (g.undeclaredKeys q).Nodup :=
  (nodup_eraseDups _).filter _

def undeclared (g : Given) (keys : List String) : List (String × Bool) :=
  keys.filterMap fun key => (g.answer? key).map fun value => (key, value)

theorem value_undeclaredFlags (keys : List String) :
    (Interview.undeclaredFlags g keys).value = g.undeclared keys := by
  induction keys with
  | nil => rfl
  | cons key rest ih =>
    rw [Interview.undeclaredFlags, Recorded.value_bind, Recorded.value_bind, ih, value_flag?,
      undeclared, undeclared, List.filterMap_cons]
    cases g.answer? key <;> rfl

theorem prompts_undeclaredFlags (keys : List String) :
    prompts (Interview.undeclaredFlags g keys).events = [] := by
  induction keys with
  | nil => rfl
  | cons key rest ih =>
    rw [Interview.undeclaredFlags, Recorded.events_bind, Recorded.events_bind, prompts_append,
      prompts_append, prompts_flag?, ih]
    rfl

theorem map_fst_undeclared (keys : List String) :
    (g.undeclared keys).map Prod.fst = keys.filter fun key => (g.answer? key).isSome := by
  induction keys with
  | nil => rfl
  | cons key rest ih =>
    rw [undeclared] at ih
    rw [undeclared, List.filterMap_cons, List.filter_cons]
    cases g.answer? key with
    | none => exact ih
    | some value => exact congrArg (key :: ·) ih

theorem answer?_of_mem_undeclared {keys : List String} {entry : String × Bool}
    (member : entry ∈ g.undeclared keys) : g.answer? entry.1 = some entry.2 := by
  obtain ⟨key, _, found⟩ := List.mem_filterMap.1 member
  obtain ⟨value, answered, rfl⟩ := Option.map_eq_some_iff.1 found
  exact answered

end Given

end Scaffold
