import Scaffold.Proofs.Generation.Warnings
import Scaffold.Proofs.Template.Conditions

/-! Which conditions are checked before an entry is rendered. The journal of a run shows each
condition that the run decides; the conditions that are checked are these, and those at the
brackets within them, which the run never reads by themselves. -/

namespace Scaffold

def Event.decision? : Event → Option String
  | .notice (.conditionDecided condition _ _) => some condition
  | _ => none

def decisions (events : List Event) : List String := events.filterMap Event.decision?

theorem decisions_append (first second : List Event) :
    decisions (first ++ second) = decisions first ++ decisions second :=
  List.filterMap_append

theorem decisions_eq_nil {events : List Event}
    (other : ∀ n, .notice n ∈ events → n.part ≠ .template) : decisions events = [] := by
  rw [decisions, List.filterMap_eq_nil_iff]
  intro event member
  cases event with
  | notice n =>
    cases n with
    | conditionDecided condition value line => exact absurd rfl (other _ member)
    | _ => rfl
  | _ => rfl

namespace Condition

theorem decisions_evaluate (flags : FlagSet) (text : String) :
    decisions (evaluate flags text).events = [] :=
  decisions_eq_nil fun n member => by rw [part_of_evaluate member]; decide

end Condition

namespace Template

namespace Renderer

theorem decisions_step (flags : FlagSet) (r : Renderer) (piece : Piece) :
    decisions (r.step flags piece).events = piece.condition?.toList := by
  cases piece with
  | plain c => rfl
  | directive d source =>
    rw [step, Recorded.events_bind, Recorded.events_pure, List.append_nil]
    cases d with
    | ifHolds condition =>
      rw [apply, Recorded.events_bind, decisions_append, Condition.decisions_evaluate]
      rfl
    | elseBranch =>
      rw [apply]
      cases r.blocks <;> rfl
    | endIf =>
      rw [apply]
      cases r.blocks <;> rfl

theorem decisions_run (flags : FlagSet) (ps : List Piece) (r : Renderer) :
    decisions (r.run flags ps).events = decided ps := by
  induction ps generalizing r with
  | nil => rfl
  | cons piece rest ih =>
    rw [run, Recorded.events_bind, decisions_append, decisions_step, ih, decided_cons]

theorem part_of_step {flags : FlagSet} {r : Renderer} {piece : Piece} {n : Notice}
    (member : .notice n ∈ (r.step flags piece).events) :
    n.part = .condition ∨ n.part = .template := by
  cases piece with
  | plain c => exact absurd member List.not_mem_nil
  | directive d source =>
    rw [step, Recorded.events_bind, Recorded.events_pure, List.append_nil] at member
    cases d with
    | ifHolds condition =>
      rw [apply, Recorded.events_bind, List.mem_append] at member
      rcases member with first | second
      · exact .inl (Condition.part_of_evaluate first)
      · cases List.mem_singleton.1 second
        exact .inr rfl
    | elseBranch =>
      rw [apply] at member
      split at member
      · cases List.mem_singleton.1 member
        exact .inr rfl
      · exact absurd member List.not_mem_nil
    | endIf =>
      rw [apply] at member
      split at member
      · cases List.mem_singleton.1 member
        exact .inr rfl
      · exact absurd member List.not_mem_nil

theorem part_of_run {flags : FlagSet} {ps : List Piece} {r : Renderer} {n : Notice}
    (member : .notice n ∈ (r.run flags ps).events) : n.part = .condition ∨ n.part = .template := by
  induction ps generalizing r with
  | nil => exact absurd member List.not_mem_nil
  | cons piece rest ih =>
    rw [run, Recorded.events_bind, List.mem_append] at member
    rcases member with first | second
    · exact part_of_step first
    · exact ih second

end Renderer

theorem part_of_render {flags : FlagSet} {template : String} {n : Notice}
    (member : .notice n ∈ (render flags template).events) :
    n.part = .condition ∨ n.part = .template := by
  rw [render, Recorded.events_bind, List.mem_append] at member
  rcases member with first | second
  · exact Renderer.part_of_run first
  · obtain ⟨condition, same⟩ := Renderer.exists_of_finish second
    cases same
    exact .inr rfl

theorem decisions_render (flags : FlagSet) (template : String) :
    decisions (render flags template).events = decided (pieces template.toList) := by
  have finished : ∀ r : Renderer, decisions r.finish.events = [] := by
    intro r
    rw [decisions, List.filterMap_eq_nil_iff]
    intro event member
    obtain ⟨condition, rfl⟩ := Renderer.exists_of_finish member
    rfl
  rw [render, Recorded.events_bind, decisions_append, Renderer.decisions_run, finished,
    List.append_nil]

end Template

namespace Job

variable {j : Job} {source text condition name : String}

theorem exists_of_mem_checkConditions {conditions : List String} {event : Event}
    (member : event ∈ (j.checkConditions source conditions).events) :
    ∃ condition ∈ conditions, event ∈ (j.checkCondition source condition).events := by
  induction conditions with
  | nil => exact absurd member List.not_mem_nil
  | cons first rest ih =>
    rw [checkConditions, Recorded.events_bind, List.mem_append] at member
    rcases member with here | behind
    · exact ⟨first, List.mem_cons_self, here⟩
    · obtain ⟨condition, among, inside⟩ := ih behind
      exact ⟨condition, List.mem_cons_of_mem first among, inside⟩

/-- What the check of a condition has to say: it closes parentheses, or the condition cannot be
read, or it names a flag without an answer. -/
theorem cases_of_mem_checkCondition {n : Notice}
    (member : .notice n ∈ (j.checkCondition source condition).events) :
    n.part = .condition ∨
      (n = .conditionUnreadable source condition ∧ ∃ e, Condition.parse condition = .error e) ∨
      ∃ c name, n = .lookupUndeclared source name ∧ Condition.parse condition = .ok c ∧
        name ∈ c.identifiers ∧ j.answers.flags.contains name = false := by
  rw [checkCondition, Recorded.events_bind, Condition.value_read, List.mem_append] at member
  rcases member with first | second
  · exact .inl (Condition.part_of_read first)
  · cases parsed : Condition.parse condition with
    | error e =>
      rw [parsed] at second
      cases List.mem_singleton.1 second
      exact .inr (.inl ⟨rfl, e, rfl⟩)
    | ok c =>
      rw [parsed] at second
      obtain ⟨name, unknown, same⟩ := List.mem_map.1 second
      cases same
      obtain ⟨named, undeclared⟩ := List.mem_filter.1 unknown
      exact .inr (.inr ⟨c, name, rfl, rfl, named, by simpa using undeclared⟩)

theorem decisions_checkConditions (conditions : List String) :
    decisions (j.checkConditions source conditions).events = [] := by
  refine decisions_eq_nil fun n member => ?_
  obtain ⟨condition, _, inside⟩ := exists_of_mem_checkConditions member
  rcases cases_of_mem_checkCondition inside with part | ⟨rfl, _⟩ | ⟨_, _, rfl, _⟩
  · rw [part]
    decide
  · exact (by decide : Part.generation ≠ Part.template)
  · exact (by decide : Part.generation ≠ Part.template)

theorem decisions_render (j : Job) (text source : String) :
    decisions (j.render text source).events =
      Template.decided (Template.pieces
        (Template.substitute j.placeholders j.answers.name text).toList) := by
  rw [render, Recorded.events_bind, decisions_append, decisions_checkConditions, List.nil_append,
    Template.decisions_render]

/-- A notice of the generation comes from the check of a condition that is decided later, or of
one at a bracket within such a condition. -/
theorem exists_checked {n : Notice} (generation : n.part = .generation)
    (member : .notice n ∈ (j.render text source).events) :
    ∃ outer ∈ decisions (j.render text source).events,
      ∃ condition ∈ outer :: Template.nestedConditions outer,
        .notice n ∈ (j.checkCondition source condition).events := by
  rw [decisions_render]
  rw [render, Recorded.events_bind, List.mem_append] at member
  rcases member with checked | rendered
  · obtain ⟨condition, among, inside⟩ := exists_of_mem_checkConditions checked
    rw [Template.conditions_eq_flatMap] at among
    obtain ⟨outer, reached, within⟩ := List.mem_flatMap.1 among
    exact ⟨outer, reached, condition, within, inside⟩
  · rcases Template.part_of_render rendered with part | part
    · exact absurd (part.symm.trans generation) (by decide)
    · exact absurd (part.symm.trans generation) (by decide)

end Job

namespace Template

section Insertion

variable {α : Type} (items : List α) (more : α → List α)

theorem sublist_flatMap_cons : items.Sublist (items.flatMap fun item => item :: more item) := by
  induction items with
  | nil => exact List.Sublist.refl _
  | cons first rest ih =>
    rw [List.flatMap_cons, List.cons_append]
    exact (ih.trans (List.sublist_append_right (more first) _)).cons_cons first

theorem flatMap_cons_eq_self_iff :
    (items.flatMap fun item => item :: more item) = items ↔ ∀ item ∈ items, more item = [] := by
  induction items with
  | nil => simp
  | cons first rest ih =>
    rw [List.flatMap_cons, List.cons_append, List.cons_inj_right, List.forall_mem_cons, ← ih]
    constructor
    · intro same
      have lengths := congrArg List.length same
      have kept := (sublist_flatMap_cons rest more).length_le
      rw [List.length_append] at lengths
      have empty : more first = [] := List.eq_nil_of_length_eq_zero (by omega)
      rw [empty, List.nil_append] at same
      exact ⟨empty, same⟩
    · rintro ⟨empty, same⟩
      rw [empty, List.nil_append, same]

end Insertion

/-- The conditions at the brackets of a text are those that rendering decides, in order, and behind
each of them those at the brackets within it. So they agree exactly if there are none of the latter,
and in particular if no condition that is decided has a bracket in it. A warning about an entry is
about a condition that is decided, or about one at a bracket within such a condition. -/
theorem conditions_of_decisions (flags : FlagSet) (template : String) :
    let decided := decisions (render flags template).events
    let listed := conditions template.toList
    (listed = decided.flatMap fun c => c :: nestedConditions c) ∧
    (listed = decided ↔ ∀ c ∈ decided, nestedConditions c = []) ∧
    ((∀ c ∈ decided, '[' ∉ c.toList) → listed = decided) ∧
    ∀ (j : Job) (text source : String),
      let events := (j.render text source).events
      (∀ condition, .notice (.conditionUnreadable source condition) ∈ events →
        (∃ e, Condition.parse condition = .error e) ∧
          ∃ outer ∈ decisions events, condition ∈ outer :: nestedConditions outer) ∧
      ∀ name, .notice (.lookupUndeclared source name) ∈ events →
        j.answers.flags.contains name = false ∧
          ∃ outer ∈ decisions events, ∃ condition ∈ outer :: nestedConditions outer,
            ∃ c, Condition.parse condition = .ok c ∧ name ∈ c.identifiers := by
  intro decided listed
  have whole : listed = decided.flatMap fun c => c :: nestedConditions c := by
    rw [show decided = _ from decisions_render flags template]
    exact conditions_eq_flatMap template.toList
  have agree : listed = decided ↔ ∀ c ∈ decided, nestedConditions c = [] := by
    rw [whole]
    exact flatMap_cons_eq_self_iff decided nestedConditions
  refine ⟨whole, agree, ?_, fun j text source => ⟨?_, ?_⟩⟩
  · intro noBracket
    exact agree.2 fun c among => nestedConditions_of_noBracket (noBracket c among)
  · intro condition warned
    obtain ⟨outer, reached, inner, within, checked⟩ := Job.exists_checked rfl warned
    rcases Job.cases_of_mem_checkCondition checked with part | ⟨same, e, parsed⟩ | ⟨_, _, same, _⟩
    · exact absurd part (by decide : Part.generation ≠ Part.condition)
    · cases same
      exact ⟨⟨e, parsed⟩, outer, reached, within⟩
    · cases same
  · intro name warned
    obtain ⟨outer, reached, inner, within, checked⟩ := Job.exists_checked rfl warned
    rcases Job.cases_of_mem_checkCondition checked with
      part | ⟨same, _⟩ | ⟨c, _, same, parsed, named, undeclared⟩
    · exact absurd part (by decide : Part.generation ≠ Part.condition)
    · cases same
    · cases same
      exact ⟨undeclared, outer, reached, inner, within, c, parsed, named⟩

/-- Brackets that start nothing, and an `[if]` that is never closed, are no conditions to either. -/
theorem conditions_of_decisions_broken :
    let template := "[if A]a[else]b[endif]\n[if (B OR C)]\n[ifbroken\n[endif]\n[if D"
    decisions (render FlagSet.none template).events = ["A", "(B OR C)"] ∧
      conditions template.toList = ["A", "(B OR C)"] := by
  intro template
  have reached : decided (pieces template.toList) = ["A", "(B OR C)"] := by decide +kernel
  have decided := decisions_render FlagSet.none template
  rw [reached] at decided
  have agree := (conditions_of_decisions FlagSet.none template).2.2.1
  rw [decided] at agree
  exact ⟨decided, agree (by decide)⟩

/-- The bracket within the condition is nothing to the run, so `A` decides nothing; but it is listed,
and a warning says that it has no answer. -/
theorem conditions_nested_undecided :
    let template := "[if [if A]"
    let j : Job := ⟨Path.ofString "t", Path.ofString "o", ⟨"svc", .ofList []⟩, ["NAME"], ⟨[]⟩⟩
    conditions template.toList = ["[if A", "A"] ∧
      decisions (render FlagSet.none template).events = ["[if A"] ∧
      conditions template.toList ≠ decisions (render FlagSet.none template).events ∧
      lookups (j.render template "f").events = [("[if A", false)] ∧
      .notice (.lookupUndeclared "f" "A") ∈ (j.render template "f").events := by
  intro template j
  have listed : conditions template.toList = ["[if A", "A"] := by decide +kernel
  have reached : decided (pieces template.toList) = ["[if A"] := by decide +kernel
  have decided := decisions_render FlagSet.none template
  rw [reached] at decided
  have substituted : substitute j.placeholders j.answers.name template = template := by
    decide +kernel
  have events : (j.render template "f").events =
      (j.checkConditions "f" (conditions template.toList)).events ++
        (render j.answers.flagSet template).events := by
    rw [Job.render, substituted]
    rfl
  have parsed : Condition.parse "A" = .ok (.flag "A") := by decide +kernel
  have asked : lookups (Condition.evaluate j.answers.flagSet "[if A").events =
      [("[if A", false)] := by decide +kernel
  refine ⟨listed, decided, ?_, ?_, ?_⟩
  · rw [listed, decided]
    decide
  · rw [events, lookups_append, Job.lookups_checkConditions, lookups_render, reached, List.nil_append,
      List.flatMap_singleton, asked]
  · rw [events, listed]
    refine List.mem_append_left _ (Job.mem_checkConditions (by decide : "A" ∈ ["[if A", "A"]) ?_)
    exact Job.undeclared_mem_checkCondition parsed (by decide) rfl

end Template

end Scaffold
