import Scaffold.Generation.Job
import Scaffold.Proofs.Template.Lookups

/-! The warnings about flags that have no answer. All conditions of a text are checked before it is
rendered, at every bracket and with all the flags they name, so whatever rendering looks up has an
answer or has been warned of. -/

namespace Scaffold

theorem FlagSet.ofTable_of_not_contains {flags : Table Bool} {name : String}
    (undeclared : flags.contains name = false) : FlagSet.ofTable flags name = false := by
  have absent : name ∉ flags.keys := fun member =>
    Bool.eq_false_iff.1 undeclared (List.contains_iff_mem.2 member)
  rw [ofTable, Table.get?, Table.lookup_eq_none_of_not_mem absent, Option.getD_none]

namespace Job

variable {j : Job} {source condition name : String}

theorem unreadable_mem_checkCondition {e : Condition.ParseError}
    (parsed : Condition.parse condition = .error e) :
    .notice (.conditionUnreadable source condition) ∈
      (j.checkCondition source condition).events := by
  rw [checkCondition, Recorded.events_bind, Condition.value_read, parsed]
  exact List.mem_append_right _ List.mem_cons_self

theorem undeclared_mem_checkCondition {c : Condition}
    (parsed : Condition.parse condition = .ok c) (named : name ∈ c.identifiers)
    (undeclared : j.answers.flags.contains name = false) :
    .notice (.lookupUndeclared source name) ∈ (j.checkCondition source condition).events := by
  rw [checkCondition, Recorded.events_bind, Condition.value_read, parsed]
  refine List.mem_append_right _ (List.mem_map_of_mem (List.mem_filter.2 ⟨named, ?_⟩))
  rw [undeclared]
  rfl

theorem lookups_checkCondition : lookups (j.checkCondition source condition).events = [] := by
  rw [checkCondition, Recorded.events_bind, lookups_append, Condition.lookups_read,
    Condition.value_read, List.nil_append]
  cases Condition.parse condition with
  | error e => rfl
  | ok c => exact lookups_map_notice _ _

theorem lookups_checkConditions (conditions : List String) :
    lookups (j.checkConditions source conditions).events = [] := by
  induction conditions with
  | nil => rfl
  | cons first rest ih =>
    rw [checkConditions, Recorded.events_bind, lookups_append, lookups_checkCondition, ih]
    rfl

theorem mem_checkConditions {conditions : List String} (among : condition ∈ conditions)
    {event : Event} (member : event ∈ (j.checkCondition source condition).events) :
    event ∈ (j.checkConditions source conditions).events := by
  induction conditions with
  | nil => exact absurd among List.not_mem_nil
  | cons first rest ih =>
    rw [checkConditions, Recorded.events_bind]
    rcases List.mem_cons.1 among with rfl | among
    · exact List.mem_append_left _ member
    · exact List.mem_append_right _ (ih among)

/-- A flag that is looked up while an entry is rendered has an answer, or a warning came before
that it has none and is false. If it is a whole condition that cannot be read, a warning says
so, whether it has an answer or not; this warning comes for each such condition in the text. -/
theorem render_warns {text : String} {front back : List Event} {value : Bool}
    (asks : (j.render text source).events = front ++ .lookup name value :: back) :
    let conditions :=
      Template.conditions (Template.substitute j.placeholders j.answers.name text).toList
    let undeclared := Notice.lookupUndeclared source name
    let unreadable := Notice.conditionUnreadable source
    ((∃ condition ∈ conditions, ∃ c, Condition.parse condition = .ok c ∧ name ∈ c.identifiers ∧
        (j.answers.flags.contains name = true ∨ .notice undeclared ∈ front)) ∨
      (name ∈ conditions ∧ (∃ e, Condition.parse name = .error e) ∧
        .notice (unreadable name) ∈ front)) ∧
    (j.answers.flags.contains name = false → value = false) ∧
    (∀ condition ∈ conditions, ∀ e, Condition.parse condition = .error e →
      .notice (unreadable condition) ∈ front) ∧
    undeclared.level = .warn ∧
    undeclared.text = source ++ ": flag '" ++ name ++ "' is not declared and is false" ∧
    ∀ condition, (unreadable condition).level = .warn ∧ (unreadable condition).text =
      source ++ ": condition '" ++ condition ++ "' cannot be parsed and is read as one flag name" := by
  intro conditions undeclared unreadable
  let substituted := Template.substitute j.placeholders j.answers.name text
  have events : (j.render text source).events =
      (j.checkConditions source conditions).events ++
        (Template.render j.answers.flagSet substituted).events := rfl
  rw [events] at asks
  have quiet := @lookups_checkConditions j source conditions
  have before : ∀ {event condition}, condition ∈ conditions →
      event ∈ (j.checkCondition source condition).events → event ∈ front :=
    fun among member => mem_before_lookup quiet asks (mem_checkConditions among member)
  have warned : ∀ condition ∈ conditions, ∀ e, Condition.parse condition = .error e →
      .notice (unreadable condition) ∈ front :=
    fun condition among e parsed => before among (unreadable_mem_checkCondition parsed)
  have asked : (name, value) ∈ lookups (Template.render j.answers.flagSet substituted).events := by
    have all := congrArg lookups asks
    rw [lookups_append, quiet, List.nil_append] at all
    rw [all, lookups_append]
    exact List.mem_append_right _ List.mem_cons_self
  rw [Template.lookups_render] at asked
  obtain ⟨condition, reached, here⟩ := List.mem_flatMap.1 asked
  have among : condition ∈ conditions :=
    (Template.decided_sublist_conditions substituted.toList).mem reached
  refine ⟨?_, fun absent => ?_, warned, rfl, rfl, fun _ => ⟨rfl, rfl⟩⟩
  · rcases Condition.named_of_evaluate here with ⟨c, parsed, named⟩ | ⟨whole, e, parsed⟩
    · refine .inl ⟨condition, among, c, parsed, named, ?_⟩
      cases declared : j.answers.flags.contains name with
      | true => exact .inl rfl
      | false => exact .inr (before among (undeclared_mem_checkCondition parsed named declared))
    · rw [Template.trimmed_of_mem_conditions among] at whole
      obtain rfl : name = condition := whole
      exact .inr ⟨among, ⟨e, parsed⟩, warned name among e parsed⟩
  · exact (Condition.value_of_evaluate here).trans (FlagSet.ofTable_of_not_contains absent)

/-- The first condition runs across a bracket, so only the check reads `B`; the second cannot be
read, and is a flag with an answer all the same. -/
theorem render_warns_across_brackets :
    let j : Job := ⟨Path.ofString "t", Path.ofString "o",
      ⟨"svc", .ofList [("C)", true)]⟩, ["NAME"], ⟨[]⟩⟩
    let template := "[if NAME [if B]x[if C)]y"
    Template.conditions (Template.substitute j.placeholders j.answers.name template).toList =
        ["svc [if B", "B", "C)"] ∧
      ∃ front back, (j.render template "f").events = front ++ .lookup "C)" true :: back ∧
        .notice (.conditionUnreadable "f" "C)") ∈ front := by
  intro j template
  have substituted : Template.substitute j.placeholders j.answers.name template =
      "[if svc [if B]x[if C)]y" := by decide +kernel
  have conditions : Template.conditions "[if svc [if B]x[if C)]y".toList =
      ["svc [if B", "B", "C)"] := by decide +kernel
  have reached : Template.decided (Template.pieces "[if svc [if B]x[if C)]y".toList) =
      ["svc [if B", "C)"] := by decide +kernel
  have parsed : Condition.parse "C)" = .error (.trailing .closing) := by decide +kernel
  have looked : ("C)", true) ∈
      lookups (Condition.evaluate j.answers.flagSet "C)").events := by
    rw [Condition.evaluate, Recorded.events_bind, Condition.value_read, parsed]
    exact mem_lookups_iff.2 (List.mem_append_right _ (List.mem_cons_of_mem _ (by decide +kernel)))
  have asked : Event.lookup "C)" true ∈ (j.render template "f").events := by
    rw [render, substituted]
    refine List.mem_append_right _ (mem_lookups_iff.1 ?_)
    rw [Template.lookups_render, reached]
    exact List.mem_flatMap.2 ⟨"C)", by decide, looked⟩
  obtain ⟨front, back, asks⟩ := List.append_of_mem asked
  obtain ⟨_, _, warned, _⟩ := render_warns asks
  rw [substituted, conditions] at warned ⊢
  exact ⟨rfl, front, back, asks, warned "C)" (by decide) _ parsed⟩

end Job

end Scaffold
