import Mathlib.Tactic.Common
import Scaffold.Proofs.Condition.Lookups
import Scaffold.Proofs.Template.Chunk
import Scaffold.Proofs.Text

/-! The flags that rendering a template asks for. Each `[if]` that the run reaches has its
condition decided once, be it visible or not, and nothing else looks up a flag; so the names that
are asked for are written in the template, and the rendered text depends on no other flag. -/

namespace Scaffold.Template

def Piece.condition? : Piece → Option String
  | .directive (.ifHolds condition) _ => some condition
  | _ => none

def decided (ps : List Piece) : List String := ps.filterMap Piece.condition?

theorem decided_cons (piece : Piece) (rest : List Piece) :
    decided (piece :: rest) = piece.condition?.toList ++ decided rest := by
  rw [decided, List.filterMap_cons, decided]
  cases piece.condition? <;> rfl

/-- A condition is trimmed, and the bracket that ends its directive is not in it. -/
theorem Directive.exists_inner_of_read? {cs rest : Text} {condition : String}
    (found : read? cs = some (.ifHolds condition, rest)) :
    ∃ inner : Text, condition = String.ofList (Text.trim inner) ∧ ']' ∉ inner := by
  obtain ⟨whole, _, unclosed, inside⟩ := exists_closed_of_read? found
  rcases cases_of_ofInner? inside with
    ⟨_, same⟩ | ⟨_, same⟩ | ⟨keyword, blank, inner, split, _, _, same⟩
  · cases same
  · cases same
  · cases same
    refine ⟨inner, rfl, fun member => unclosed (Text.trim_subset whole ?_)⟩
    rw [split]
    exact List.mem_append_right keyword (List.mem_cons_of_mem blank member)

theorem exists_read?_of_mem_conditions {cs : Text} {condition : String}
    (member : condition ∈ conditions cs) :
    ∃ inner rest, Directive.read? inner = some (.ifHolds condition, rest) := by
  fun_induction conditions cs with
  | case1 => exact absurd member List.not_mem_nil
  | case2 rest found after reads ih =>
    rcases List.mem_cons.1 member with rfl | behind
    · exact ⟨rest, after, reads⟩
    · exact ih behind
  | case3 rest other ih => exact ih member
  | case4 c rest notBracket ih => exact ih member

theorem trimmed_of_mem_conditions {cs : Text} {condition : String}
    (member : condition ∈ conditions cs) : trimmed condition = condition := by
  obtain ⟨_, _, reads⟩ := exists_read?_of_mem_conditions member
  obtain ⟨inner, rfl, _⟩ := Directive.exists_inner_of_read? reads
  exact trimmed_ofList_trim inner

theorem closing_not_mem_of_mem_conditions {cs : Text} {condition : String}
    (member : condition ∈ conditions cs) : ']' ∉ condition.toList := by
  obtain ⟨_, _, reads⟩ := exists_read?_of_mem_conditions member
  obtain ⟨inner, rfl, absent⟩ := Directive.exists_inner_of_read? reads
  rw [String.toList_ofList]
  exact fun inside => absent (Text.trim_subset _ inside)

theorem conditions_sublist_cons (c : Char) (cs : Text) :
    (conditions cs).Sublist (conditions (c :: cs)) := by
  rw [conditions]
  split_ifs
  · split
    · exact List.sublist_cons_self _ _
    · exact List.Sublist.refl _
  · exact List.Sublist.refl _

theorem conditions_sublist_append (front back : Text) :
    (conditions back).Sublist (conditions (front ++ back)) := by
  induction front with
  | nil => exact List.Sublist.refl _
  | cons c front ih => exact ih.trans (conditions_sublist_cons c (front ++ back))

theorem decided_sublist_conditions (cs : Text) :
    (decided (pieces cs)).Sublist (conditions cs) := by
  fun_induction pieces cs with
  | case1 => exact List.Sublist.refl _
  | case2 rest d after found ih =>
    obtain ⟨inner, rfl⟩ := Directive.exists_append_of_read? found
    have behind := ih.trans (conditions_sublist_append inner after)
    cases d with
    | ifHolds condition =>
      have here : conditions ('[' :: (inner ++ after)) = condition :: conditions (inner ++ after) := by
        rw [conditions, if_pos rfl, found]
      rw [here]
      exact behind.cons_cons condition
    | elseBranch => exact behind.trans (conditions_sublist_cons '[' _)
    | endIf => exact behind.trans (conditions_sublist_cons '[' _)
  | case3 rest missing ih => exact ih.trans (conditions_sublist_cons '[' rest)
  | case4 c rest other ih => exact ih.trans (conditions_sublist_cons c rest)

namespace Renderer

theorem asksOpenly_apply (r : Renderer) (d : Directive) :
    AsksOpenly fun flags => r.apply flags d := by
  cases d with
  | ifHolds condition =>
    exact (Condition.asksOpenly_evaluate condition).bind fun value => asksOpenly_const _
  | elseBranch => exact asksOpenly_const _
  | endIf => exact asksOpenly_const _

theorem asksOpenly_step (r : Renderer) (piece : Piece) :
    AsksOpenly fun flags => r.step flags piece := by
  cases piece with
  | directive d source => exact (r.asksOpenly_apply d).bind fun next => asksOpenly_const _
  | plain c => exact asksOpenly_const _

theorem asksOpenly_run (ps : List Piece) (r : Renderer) :
    AsksOpenly fun flags => r.run flags ps := by
  induction ps generalizing r with
  | nil => exact asksOpenly_const _
  | cons piece rest ih => exact (r.asksOpenly_step piece).bind ih

theorem lookups_step (flags : FlagSet) (r : Renderer) (piece : Piece) :
    lookups (r.step flags piece).events =
      piece.condition?.toList.flatMap fun c => lookups (Condition.evaluate flags c).events := by
  cases piece with
  | plain c => rfl
  | directive d source =>
    rw [step, Recorded.events_bind, Recorded.events_pure, List.append_nil]
    cases d with
    | ifHolds condition =>
      rw [apply, Recorded.events_bind, lookups_append]
      exact congrArg _ (List.append_nil _).symm
    | elseBranch =>
      rw [apply]
      cases r.blocks <;> rfl
    | endIf =>
      rw [apply]
      cases r.blocks <;> rfl

theorem lookups_run (flags : FlagSet) (ps : List Piece) (r : Renderer) :
    lookups (r.run flags ps).events =
      (decided ps).flatMap fun c => lookups (Condition.evaluate flags c).events := by
  induction ps generalizing r with
  | nil => rfl
  | cons piece rest ih =>
    rw [run, Recorded.events_bind, lookups_append, lookups_step, ih, decided_cons,
      List.flatMap_append]

theorem exists_of_finish {r : Renderer} {event : Event} (member : event ∈ r.finish.events) :
    ∃ condition, event = .notice (.neverClosed condition) := by
  obtain ⟨block, _, rfl⟩ := List.mem_map.1 member
  exact ⟨block.condition, rfl⟩

end Renderer

theorem asksOpenly_render (template : String) : AsksOpenly fun flags => render flags template :=
  (Renderer.asksOpenly_run (pieces template.toList) Renderer.start).bind fun r =>
    asksOpenly_const r.finish

theorem lookups_render (flags : FlagSet) (template : String) :
    lookups (render flags template).events =
      (decided (pieces template.toList)).flatMap fun c =>
        lookups (Condition.evaluate flags c).events := by
  have finished : ∀ r : Renderer, lookups r.finish.events = [] :=
    fun r => lookups_map_notice (fun b : Block => .neverClosed b.condition) r.blocks.reverse
  rw [render, Recorded.events_bind, lookups_append, Renderer.lookups_run, finished, List.append_nil]

/-- Every `[if]` that the run reaches is decided once and in order, hidden or not, and no other
flag is looked up. What is looked up is a flag of a condition in the template, or a whole condition
that cannot be parsed. Under flags that agree on these names the run is the same. -/
theorem render_asks_named (flags : FlagSet) (template : String) :
    let asked := lookups (render flags template).events
    asked = (decided (pieces template.toList)).flatMap (fun text =>
      lookups (Condition.evaluate flags text).events) ∧
    (∀ name ∈ asked.map Prod.fst, ∃ text ∈ conditions template.toList,
      (∃ c, Condition.parse text = .ok c ∧ name ∈ c.identifiers) ∨
        (name = text ∧ ∃ e, Condition.parse text = .error e)) ∧
    ∀ other : FlagSet, (∀ name ∈ asked.map Prod.fst, other name = flags name) →
      (render other template).value = (render flags template).value ∧
        lookups (render other template).events = asked := by
  intro asked
  have whole : asked = _ := lookups_render flags template
  refine ⟨whole, ?_, ?_⟩
  · intro name member
    obtain ⟨query, looked, rfl⟩ := List.mem_map.1 member
    rw [whole] at looked
    obtain ⟨text, reached, here⟩ := List.mem_flatMap.1 looked
    have inside := (decided_sublist_conditions template.toList).mem reached
    refine ⟨text, inside, ?_⟩
    have split := Condition.named_of_evaluate here
    rwa [trimmed_of_mem_conditions inside] at split
  · intro other agree
    have same : render other template = render flags template :=
      asksOpenly_render template flags other fun query member =>
        agree query.1 (List.mem_map_of_mem member)
    rw [same]
    exact ⟨rfl, rfl⟩

/-- `B` is not asked for behind `A`, and the condition of a hidden block is: it cannot be parsed,
so it is one name. -/
theorem render_asks_named_hidden :
    let template := "[if A AND B]x[if C)]y[endif][endif]"
    let other : FlagSet := fun name => name == "B"
    lookups (render FlagSet.none template).events = [("A", false), ("C)", false)] ∧
      (∃ text ∈ conditions template.toList,
        (∃ c, Condition.parse text = .ok c ∧ "C)" ∈ c.identifiers) ∨
          ("C)" = text ∧ ∃ e, Condition.parse text = .error e)) ∧
      (render other template).value = (render FlagSet.none template).value ∧
      lookups (render other template).events = [("A", false), ("C)", false)] := by
  intro template other
  obtain ⟨order, named, same⟩ := render_asks_named FlagSet.none template
  have reached : decided (pieces template.toList) = ["A AND B", "C)"] := by decide +kernel
  have asked : lookups (render FlagSet.none template).events = [("A", false), ("C)", false)] := by
    rw [order, reached]
    decide +kernel
  rw [asked] at named same
  have agree : ∀ name ∈ [("A", false), ("C)", false)].map Prod.fst,
      other name = FlagSet.none name := by decide
  exact ⟨asked, named "C)" (by decide), same other agree⟩

end Scaffold.Template
