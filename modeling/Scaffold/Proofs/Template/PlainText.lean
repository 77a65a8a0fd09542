import Mathlib.Tactic.Common
import Scaffold.Proofs.Template.Chunk

/-! Text without directives. All of its pieces are plain characters, brackets included, and a
renderer that has read no directive puts each of them out. So only blank lines can be lost, and
of a text that has been rendered not even these. -/

namespace Scaffold.Template

def DirectiveFree (cs : Text) : Prop :=
  ∀ before after, cs = before ++ '[' :: after → Directive.read? after = none

theorem DirectiveFree.tail {c : Char} {cs : Text} (free : DirectiveFree (c :: cs)) :
    DirectiveFree cs := by
  intro before after split
  exact free (c :: before) after (by rw [split, List.cons_append])

theorem directiveFree_cons {c : Char} {cs : Text} (here : c = '[' → Directive.read? cs = none)
    (behind : DirectiveFree cs) : DirectiveFree (c :: cs) := by
  intro before after split
  cases before with
  | nil =>
    cases split
    exact here rfl
  | cons _ before =>
    cases split
    exact behind before after rfl

theorem directiveFree_iff (cs : Text) : DirectiveFree cs ↔ pieces cs = cs.map .plain := by
  fun_induction pieces cs with
  | case1 =>
    refine ⟨fun _ => rfl, fun _ before after split => ?_⟩
    exact absurd split.symm (List.append_ne_nil_of_right_ne_nil before (List.cons_ne_nil _ after))
  | case2 rest d after found ih =>
    refine ⟨fun free => ?_, fun plain => ?_⟩
    · rw [free [] rest rfl] at found
      exact absurd found.symm (Option.some_ne_none _)
    · cases (List.cons.inj plain).1
  | case3 rest missing ih =>
    rw [List.map_cons, List.cons_inj_right, ← ih]
    exact ⟨DirectiveFree.tail, directiveFree_cons fun _ => missing⟩
  | case4 c rest other ih =>
    rw [List.map_cons, List.cons_inj_right, ← ih]
    exact ⟨DirectiveFree.tail, directiveFree_cons fun bracket => absurd bracket other⟩

instance (cs : Text) : Decidable (DirectiveFree cs) :=
  decidable_of_iff _ (directiveFree_iff cs).symm

/-- Brackets that are never closed start no directive, whatever stands behind them. -/
theorem DirectiveFree.append_unclosed {front rest : Text} (free : DirectiveFree front)
    (unclosed : ']' ∉ rest) : DirectiveFree (front ++ rest) := by
  intro before after split
  rcases List.append_eq_append_iff.1 split with ⟨inner, _, whole⟩ | ⟨inner, whole, behind⟩
  · refine Directive.read?_of_unclosed fun closes => unclosed ?_
    rw [whole]
    exact List.mem_append_right inner (List.mem_cons_of_mem '[' closes)
  · cases inner with
    | nil =>
      refine Directive.read?_of_unclosed fun closes => unclosed ?_
      rw [← List.nil_append rest, ← behind]
      exact List.mem_cons_of_mem '[' closes
    | cons c inner =>
      rw [List.cons_append, List.cons.injEq] at behind
      obtain ⟨rfl, rfl⟩ := behind
      by_cases closes : ']' ∈ inner
      · rw [Directive.read?_append closes, free before inner whole]
        rfl
      · exact Directive.read?_of_unclosed fun member =>
          (List.mem_append.1 member).elim closes unclosed

namespace Renderer

structure Untouched (r : Renderer) : Prop where
  blocks : r.blocks = []
  visible : r.visible = true
  trimming : r.trimming = false
  hasDirective : r.hasDirective = false

theorem untouched_start : start.Untouched := ⟨rfl, rfl, rfl, rfl⟩

variable {r : Renderer}

theorem Untouched.emit (untouched : r.Untouched) (c : Char) :
    (r.emit c).Untouched ∧ (r.emit c).out.toList = r.out.toList ++ [c] := by
  obtain ⟨blocks, visible, trimming, hasDirective⟩ := untouched
  by_cases isBreak : c = '\n'
  · have shown : isBare { r with trimming := false } = false := by
      rw [isBare, hasDirective, Bool.false_and]
    rw [isBreak, emit_break r visible, endLine, shown]
    refine ⟨⟨blocks, visible, rfl, rfl⟩, ?_⟩
    simp [out]
  · have stays : (r.trimming && isSpace c) = false := by rw [trimming, Bool.false_and]
    rw [emit_written r visible isBreak stays]
    refine ⟨⟨blocks, visible, rfl, hasDirective⟩, ?_⟩
    simp [out]

theorem Untouched.run (untouched : r.Untouched) (flags : FlagSet) (cs : Text) :
    (r.run flags (cs.map .plain)).value.Untouched ∧
      (r.run flags (cs.map .plain)).value.out.toList = r.out.toList ++ cs := by
  induction cs generalizing r with
  | nil => exact ⟨untouched, (List.append_nil _).symm⟩
  | cons c cs ih =>
    have advanced : (r.advance [c]).Untouched :=
      ⟨untouched.blocks, untouched.visible, untouched.trimming, untouched.hasDirective⟩
    obtain ⟨next, added⟩ := advanced.emit c
    obtain ⟨last, rest⟩ := ih next
    rw [List.map_cons, run_cons, step_plain]
    refine ⟨last, ?_⟩
    rw [rest, added, List.append_assoc, List.singleton_append]
    rfl

theorem events_run_plain (flags : FlagSet) (cs : Text) (r : Renderer) :
    (r.run flags (cs.map .plain)).events = [] := by
  induction cs generalizing r with
  | nil => rfl
  | cons c cs ih =>
    rw [List.map_cons, Renderer.run, Recorded.events_bind, ih]
    rfl

end Renderer

theorem render_of_directiveFree {text : String} (free : DirectiveFree text.toList)
    (flags : FlagSet) :
    (render flags text).value = collapseBlankLines text ∧ (render flags text).events = [] := by
  obtain ⟨untouched, out⟩ := Renderer.untouched_start.run flags text.toList
  have quiet := Renderer.events_run_plain flags text.toList Renderer.start
  rw [← (directiveFree_iff _).1 free] at untouched out quiet
  have shown : (Renderer.start.run flags (pieces text.toList)).value.isBare = false := by
    rw [Renderer.isBare, untouched.hasDirective, Bool.false_and]
  have whole : (Renderer.start.run flags (pieces text.toList)).value.text = text := by
    rw [Renderer.text, shown, if_neg Bool.false_ne_true, ← String.toList_inj, out]
    rfl
  constructor
  · rw [← String.ofList_toList (s := text), value_render, whole, String.ofList_toList]
  · rw [render, Recorded.events_bind, quiet, Renderer.finish, untouched.blocks]
    rfl

/-- A text without directives comes out as it is but for runs of blank lines, whatever the flags
are; no flag is looked up for it, and nothing is noted. Brackets that are never closed do not make
a directive. So what a template is rendered to is left as it is when it is rendered again under
any flags, provided that no directive has come out. -/
theorem render_stable (flags : FlagSet) :
    (∀ text : String, DirectiveFree text.toList →
      (render flags text).value = collapseBlankLines text ∧ (render flags text).events = []) ∧
    (∀ front rest : Text, DirectiveFree front → ']' ∉ rest → DirectiveFree (front ++ rest)) ∧
    ∀ (first : FlagSet) (template : String),
      let out := (render first template).value
      DirectiveFree out.toList →
        (render flags out).value = out ∧ (render flags out).events = [] := by
  refine ⟨fun text free => render_of_directiveFree free flags,
    fun front rest free unclosed => free.append_unclosed unclosed, ?_⟩
  intro first template out free
  obtain ⟨value, events⟩ := render_of_directiveFree free flags
  have collapsed : collapseBlankLines out = out := collapse_collapse _
  exact ⟨value.trans collapsed, events⟩

/-- The text that is left has brackets, blank lines that were collapsed, and at the end an `[if]`
that is never closed. -/
theorem render_stable_brackets :
    let template := "[if A]\n[0]\n\n\n[endif]\n []\n[if A"
    let out := (render FlagSet.all template).value
    out = "[0]\n\n []\n[if A" ∧ (render FlagSet.none out).value = out ∧
      (render FlagSet.none out).events = [] := by
  intro template out
  have split : pieces template.toList =
      .directive (.ifHolds "A") "[if A]".toList :: "\n[0]\n\n\n".toList.map .plain ++
        .directive .endIf "[endif]".toList :: "\n []\n[if A".toList.map .plain := by
    decide +kernel
  have left : out = "[0]\n\n []\n[if A" := by
    have rendered := value_render FlagSet.all template.toList
    rw [String.ofList_toList, split] at rendered
    refine rendered.trans ?_
    decide +kernel
  have closed : DirectiveFree "[0]\n\n []\n".toList := by decide +kernel
  have free : DirectiveFree out.toList := by
    rw [left]
    exact closed.append_unclosed (by decide : ']' ∉ "[if A".toList)
  exact ⟨left, (render_stable FlagSet.none).2.2 FlagSet.all template free⟩

end Scaffold.Template
