import Mathlib.Tactic.Common
import Scaffold.Proofs.Template.Hidden
import Scaffold.Proofs.Template.Lookups

/-! The lines that notices about a template tell. Line breaks are counted wherever they stand, in
visible and in hidden text and within the brackets of a directive, and a directive gives its notice
before its own line breaks are counted; so the line is the one on which its bracket opens. -/

namespace Scaffold

namespace Notice

def line? : Notice → Option Nat
  | .conditionDecided _ _ line | .strayElse line | .strayEndIf line => some line
  | _ => none

theorem exists_text_of_line? {n : Notice} {line : Nat} (tells : n.line? = some line) :
    ∃ front, n.text = front ++ " on line " ++ line.repr := by
  cases n with
  | conditionDecided condition value own =>
    cases tells
    exact ⟨"[if " ++ condition ++ "] is " ++ truth value, rfl⟩
  | strayElse own =>
    cases tells
    exact ⟨"Ignoring [else] without [if]", rfl⟩
  | strayEndIf own =>
    cases tells
    exact ⟨"Ignoring [endif] without [if]", rfl⟩
  | _ => exact nomatch tells

end Notice

def Event.numbered? : Event → Option Notice
  | .notice n => if n.line?.isSome then some n else none
  | _ => none

def numbered (events : List Event) : List Notice := events.filterMap Event.numbered?

theorem numbered_append (first second : List Event) :
    numbered (first ++ second) = numbered first ++ numbered second :=
  List.filterMap_append

theorem numbered_eq_nil {events : List Event}
    (other : ∀ n, .notice n ∈ events → n.part ≠ .template) : numbered events = [] := by
  rw [numbered, List.filterMap_eq_nil_iff]
  intro event member
  cases event with
  | notice n =>
    cases n with
    | conditionDecided condition value line => exact absurd rfl (other _ member)
    | strayElse line => exact absurd rfl (other _ member)
    | strayEndIf line => exact absurd rfl (other _ member)
    | _ => rfl
  | _ => rfl

namespace Template

def Directive.report? (flags : FlagSet) (blocks : List Block) (line : Nat) :
    Directive → Option Notice
  | .ifHolds condition =>
    some (.conditionDecided condition (Condition.evaluate flags condition).value line)
  | .elseBranch => if blocks = [] then some (.strayElse line) else none
  | .endIf => if blocks = [] then some (.strayEndIf line) else none

theorem Directive.line?_of_report? {flags : FlagSet} {blocks : List Block} {line : Nat}
    {d : Directive} {n : Notice} (tells : d.report? flags blocks line = some n) :
    n.line? = some line := by
  cases d with
  | ifHolds condition =>
    cases tells
    rfl
  | elseBranch =>
    unfold report? at tells
    split_ifs at tells
    cases tells
    rfl
  | endIf =>
    unfold report? at tells
    split_ifs at tells
    cases tells
    rfl

def Piece.report? (flags : FlagSet) (blocks : List Block) (line : Nat) : Piece → Option Notice
  | .directive d _ => d.report? flags blocks line
  | .plain _ => none

def textBefore (ps : List Piece) (n : Nat) : Text := (ps.take n).flatMap Piece.source

theorem exists_append_of_pieces {cs : Text} {piece : Piece} {rest : List Piece}
    (read : pieces cs = piece :: rest) :
    ∃ behind, cs = piece.source ++ behind ∧ pieces behind = rest := by
  revert read
  fun_cases pieces cs with
  | case1 => exact nofun
  | case2 inner found behind isDirective =>
    intro read
    cases read
    exact ⟨behind, (Directive.source_append_of_read? isDirective).symm, rfl⟩
  | case3 inner missing =>
    intro read
    cases read
    exact ⟨inner, rfl, rfl⟩
  | case4 c inner other =>
    intro read
    cases read
    exact ⟨inner, rfl, rfl⟩

theorem exists_bracket_of_pieces {cs source : Text} {d : Directive} {rest : List Piece}
    (read : pieces cs = .directive d source :: rest) :
    ∃ inner behind, cs = '[' :: inner ∧ Directive.read? inner = some (d, behind) := by
  revert read
  fun_cases pieces cs with
  | case1 => exact nofun
  | case2 inner found behind isDirective =>
    intro read
    cases read
    exact ⟨inner, behind, rfl, isDirective⟩
  | case3 => exact nofun
  | case4 => exact nofun

theorem exists_textBefore (cs : Text) (n : Nat) :
    ∃ rest, cs = textBefore (pieces cs) n ++ rest ∧ pieces rest = (pieces cs).drop n := by
  induction n with
  | zero => exact ⟨cs, rfl, rfl⟩
  | succ n ih =>
    obtain ⟨rest, whole, left⟩ := ih
    cases here : (pieces cs)[n]? with
    | none =>
      refine ⟨rest, ?_, ?_⟩
      · rw [textBefore, List.take_add_one, here, Option.toList_none, List.append_nil]
        exact whole
      · have short := List.getElem?_eq_none_iff.1 here
        rw [left, List.drop_eq_nil_of_le short, List.drop_eq_nil_of_le (Nat.le_succ_of_le short)]
    | some piece =>
      obtain ⟨inside, same⟩ := List.getElem?_eq_some_iff.1 here
      rw [List.drop_eq_getElem_cons inside, same] at left
      obtain ⟨behind, first, more⟩ := exists_append_of_pieces left
      refine ⟨behind, ?_, more⟩
      rw [textBefore, List.take_add_one, here, Option.toList_some, List.flatMap_append,
        List.flatMap_singleton, List.append_assoc, ← first]
      exact whole

namespace Renderer

theorem emit_sourceLine (r : Renderer) (c : Char) : (r.emit c).sourceLine = r.sourceLine := by
  unfold emit write endLine
  split_ifs <;> rfl

theorem step_sourceLine (flags : FlagSet) (r : Renderer) (piece : Piece) :
    (r.step flags piece).value.sourceLine = r.sourceLine + piece.source.count '\n' := by
  cases piece with
  | directive d source => rw [step_directive]; rfl
  | plain c => rw [step_plain, emit_sourceLine]; rfl

theorem run_sourceLine (flags : FlagSet) (ps : List Piece) (r : Renderer) :
    (r.run flags ps).value.sourceLine =
      r.sourceLine + (ps.flatMap Piece.source).count '\n' := by
  induction ps generalizing r with
  | nil => rfl
  | cons piece rest ih =>
    rw [run_cons, ih, step_sourceLine, List.flatMap_cons, List.count_append, Nat.add_assoc]

theorem numbered_step (flags : FlagSet) (r : Renderer) (piece : Piece) :
    numbered (r.step flags piece).events =
      (piece.report? flags r.blocks r.sourceLine).toList := by
  cases piece with
  | plain c => rfl
  | directive d source =>
    rw [step, Recorded.events_bind, Recorded.events_pure, List.append_nil]
    cases d with
    | ifHolds condition =>
      have silent : numbered (Condition.evaluate flags condition).events = [] :=
        numbered_eq_nil fun n member => by rw [Condition.part_of_evaluate member]; decide
      rw [apply, Recorded.events_bind, numbered_append, silent]
      rfl
    | elseBranch =>
      rw [apply, Piece.report?, Directive.report?]
      cases r.blocks <;> rfl
    | endIf =>
      rw [apply, Piece.report?, Directive.report?]
      cases r.blocks <;> rfl

theorem events_run_append (flags : FlagSet) (r : Renderer) (first second : List Piece) :
    (r.run flags (first ++ second)).events =
      (r.run flags first).events ++ ((r.run flags first).value.run flags second).events := by
  induction first generalizing r with
  | nil => rfl
  | cons piece rest ih =>
    rw [List.cons_append, run, Recorded.events_bind, ih, run, Recorded.events_bind,
      List.append_assoc]
    rfl

end Renderer

/-- What piece `n` says, with the line on which it begins. -/
def reportAt (flags : FlagSet) (ps : List Piece) (n : Nat) : Option Notice :=
  ps[n]?.bind (Piece.report? flags (Renderer.start.run flags (ps.take n)).value.blocks
    (1 + (textBefore ps n).count '\n'))

theorem numbered_run_at (flags : FlagSet) (ps : List Piece) (n : Nat) :
    numbered ((Renderer.start.run flags (ps.take n)).value.run flags ps[n]?.toList).events =
      (reportAt flags ps n).toList := by
  rw [reportAt]
  cases ps[n]? with
  | none => rfl
  | some piece =>
    have line := Renderer.run_sourceLine flags (ps.take n) Renderer.start
    rw [Option.toList_some, Renderer.run, Recorded.events_bind, numbered_append,
      Renderer.numbered_step, line]
    exact List.append_nil _

/-- The notices of a run that tell a line are those of its pieces. -/
theorem numbered_run_take (flags : FlagSet) (ps : List Piece) (n : Nat) :
    numbered (Renderer.start.run flags (ps.take n)).events =
      (List.range n).filterMap (reportAt flags ps) := by
  induction n with
  | zero => rfl
  | succ n ih =>
    rw [List.take_add_one, Renderer.events_run_append, numbered_append, ih, numbered_run_at,
      List.range_succ, List.filterMap_append]
    cases here : reportAt flags ps n <;> simp [here]

theorem numbered_render (flags : FlagSet) (template : String) :
    numbered (render flags template).events =
      (List.range (pieces template.toList).length).filterMap
        (reportAt flags (pieces template.toList)) := by
  have finished : ∀ r : Renderer, numbered r.finish.events = [] := by
    intro r
    rw [numbered, List.filterMap_eq_nil_iff]
    intro event member
    obtain ⟨condition, rfl⟩ := Renderer.exists_of_finish member
    rfl
  rw [render, Recorded.events_bind, numbered_append, finished, List.append_nil,
    ← numbered_run_take, List.take_length]

theorem exists_of_reportAt {flags : FlagSet} {cs : Text} {n : Nat} {notice : Notice}
    (given : reportAt flags (pieces cs) n = some notice) :
    ∃ before inner d behind blocks, cs = before ++ '[' :: inner ∧
      Directive.read? inner = some (d, behind) ∧
      d.report? flags blocks (1 + before.count '\n') = some notice := by
  obtain ⟨piece, here, tells⟩ := Option.bind_eq_some_iff.1 given
  obtain ⟨inside, same⟩ := List.getElem?_eq_some_iff.1 here
  obtain ⟨rest, whole, left⟩ := exists_textBefore cs n
  rw [List.drop_eq_getElem_cons inside, same] at left
  cases piece with
  | plain c => exact nomatch tells
  | directive d source =>
    obtain ⟨inner, behind, bracket, read⟩ := exists_bracket_of_pieces left
    exact ⟨_, inner, d, behind, _, bracket ▸ whole, read, tells⟩

/-- Wherever a run stands, the line is one more than the line breaks of the text that has been read,
whatever has become of it. The notices that tell a line are those of the directives, in order, each
with the line on which its own bracket opens. -/
theorem sourceLine_eq (flags : FlagSet) (template : String) :
    let ps := pieces template.toList
    (∀ n, ∃ before rest, template.toList = before ++ rest ∧
      before = textBefore ps n ∧ pieces rest = ps.drop n ∧
      (Renderer.start.run flags (ps.take n)).value.sourceLine = 1 + before.count '\n') ∧
    numbered (render flags template).events =
      (List.range ps.length).filterMap (reportAt flags ps) ∧
    ∀ notice ∈ numbered (render flags template).events,
      ∃ before inner d behind blocks, template.toList = before ++ '[' :: inner ∧
        Directive.read? inner = some (d, behind) ∧
        d.report? flags blocks (1 + before.count '\n') = some notice ∧
        notice.line? = some (1 + before.count '\n') ∧
        ∃ front, notice.text = front ++ " on line " ++ (1 + before.count '\n').repr := by
  intro ps
  have listed := numbered_render flags template
  refine ⟨fun n => ?_, listed, fun notice member => ?_⟩
  · obtain ⟨rest, whole, left⟩ := exists_textBefore template.toList n
    exact ⟨_, rest, whole, rfl, left, Renderer.run_sourceLine flags (ps.take n) Renderer.start⟩
  · rw [listed] at member
    obtain ⟨n, _, given⟩ := List.mem_filterMap.1 member
    obtain ⟨before, inner, d, behind, blocks, whole, read, tells⟩ := exists_of_reportAt given
    have line := Directive.line?_of_report? tells
    exact ⟨before, inner, d, behind, blocks, whole, read, tells, line,
      Notice.exists_text_of_line? line⟩

/-- A directive over two lines, and a stray one behind text that is hidden. -/
theorem sourceLine_eq_spanning :
    let template := "a\n[if\nA]b\n[endif]\n[else]"
    numbered (render FlagSet.none template).events =
        [.conditionDecided "A" false 2, .strayElse 5] ∧
      ∃ before inner d behind blocks, template.toList = before ++ '[' :: inner ∧
        Directive.read? inner = some (d, behind) ∧
        d.report? FlagSet.none blocks (1 + before.count '\n') = some (.strayElse 5) ∧
        (Notice.strayElse 5).line? = some (1 + before.count '\n') := by
  intro template
  have read : pieces template.toList =
      [.plain 'a', .plain '\n', .directive (.ifHolds "A") "[if\nA]".toList, .plain 'b', .plain '\n',
        .directive .endIf "[endif]".toList, .plain '\n', .directive .elseBranch "[else]".toList] := by
    decide +kernel
  obtain ⟨_, listed, own⟩ := sourceLine_eq FlagSet.none template
  have told : numbered (render FlagSet.none template).events =
      [.conditionDecided "A" false 2, .strayElse 5] := by
    rw [listed, read]
    decide +kernel
  obtain ⟨before, inner, d, behind, blocks, whole, found, tells, line, _⟩ :=
    own (.strayElse 5) (by rw [told]; decide)
  exact ⟨told, before, inner, d, behind, blocks, whole, found, tells, line⟩

end Template

end Scaffold
