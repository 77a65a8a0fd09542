import Mathlib.Tactic.Common
import Scaffold.Proofs.Answers.Names
import Scaffold.Proofs.Template.Segments
import Scaffold.Questionnaire.Basic
import Scaffold.Template.Placeholder

/-! Where placeholders are replaced. They are looked for one after the other, also in values that
are shown already, so a placeholder may be found there as well, or across the edge of a value. Where
none is, all of them are replaced in the text as it was. -/

namespace Scaffold.Template

def OccursKept (value : String) (segments : List Segment) (placeholder : String) : Prop :=
  ∀ before after, segments.flatMap (Segment.shown value) = before ++ (placeholder.toList ++ after) →
    ∃ front back, segments = front ++ (keptText placeholder.toList ++ back) ∧
      front.flatMap (Segment.shown value) = before

def EndsApart (first second : Text) : Prop :=
  ∀ rest, rest ≠ [] → rest <:+ first → ¬rest <+: second ∧ ¬second <+: rest

/-- In no text do the two of them overlap. -/
def Apart (first second : Text) : Prop := EndsApart first second ∧ EndsApart second first

theorem endsApart_iff (first second : Text) :
    EndsApart first second ↔
      ∀ rest ∈ first.tails, rest ≠ [] → ¬rest <+: second ∧ ¬second <+: rest := by
  refine forall_congr' fun rest => ?_
  rw [List.mem_tails, forall_comm]

instance (first second : Text) : Decidable (EndsApart first second) :=
  decidable_of_iff _ (endsApart_iff first second).symm

instance (first second : Text) : Decidable (Apart first second) :=
  inferInstanceAs (Decidable (_ ∧ _))

section Shown

variable {value placeholder : String}

theorem shown_ne_nil (nonempty : value ≠ "") (segment : Segment) : segment.shown value ≠ [] := by
  cases segment with
  | kept c => exact List.cons_ne_nil c []
  | replaced _ => exact mt String.toList_eq_nil_iff.1 nonempty

theorem eq_nil_of_flatMap_shown (nonempty : value ≠ "") {segments : List Segment}
    (empty : segments.flatMap (Segment.shown value) = []) : segments = [] := by
  cases segments with
  | nil => rfl
  | cons segment rest =>
    rw [List.flatMap_cons, List.append_eq_nil_iff] at empty
    exact absurd empty.1 (shown_ne_nil nonempty segment)

theorem replaceFound_prefix {needle : Text} (nonempty : needle ≠ []) (value rest : Text) :
    replaceFound needle value (needle ++ rest) = value ++ replaceFound needle value rest := by
  obtain ⟨c, cs, rfl⟩ := List.exists_cons_of_ne_nil nonempty
  have found : (c :: cs).isPrefixOf (c :: (cs ++ rest)) = true :=
    List.isPrefixOf_iff_prefix.2 (List.prefix_append (c :: cs) rest)
  rw [List.cons_append, replaceFound, if_pos found, List.length_cons, Nat.add_sub_cancel,
    List.drop_left]

theorem replaceFound_cons {needle : Text} {c : Char} {rest : Text}
    (missing : ¬needle <+: c :: rest) (value : Text) :
    replaceFound needle value (c :: rest) = c :: replaceFound needle value rest := by
  rw [replaceFound, if_neg (fun found => missing (List.isPrefixOf_iff_prefix.1 found))]

theorem replaceFound_append {needle front back : Text}
    (missing : ∀ before after, front = before ++ after → after ≠ [] → ¬needle <+: after ++ back)
    (value : Text) :
    replaceFound needle value (front ++ back) = front ++ replaceFound needle value back := by
  induction front with
  | nil => rfl
  | cons c front ih =>
    have here : ¬needle <+: c :: (front ++ back) :=
      missing [] (c :: front) rfl (List.cons_ne_nil c front)
    rw [List.cons_append, replaceFound_cons here,
      ih fun before after split => missing (c :: before) after (by rw [split, List.cons_append]),
      List.cons_append]

theorem OccursKept.of_append (nonempty : value ≠ "") {first second : List Segment}
    (occurs : OccursKept value (first ++ second) placeholder) :
    OccursKept value second placeholder := by
  intro before after split
  have shown : (first ++ second).flatMap (Segment.shown value) =
      (first.flatMap (Segment.shown value) ++ before) ++ (placeholder.toList ++ after) := by
    rw [List.flatMap_append, split, List.append_assoc]
  obtain ⟨front, back, whole, inFront⟩ := occurs _ after shown
  rcases List.append_eq_append_iff.1 whole with ⟨more, rfl, rest⟩ | ⟨more, rfl, rest⟩
  · rw [List.flatMap_append, List.append_cancel_left_eq] at inFront
    exact ⟨more, back, rest, inFront⟩
  · rw [List.flatMap_append, List.append_assoc, List.self_eq_append_right,
      List.append_eq_nil_iff] at inFront
    rw [eq_nil_of_flatMap_shown nonempty inFront.1, List.nil_append] at rest
    exact ⟨[], back, rest.symm, inFront.2.symm⟩

theorem OccursKept.not_begins {segment : Segment} {rest : List Segment}
    (occurs : OccursKept value (segment :: rest) placeholder)
    (missing : ¬keptText placeholder.toList <+: segment :: rest) {before after : Text}
    (split : segment.shown value = before ++ after) (nonempty : after ≠ []) :
    ¬placeholder.toList <+: after ++ rest.flatMap (Segment.shown value) := by
  rintro ⟨back, begins⟩
  have shown : (segment :: rest).flatMap (Segment.shown value) =
      before ++ (placeholder.toList ++ back) := by
    rw [List.flatMap_cons, split, List.append_assoc, begins]
  obtain ⟨front, tail, whole, inFront⟩ := occurs before back shown
  cases front with
  | nil => exact missing ⟨tail, whole.symm⟩
  | cons first front =>
    rw [List.cons_append, List.cons.injEq] at whole
    rw [List.flatMap_cons, ← whole.1, split, List.append_assoc] at inFront
    have empty := List.self_eq_append_right.1 inFront.symm
    exact nonempty (List.append_eq_nil_iff.1 empty).1

/-- Where the placeholder is found in kept text only, replacing it in what is shown is marking it. -/
theorem flatMap_shown_mark (nonemptyValue : value ≠ "") (nonempty : placeholder ≠ "")
    {segments : List Segment} (occurs : OccursKept value segments placeholder) :
    (mark placeholder segments).flatMap (Segment.shown value) =
      replaceFound placeholder.toList value.toList (segments.flatMap (Segment.shown value)) := by
  have present : placeholder.toList ≠ [] := mt String.toList_eq_nil_iff.1 nonempty
  fun_induction mark placeholder segments with
  | case1 =>
    rw [List.flatMap_nil, replaceFound]
  | case2 segment rest found ih =>
    have whole := exists_found nonempty found
    rw [whole] at occurs ⊢
    rw [List.flatMap_cons, ih (occurs.of_append nonemptyValue), List.flatMap_append,
      flatMap_shown_keptText, replaceFound_prefix present]
    rfl
  | case3 segment rest missing ih =>
    have split : OccursKept value ([segment] ++ rest) placeholder := occurs
    have behind := ih (split.of_append nonemptyValue)
    have noPrefix : ¬keptText placeholder.toList <+: segment :: rest :=
      fun begins => missing (List.isPrefixOf_iff_prefix.2 begins)
    have noneFound : ∀ before after, segment.shown value = before ++ after → after ≠ [] →
        ¬placeholder.toList <+: after ++ rest.flatMap (Segment.shown value) :=
      fun _ _ split nonempty => occurs.not_begins noPrefix split nonempty
    rw [List.flatMap_cons, List.flatMap_cons, behind, replaceFound_append noneFound]

theorem occursKept_keptText (value placeholder : String) (cs : Text) :
    OccursKept value (keptText cs) placeholder := by
  intro before after split
  rw [flatMap_shown_keptText] at split
  refine ⟨keptText before, keptText after, ?_, flatMap_shown_keptText value before⟩
  rw [split, keptText, List.map_append, List.map_append]
  rfl

theorem exists_kept_front (apart : EndsApart placeholder.toList value.toList) {part after : Text}
    (ends : part <:+ placeholder.toList) {segments : List Segment}
    (split : segments.flatMap (Segment.shown value) = part ++ after) :
    ∃ back, segments = keptText part ++ back := by
  induction segments generalizing part with
  | nil =>
    rw [(List.append_eq_nil_iff.1 split.symm).1]
    exact ⟨[], rfl⟩
  | cons segment rest ih =>
    cases part with
    | nil => exact ⟨segment :: rest, rfl⟩
    | cons d part =>
      cases segment with
      | kept c =>
        obtain ⟨same, behind⟩ := List.cons.inj split
        obtain ⟨back, whole⟩ := ih ((List.suffix_cons d part).trans ends) behind
        exact ⟨back, by rw [whole, same]; rfl⟩
      | replaced other =>
        obtain ⟨noPart, noValue⟩ := apart (d :: part) (List.cons_ne_nil d part) ends
        rw [List.flatMap_cons] at split
        rcases List.append_eq_append_iff.1 split with ⟨more, longer, _⟩ | ⟨more, shorter, _⟩
        · exact absurd ⟨more, longer.symm⟩ noValue
        · exact absurd ⟨more, shorter.symm⟩ noPart

theorem not_begins_within (apart : EndsApart value.toList placeholder.toList) {segment : Segment}
    {before after : Text} (split : segment.shown value = before ++ after)
    (nonemptyBefore : before ≠ []) (nonemptyAfter : after ≠ []) (back : Text) :
    ¬placeholder.toList <+: after ++ back := by
  cases segment with
  | kept c =>
    -- one character is not shared out between two texts
    have lengths := congrArg List.length split
    have first := List.length_pos_iff.2 nonemptyBefore
    have second := List.length_pos_iff.2 nonemptyAfter
    simp only [Segment.shown, List.length_singleton, List.length_append] at lengths
    omega
  | replaced other =>
    obtain ⟨noPart, noPlaceholder⟩ := apart after nonemptyAfter ⟨before, split.symm⟩
    intro begins
    rcases List.prefix_or_prefix_of_prefix begins (List.prefix_append after back) with
      inside | around
    · exact noPlaceholder inside
    · exact noPart around

/-- A placeholder that cannot overlap the value is found in kept text only. -/
theorem occursKept_of_apart (apart : Apart value.toList placeholder.toList)
    (segments : List Segment) : OccursKept value segments placeholder := by
  intro before after split
  have atStart : ∀ {segments : List Segment},
      segments.flatMap (Segment.shown value) = placeholder.toList ++ after →
        ∃ back, segments = keptText placeholder.toList ++ back :=
    exists_kept_front apart.2 (List.suffix_refl _)
  induction segments generalizing before with
  | nil =>
    obtain ⟨empty, rest⟩ := List.append_eq_nil_iff.1 split.symm
    obtain ⟨back, whole⟩ := @atStart [] rest.symm
    exact ⟨[], back, whole, empty.symm⟩
  | cons segment rest ih =>
    cases before with
    | nil =>
      obtain ⟨back, whole⟩ := atStart split
      exact ⟨[], back, whole, rfl⟩
    | cons b before =>
      rw [List.flatMap_cons] at split
      rcases List.append_eq_append_iff.1 split with ⟨more, longer, behind⟩ | ⟨more, shorter, behind⟩
      · obtain ⟨front, back, whole, inFront⟩ := ih more behind
        exact ⟨segment :: front, back, by rw [whole, List.cons_append],
          by rw [List.flatMap_cons, inFront, longer]⟩
      · cases more with
        | nil =>
          obtain ⟨back, whole⟩ := atStart behind.symm
          refine ⟨[segment], back, by rw [whole, List.singleton_append], ?_⟩
          rw [List.flatMap_singleton, shorter, List.append_nil]
        | cons m more =>
          have begins : placeholder.toList <+: m :: more ++ rest.flatMap (Segment.shown value) :=
            ⟨after, behind⟩
          exact absurd begins (not_begins_within apart.1 shorter (List.cons_ne_nil b before)
            (List.cons_ne_nil m more) _)

end Shown

section Marked

variable {placeholders : List String}

/-- Each placeholder is found in kept text only when its turn comes. -/
def FoundInKept (value : String) (placeholders : List String) (segments : List Segment) : Prop :=
  ∀ earlier placeholder later, placeholders = earlier ++ placeholder :: later →
    OccursKept value (marked earlier segments) placeholder

theorem flatMap_shown_marked {value : String} (nonemptyValue : value ≠ "")
    (nonempty : ∀ p ∈ placeholders, p ≠ "") {segments : List Segment}
    (found : FoundInKept value placeholders segments) :
    (marked placeholders segments).flatMap (Segment.shown value) =
      (substitute placeholders value
        (String.ofList (segments.flatMap (Segment.shown value)))).toList := by
  induction placeholders generalizing segments with
  | nil => exact (String.toList_ofList).symm
  | cons first rest ih =>
    have present : first ≠ "" := nonempty first List.mem_cons_self
    have needle : first.toList ≠ [] := mt String.toList_eq_nil_iff.1 present
    have here : OccursKept value segments first := found [] first rest rfl
    have step := flatMap_shown_mark nonemptyValue present here
    have behind : FoundInKept value rest (mark first segments) :=
      fun earlier placeholder later split => found (first :: earlier) placeholder later
        (by rw [split, List.cons_append])
    rw [marked, List.foldl_cons, ← marked,
      ih (fun p member => nonempty p (List.mem_cons_of_mem first member)) behind, step, substitute,
      substitute, List.foldl_cons, String.toList_ofList, replaceAll, if_neg needle]

theorem replaces_marked {value : String} (nonemptyValue : value ≠ "")
    (nonempty : ∀ p ∈ placeholders, p ≠ "") {text : String}
    (found : FoundInKept value placeholders (keptText text.toList)) :
    Replaces placeholders value text (substitute placeholders value text)
      (marked placeholders (keptText text.toList)) where
  before := by rw [flatMap_source_marked nonempty, flatMap_source_keptText]
  after := by rw [flatMap_shown_marked nonemptyValue nonempty found, flatMap_shown_keptText,
    String.ofList_toList]
  among placeholder member := by
    rcases among_marked member with here | before
    · exact here
    · obtain ⟨c, _, other⟩ := List.mem_map.1 before
      cases other

end Marked

theorem foundInKept_single (value placeholder : String) (cs : Text) :
    FoundInKept value [placeholder] (keptText cs) := by
  intro earlier other later split
  have empty : earlier = [] := by
    have lengths := congrArg List.length split
    simp only [List.length_append, List.length_cons, List.length_nil] at lengths
    exact List.eq_nil_of_length_eq_zero (by omega)
  rw [empty]
  exact occursKept_keptText value other cs

theorem foundInKept_of_apart {value : String} {placeholders : List String}
    (apart : ∀ p ∈ placeholders.tail, Apart value.toList p.toList) (cs : Text) :
    FoundInKept value placeholders (keptText cs) := by
  intro earlier placeholder later split
  cases earlier with
  | nil => exact occursKept_keptText value placeholder cs
  | cons first earlier =>
    have behind : placeholder ∈ placeholders.tail := by
      rw [split, List.cons_append, List.tail_cons]
      exact List.mem_append_right earlier List.mem_cons_self
    exact occursKept_of_apart (apart placeholder behind) _

theorem ne_empty_of_check {q accepted : Questionnaire} (checked : q.check = .ok accepted) :
    ∀ p ∈ q.placeholders, p ≠ "" := by
  unfold Questionnaire.check at checked
  split at checked
  · exact nomatch checked
  · split_ifs at checked with empty
    rintro p member rfl
    exact empty (List.contains_iff_mem.2 member)

theorem ne_empty_of_read {typed name : String} (read : ProjectName.read typed = .ok name) :
    name ≠ "" := by
  rintro rfl
  exact absurd (ProjectName.isValid_of_read read) (by decide)

/-- Placeholders are replaced one after the other: at its turn, occurrences of a placeholder in the
text as it is then are replaced by exactly the project name, without overlap; all else is kept, and
no occurrence is left in it. If every placeholder is found only in kept text at its turn, then on the
whole placeholders of the original text are replaced, no inserted name is changed, and no
placeholder is left in what is kept. So it is for every text if the name can overlap none of the
placeholders behind the first one. -/
theorem substitute_replaces {q accepted : Questionnaire} (checked : q.check = .ok accepted)
    {typed name : String} (read : ProjectName.read typed = .ok name) (text : String) :
    let result := substitute q.placeholders name text
    let segments := marked q.placeholders (keptText text.toList)
    (∀ earlier placeholder later, q.placeholders = earlier ++ placeholder :: later →
      let before := substitute earlier name text
      let one := marked [placeholder] (keptText before.toList)
      Replaces [placeholder] name before (substitute (earlier ++ [placeholder]) name text) one ∧
        Exhausts [placeholder] one) ∧
    (FoundInKept name q.placeholders (keptText text.toList) →
      Replaces q.placeholders name text result segments ∧ Exhausts q.placeholders segments) ∧
    ((∀ placeholder ∈ q.placeholders.tail, Apart name.toList placeholder.toList) →
      Replaces q.placeholders name text result segments ∧ Exhausts q.placeholders segments) := by
  intro result segments
  have nonempty := ne_empty_of_check checked
  have nonemptyName := ne_empty_of_read read
  have whole : FoundInKept name q.placeholders (keptText text.toList) →
      Replaces q.placeholders name text result segments ∧ Exhausts q.placeholders segments :=
    fun found => ⟨replaces_marked nonemptyName nonempty found, exhausts_marked nonempty _⟩
  refine ⟨?_, whole, fun apart => whole (foundInKept_of_apart apart text.toList)⟩
  intro earlier placeholder later split before one
  have present : ∀ p ∈ [placeholder], p ≠ "" := by
    intro p member
    rw [List.mem_singleton.1 member]
    refine nonempty placeholder ?_
    rw [split]
    exact List.mem_append_right earlier List.mem_cons_self
  have step := replaces_marked nonemptyName present
    (foundInKept_single name placeholder before.toList)
  have same : substitute (earlier ++ [placeholder]) name text =
      substitute [placeholder] name before := by
    rw [substitute, List.foldl_append]
    rfl
  rw [same]
  exact ⟨step, exhausts_marked present _⟩

/-- The standard placeholders, side by side. -/
theorem substitute_replaces_orders :
    let text := "project_<CHARTNAME>project_name"
    Replaces Questionnaire.standardPlaceholders "orders" text
        (substitute Questionnaire.standardPlaceholders "orders" text)
        (marked Questionnaire.standardPlaceholders (keptText text.toList)) ∧
      substitute Questionnaire.standardPlaceholders "orders" text = "project_ordersorders" := by
  intro text
  have checked : Questionnaire.standard.check = .ok Questionnaire.standard := by rfl
  have read : ProjectName.read " orders\n" = .ok "orders" := by decide +kernel
  have apart : ∀ placeholder ∈ Questionnaire.standardPlaceholders.tail,
      Apart "orders".toList placeholder.toList := by decide +kernel
  exact ⟨((substitute_replaces checked read text).2.2 apart).1, by decide +kernel⟩

theorem exists_lengths (value : String) {segments : List Segment}
    (among : ∀ p, .replaced p ∈ segments → p ∈ Questionnaire.standardPlaceholders) :
    ∃ kept charts names,
      (segments.flatMap Segment.source).length = kept + 11 * charts + 12 * names ∧
        (segments.flatMap (Segment.shown value)).length =
          kept + value.length * charts + value.length * names := by
  induction segments with
  | nil => exact ⟨0, 0, 0, rfl, rfl⟩
  | cons segment rest ih =>
    obtain ⟨kept, charts, names, sources, shown⟩ :=
      ih fun p member => among p (List.mem_cons_of_mem segment member)
    rw [List.flatMap_cons, List.flatMap_cons, List.length_append, List.length_append, sources, shown]
    cases segment with
    | kept c =>
      refine ⟨kept + 1, charts, names, ?_, ?_⟩
      · simp only [Segment.source, List.length_singleton]
        omega
      · simp only [Segment.shown, List.length_singleton]
        omega
    | replaced p =>
      have length : (Segment.shown value (.replaced p)).length = value.length :=
        String.length_toList
      have member := among p List.mem_cons_self
      simp only [Questionnaire.standardPlaceholders, List.mem_cons, List.not_mem_nil, or_false]
        at member
      rcases member with rfl | rfl
      · have eleven : (Segment.source (.replaced "<CHARTNAME>")).length = 11 := by decide
        refine ⟨kept, charts + 1, names, by omega, ?_⟩
        rw [length, Nat.mul_succ]
        omega
      · have twelve : (Segment.source (.replaced "project_name")).length = 12 := by decide
        refine ⟨kept, charts, names + 1, by omega, ?_⟩
        rw [length, Nat.mul_succ]
        omega

/-- There is one placeholder in the text, but one in the name as well, and that is replaced too. -/
theorem substitute_rewrites_name :
    let text := "<CHARTNAME>"
    let name := "my-project_name"
    Questionnaire.standard.check = .ok Questionnaire.standard ∧
      ProjectName.read name = .ok name ∧
      substitute Questionnaire.standardPlaceholders name text = "my-my-project_name" ∧
      ∀ segments, ¬Replaces Questionnaire.standardPlaceholders name text
        (substitute Questionnaire.standardPlaceholders name text) segments := by
  intro text name
  have result : substitute Questionnaire.standardPlaceholders name text = "my-my-project_name" := by
    decide +kernel
  have checked : Questionnaire.standard.check = .ok Questionnaire.standard := by rfl
  have read : ProjectName.read "my-project_name" = .ok "my-project_name" := by decide +kernel
  refine ⟨checked, read, result, fun segments replaces => ?_⟩
  rw [result] at replaces
  obtain ⟨kept, charts, names, sources, shown⟩ := exists_lengths name replaces.among
  rw [replaces.before, show text.toList.length = 11 by decide] at sources
  rw [replaces.after, show "my-my-project_name".toList.length = 18 by decide,
    show name.length = 15 by decide] at shown
  omega

end Scaffold.Template
