import Scaffold.Proofs.Generation.Containment
import Scaffold.Proofs.Template.Chunk
import Scaffold.Proofs.Template.Substitution
import Scaffold.Proofs.Template.Visibility

/-! A template directory that is skipped is skipped with everything in it. An ignored directory
is one of the directories around what is in it. Where the rendered path of a directory is no
path, the slash behind it ends the part that is at fault, and rendering what follows the slash
cannot mend that part. -/

namespace Scaffold

namespace TargetPath

theorem parts_cons_slash (cs : Text) : parts ('/' :: cs) = [] :: parts cs := by
  rw [parts, if_pos rfl]

theorem parts_cons_of_ne {c : Char} (other : c ≠ '/') {cs part : Text} {rest : List Text}
    (split : parts cs = part :: rest) : parts (c :: cs) = (c :: part) :: rest := by
  rw [parts, if_neg other, split]

theorem parts_of_not_mem {part : Text} (within : '/' ∉ part) : parts part = [part] := by
  induction part with
  | nil => rfl
  | cons c part ih =>
    rw [List.mem_cons, not_or] at within
    exact parts_cons_of_ne (Ne.symm within.1) (ih within.2)

theorem parts_append_slash (front back : Text) :
    parts (front ++ '/' :: back) = parts front ++ parts back := by
  induction front with
  | nil => exact parts_cons_slash back
  | cons c front ih =>
    by_cases isSlash : c = '/'
    · rw [isSlash, List.cons_append, parts_cons_slash, parts_cons_slash, ih, List.cons_append]
    · obtain ⟨part, rest, split⟩ := exists_parts front
      rw [split, List.cons_append] at ih
      rw [List.cons_append, parts_cons_of_ne isSlash ih, parts_cons_of_ne isSlash split,
        List.cons_append]

theorem exists_parts_append (front : Text) :
    ∃ init last, ∀ gap, '/' ∉ gap → parts (front ++ gap) = init ++ [last ++ gap] := by
  induction front with
  | nil => exact ⟨[], [], fun gap within => parts_of_not_mem within⟩
  | cons c front ih =>
    obtain ⟨init, last, split⟩ := ih
    by_cases isSlash : c = '/'
    · refine ⟨[] :: init, last, fun gap within => ?_⟩
      rw [isSlash, List.cons_append, parts_cons_slash, split gap within, List.cons_append]
    · cases init with
      | nil => exact ⟨[], c :: last, fun gap within => parts_cons_of_ne isSlash (split gap within)⟩
      | cons first init =>
        exact ⟨(c :: first) :: init, last,
          fun gap within => parts_cons_of_ne isSlash (split gap within)⟩

theorem isValid_ofList_iff (cs : Text) :
    isValid (String.ofList cs) = true ↔
      ∀ part ∈ parts cs, Text.isAllBlank part = false ∧ part ≠ ['.', '.'] := by
  rw [isValid_iff, String.toList_ofList]

/-- Of a path whose last line has been ended, a gap cannot mend the last part. -/
theorem isValid_of_append_gap {front gap : Text} (blank : Text.isAllBlank gap = true)
    (ends : Text.EndsInBreak front) (valid : isValid (String.ofList (front ++ gap)) = true) :
    isValid (String.ofList front) = true := by
  have within : '/' ∉ gap := fun member =>
    absurd (List.all_eq_true.1 blank '/' member) (by decide)
  rw [isValid_ofList_iff] at valid ⊢
  rcases ends with rfl | ⟨inner, rfl⟩
  · rw [List.nil_append, parts_of_not_mem within] at valid
    exact absurd blank (Bool.eq_false_iff.1 (valid gap (List.mem_singleton.2 rfl)).1)
  · obtain ⟨init, last, split⟩ := exists_parts_append inner
    have ended := split ['\n'] (by decide)
    have longer := split ('\n' :: gap) (by simpa using within)
    rw [List.append_assoc, List.singleton_append, longer] at valid
    rw [ended]
    intro part member
    rcases List.mem_append.1 member with member | member
    · exact valid part (List.mem_append_left _ member)
    · obtain rfl := List.mem_singleton.1 member
      have solid := (valid _ (List.mem_append_right _ (List.mem_singleton.2 rfl))).1
      refine ⟨?_, fun same => ?_⟩
      · unfold Text.isAllBlank at blank solid ⊢
        rwa [List.all_append, List.all_cons, blank, ← List.all_nil, ← List.all_cons,
          ← List.all_append] at solid
      · have ends := congrArg List.getLast? same
        rw [List.getLast?_concat] at ends
        exact absurd ends (by decide)

/-- A gap before a slash cannot mend a path, unless it stands on the line of a name. -/
theorem isValid_of_append {front gap tail : Text} (blank : Text.isAllBlank gap = true)
    (apart : gap = [] ∨ Text.EndsInBreak front)
    (valid : isValid (String.ofList (front ++ (gap ++ '/' :: tail))) = true) :
    isValid (String.ofList front) = true := by
  have before : isValid (String.ofList (front ++ gap)) = true := by
    rw [isValid_ofList_iff, ← List.append_assoc, parts_append_slash] at valid
    rw [isValid_ofList_iff]
    exact fun part member => valid part (List.mem_append_left _ member)
  rcases apart with rfl | ends
  · rwa [List.append_nil] at before
  · exact isValid_of_append_gap blank ends before

end TargetPath

namespace Job

theorem mem_withOuter_append_slash {front part : Text} (member : part ∈ withOuter front)
    (back : Text) : part ∈ withOuter (front ++ '/' :: back) := by
  unfold withOuter at member ⊢
  refine List.mem_append_left _ (List.mem_filterMap.2 ?_)
  rcases List.mem_append.1 member with member | member
  · obtain ⟨n, inside, found⟩ := List.mem_filterMap.1 member
    have bound := List.mem_range.1 inside
    have slash : ((front ++ '/' :: back).drop n).head? = (front.drop n).head? := by
      obtain ⟨c, more, split⟩ := List.exists_cons_of_ne_nil (mt List.drop_eq_nil_iff.1
        (Nat.not_le.2 bound))
      rw [List.drop_append_of_le_length (Nat.le_of_lt bound), split]
      rfl
    refine ⟨n, List.mem_range.2 (by rw [List.length_append]; omega), ?_⟩
    rw [slash, List.take_append_of_le_length (Nat.le_of_lt bound)]
    exact found
  · obtain rfl := List.mem_singleton.1 member
    exact ⟨part.length, List.mem_range.2 (by simp), by simp⟩

theorem isIgnored_append_slash {j : Job} {d : String} (ignored : j.isIgnored d = true)
    (c : String) : j.isIgnored (d ++ "/" ++ c) = true := by
  unfold isIgnored at ignored ⊢
  rw [List.any_eq_true] at ignored ⊢
  obtain ⟨part, member, isMatch⟩ := ignored
  refine ⟨part, ?_, isMatch⟩
  rw [String.toList_append, String.toList_append, List.append_assoc]
  exact mem_withOuter_append_slash member c.toList

theorem process_eq_none_iff {j : Job} {t : FileTree} {source : Path} {path : String}
    (below : j.template.below? source = some path) :
    (j.process t source).value = .ok none ↔
      path = "" ∨ j.isIgnored path = true ∨
        TargetPath.isValid (j.render path path).value = false := by
  unfold process
  rw [below]
  dsimp only
  split_ifs with root ignored
  · exact iff_of_true rfl (.inl root)
  · exact iff_of_true rfl (.inr (.inl ignored))
  · rw [Recorded.value_bind]
    split_ifs with valid
    · constructor
      · intro skipped
        obtain ⟨operation, _, same⟩ := map_eq_ok_iff.1 skipped
        exact nomatch same
      · rintro (isRoot | isIgnored | broken)
        · exact absurd isRoot root
        · exact absurd isIgnored ignored
        · exact absurd valid (Bool.eq_false_iff.1 broken)
    · exact iff_of_true rfl (.inr (.inr (Bool.eq_false_iff.2 valid)))

theorem render_value (j : Job) (text source : String) :
    (j.render text source).value =
      (Template.render j.answers.flagSet
        (Template.substitute j.placeholders j.answers.name text)).value := rfl

end Job

theorem Template.Matching.visible_of_closed (flags : FlagSet) {ps : List Piece}
    (closed : ∀ i condition, IfAt ps i condition → ∃ k, Closes ps i k) :
    (Renderer.start.run flags ps).value.visible = true := by
  obtain ⟨blocks, tracks, same⟩ := exists_tracks flags ps ps.length (Nat.le_refl _)
  rw [tracks.closed_iff.1 closed, List.take_length] at same
  have consistent := Renderer.consistent_start.run flags ps
  rw [consistent, ← same]
  rfl

open Template Matching

/-- If an entry is skipped, so is everything below it, whatever that is called, provided that the
path of the entry is closed in itself: none of its brackets and none of its blocks reach behind
the slash. -/
theorem Job.process_below_skipped {j : Job} (avoid : PlaceholdersAvoid '/' j.placeholders)
    {t : FileTree} {source : Path} {d : String} (below : j.template.below? source = some d)
    (present : d ≠ "") (skipped : (j.process t source).value = .ok none)
    (brackets : BracketsClose (substitute j.placeholders j.answers.name d).toList)
    (closed : ∀ i condition,
      IfAt (pieces (substitute j.placeholders j.answers.name d).toList) i condition →
      ∃ k, Closes (pieces (substitute j.placeholders j.answers.name d).toList) i k)
    (t' : FileTree) (child : Path) (c : String)
    (inside : j.template.below? child = some (d ++ "/" ++ c)) :
    (j.process t' child).value = .ok none := by
  rw [Job.process_eq_none_iff inside]
  rcases (Job.process_eq_none_iff below).1 skipped with isRoot | ignored | broken
  · exact absurd isRoot present
  · exact .inr (.inl (Job.isIgnored_append_slash ignored c))
  · refine .inr (.inr (Bool.eq_false_iff.2 fun valid => Bool.eq_false_iff.1 broken ?_))
    have split := substitute_append_cons avoid j.answers.name d.toList c.toList
    have path : String.ofList (d.toList ++ '/' :: c.toList) = d ++ "/" ++ c := by
      rw [← String.toList_inj]
      simp
    rw [path, String.ofList_toList, String.ofList_toList] at split
    obtain ⟨gap, tail, blank, apart, rendered⟩ := render_append_cons j.answers.flagSet brackets
      (visible_of_closed j.answers.flagSet closed) (c := '/') (by decide) (by decide)
      (substitute j.placeholders j.answers.name c).toList
    rw [← split, String.ofList_toList, String.ofList_toList] at rendered
    rw [String.ofList_toList] at apart
    have again : TargetPath.isValid (String.ofList
        ((Template.render j.answers.flagSet
          (substitute j.placeholders j.answers.name d)).value.toList ++ (gap ++ '/' :: tail))) =
        true := by
      rw [← rendered, String.ofList_toList]
      exact valid
    have mended := TargetPath.isValid_of_append blank apart again
    rwa [String.ofList_toList] at mended

theorem pieces_dots : pieces "[if A]x/y[else].[endif].".toList =
    [.directive (.ifHolds "A") "[if A]".toList, .plain 'x', .plain '/', .plain 'y',
      .directive .elseBranch "[else]".toList, .plain '.',
      .directive .endIf "[endif]".toList, .plain '.'] := by decide +kernel

/-- Dots from two branches come together to a path that leads upwards. -/
theorem Job.process_below_skipped_dots :
    let t : FileTree := ⟨[([Bytes.ofString "t"], .directory)], []⟩
    let j : Job := ⟨Path.ofString "t", Path.ofString "out", ⟨"x/y", .empty⟩, ["N"], ⟨[]⟩⟩
    (j.process t (Path.ofString "t/[if A]N[else].[endif].")).value = .ok none ∧
      (j.process t (Path.ofString "t/[if A]N[else].[endif]./N [if B")).value = .ok none := by
  intro t j
  have below : j.template.below? (Path.ofString "t/[if A]N[else].[endif].") =
      some "[if A]N[else].[endif]." := by decide +kernel
  have inside : j.template.below? (Path.ofString "t/[if A]N[else].[endif]./N [if B") =
      some ("[if A]N[else].[endif]." ++ "/" ++ "N [if B") := by decide +kernel
  have substituted : substitute j.placeholders j.answers.name "[if A]N[else].[endif]." =
      "[if A]x/y[else].[endif]." := by decide +kernel
  have broken : TargetPath.isValid (j.render "[if A]N[else].[endif]." "").value = false := by
    have rendered : (j.render "[if A]N[else].[endif]." "").value =
        collapseBlankLines (Renderer.start.run j.answers.flagSet
          (pieces "[if A]x/y[else].[endif].".toList)).value.text := by
      rw [Job.render_value, substituted]
      rfl
    rw [rendered, pieces_dots]
    decide +kernel
  have skipped : (j.process t (Path.ofString "t/[if A]N[else].[endif].")).value = .ok none :=
    (Job.process_eq_none_iff below).2 (.inr (.inr broken))
  have avoid : PlaceholdersAvoid '/' j.placeholders := by
    intro placeholder member
    obtain rfl := List.mem_singleton.1 member
    decide
  have brackets : BracketsClose "[if A]x/y[else].[endif].".toList := by decide +kernel
  have nested : WellNested (pieces "[if A]x/y[else].[endif].".toList) := by
    rw [pieces_dots]
    exact (wellNested_iff _).2 rfl
  exact ⟨skipped, Job.process_below_skipped avoid below (by decide) skipped (substituted ▸ brackets)
    (substituted ▸ nested.closed) t _ _ inside⟩

end Scaffold
