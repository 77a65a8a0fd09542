import Scaffold.Proofs.Generation.Walking
import Scaffold.Proofs.Program.Preparation

/-! What a run that must not write over anything does to the files that are there. The check of
the output path comes before its directories are made, so it protects them unless these
directories make the path lead to where it did not lead before, which takes a `..` behind
something that was missing. -/

namespace Scaffold.Program

open FileTree

theorem grounded_ofString_of_isValid (t : FileTree) {name : String}
    (valid : ProjectName.isValid name.toList = true) : t.Grounded (Path.ofString name) := by
  intro front back split
  have short : (names (Path.ofString name)).length ≤ 1 := by
    rw [names, ProjectName.pieces_ofString valid]
    exact List.length_filter_le _ _
  rw [split, List.length_append, List.length_cons] at short
  obtain rfl : front = [] := List.eq_nil_of_length_eq_zero (by omega)
  exact ⟨t.base (Path.ofString name), by rw [walk]; rfl⟩

theorem outputPath_ne_nil {words : List String} {a : Arguments} {answers : Answers}
    (parsed : CommandLine.parse words = .ok a)
    (valid : ProjectName.isValid answers.name.toList = true) : outputPath a answers ≠ [] := by
  refine Path.ofString_ne_nil fun empty => ?_
  cases given : a.output with
  | none =>
    rw [given, Option.getD_none] at empty
    rw [empty] at valid
    exact nomatch valid
  | some output =>
    rw [given, Option.getD_some] at empty
    exact CommandLine.output_ne_empty parsed (empty ▸ given)

/-- A run without force leaves every entry that was there as it was, whatever the template and
the answers are, if each `..` of the output path stands behind something that is there, or if
what the path opens in the end is new. -/
theorem run_keeps_existing {words : List String} {s : Surroundings} (rooted : s.tree.Rooted)
    (spares : ∀ a, CommandLine.parse words = .ok a → a.force = false ∧
      ∀ output, a.output = some output →
        s.tree.Grounded (Path.ofString output) ∨ s.tree.OpensOnlyNew (Path.ofString output))
    {place : Location} {entry : Entry} (found : s.tree.at? place = some entry) :
    (run words s).tree.at? place = some entry := by
  cases parsed : CommandLine.parse words with
  | error fault => rwa [tree_run_of_fault parsed]
  | ok a =>
    obtain ⟨unforced, lands⟩ := spares a parsed
    cases ready : (prepare a s).value with
    | error e => rwa [tree_run_of_error parsed ready]
    | ok job =>
      rw [tree_run_of_prepare parsed ready]
      obtain ⟨answers, valid, output, absent⟩ := job_of_prepare ready
      have nonempty : job.output ≠ [] := output ▸ outputPath_ne_nil parsed valid
      have known : s.tree.Grounded job.output ∨ s.tree.OpensOnlyNew job.output := by
        rw [output, outputPath]
        cases given : a.output with
        | none => exact .inl (grounded_ofString_of_isValid s.tree valid)
        | some path => exact lands path given
      refine Job.generate_keeps rooted nonempty ?_ found
      rcases known with grounded | new
      · exact opensOnlyNew_of_grounded rooted nonempty grounded (absent unforced)
      · exact new

def sameNames : Surroundings where
  tree := ⟨[([Bytes.ofString "t"], .directory),
    ([Bytes.ofString "t", Bytes.ofString "a"], .file "new".toUTF8),
    ([Bytes.ofString "e"], .directory),
    ([Bytes.ofString "e", Bytes.ofString "a"], .file "old".toUTF8)], []⟩
  input := .empty
  replies := []
  spent := .noTerminal

theorem run_keeps_existing_upwards :
    let words := ["-t", "t", "-n", "svc", "-y", "e/../svc"]
    sameNames.tree.Rooted ∧ (∃ a, CommandLine.parse words = .ok a ∧ a.force = false ∧
      a.output = some "e/../svc" ∧ sameNames.tree.Grounded (Path.ofString "e/../svc")) ∧
      (run words sameNames).tree.at? [Bytes.ofString "e", Bytes.ofString "a"] =
        some (.file "old".toUTF8) := by
  intro words
  have rooted : sameNames.tree.Rooted := by decide
  have parsed : CommandLine.parse words =
      .ok ⟨"t", some "e/../svc", ⟨some "svc", [], []⟩, false, true, false, false⟩ := by
    decide +kernel
  have grounded : sameNames.tree.Grounded (Path.ofString "e/../svc") := by
    intro front back split
    have names : names (Path.ofString "e/../svc") =
        [Bytes.ofString "e", parentName, Bytes.ofString "svc"] := by decide
    rw [names] at split
    rcases front with _ | ⟨first, _ | ⟨second, _ | ⟨third, front⟩⟩⟩
    · exact absurd (List.cons.inj split).1 (by decide)
    · obtain rfl := (List.cons.inj split).1
      exact ⟨[Bytes.ofString "e"], by decide +kernel⟩
    · have last := (List.cons.inj (List.cons.inj (List.cons.inj split).2).2).1
      exact absurd last (by decide)
    · simp at split
  refine ⟨rooted, ⟨_, parsed, rfl, rfl, grounded⟩, run_keeps_existing rooted ?_ (by decide)⟩
  intro a same
  rw [parsed] at same
  cases same
  refine ⟨rfl, fun output given => ?_⟩
  cases given
  exact .inl grounded

def sidewards (ignored : IgnoreList) : Job where
  template := Path.ofString "t"
  output := Path.ofString "n/../e"
  answers := ⟨"svc", Interview.firstOffers .standard⟩
  placeholders := Questionnaire.standardPlaceholders
  ignored := ignored

theorem process_sidewards {ignored : IgnoreList}
    (unmatched : ignored.isMatch (Bytes.ofString "a") = false) {t : FileTree}
    (noDirectory : t.isDirectory (Path.ofString "t/a") = false)
    (reads : t.read (Path.ofString "t/a") = .ok "new".toUTF8) :
    ((sidewards ignored).process t (Path.ofString "t/a")).value =
      .ok (some (.write (Path.ofString "n/../e/a") "new")) := by
  have unignored : (sidewards ignored).isIgnored "a" = false := by
    have parts : Job.withOuter "a".toList = [['a']] := by decide
    rw [Job.isIgnored, parts, List.any_cons, List.any_nil, Bool.or_false]
    exact unmatched
  have below : (Path.ofString "t").below? (Path.ofString "t/a") = some "a" := by decide +kernel
  -- The ignore list has no part in rendering.
  have named : ((sidewards ⟨[]⟩).render "a" "a").value = "a" := by decide +kernel
  have text : ((sidewards ⟨[]⟩).render "new" "a").value = "new" := by decide +kernel
  have isText : String.fromUTF8? "new".toUTF8 = some "new" := by decide +kernel
  exact Job.process_of_text below (by decide) unignored named (by decide) noDirectory reads isText
    text

theorem generate_sidewards {ignored : IgnoreList}
    (unmatched : ignored.isMatch (Bytes.ofString "a") = false) :
    ((sidewards ignored).generate sameNames.tree).value.tree.at?
      [Bytes.ofString "e", Bytes.ofString "a"] = some (.file "new".toUTF8) := by
  let t := sameNames.tree.put [Bytes.ofString "n"] .directory
  have made : sameNames.tree.ensureDirectories (sidewards ignored).output = .done t := by
    show sameNames.tree.ensureDirectories (Path.ofString "n/../e") = _
    decide +kernel
  have starts : Walk.root t (sidewards ignored).template = .ok (Path.ofString "t", true) := by
    show Walk.root t (Path.ofString "t") = _
    decide +kernel
  have listed : t.list (Path.ofString "t") = .ok [(Bytes.ofString "a", .file "new".toUTF8)] := by
    decide +kernel
  have below : Walk.below (sidewards ignored).template [(Bytes.ofString "a", .file "new".toUTF8)] =
      [(Path.ofString "t/a", false)] := by
    show Walk.below (Path.ofString "t") _ = _
    decide +kernel
  have decided := process_sidewards unmatched (t := t) (by decide +kernel) (by decide +kernel)
  have written : (Operation.write (Path.ofString "n/../e/a") "new").apply t (Path.ofString "t/a") =
      .done (t.put [Bytes.ofString "e", Bytes.ofString "a"] (.file "new".toUTF8)) := by
    decide +kernel
  rw [Job.generate_of_listed made starts listed, below, Walk.each_write _ _ decided written]
  exact at?_put_self t _ (List.cons_ne_nil _ _)

/-- The file of the other directory is gone when the output path leads there by way of a
directory that is made for it. -/
theorem run_overwrites_behind_missing :
    let words := ["-t", "t", "-n", "svc", "-y", "n/../e"]
    sameNames.tree.Rooted ∧ (∃ a, CommandLine.parse words = .ok a ∧ a.force = false) ∧
      sameNames.tree.at? [Bytes.ofString "e", Bytes.ofString "a"] = some (.file "old".toUTF8) ∧
      (run words sameNames).tree.at? [Bytes.ofString "e", Bytes.ofString "a"] =
        some (.file "new".toUTF8) := by
  intro words
  have parsed : CommandLine.parse words =
      .ok ⟨"t", some "n/../e", ⟨some "svc", [], []⟩, false, true, false, false⟩ := by
    decide +kernel
  have free : ((IgnoreList.ofLines IgnoreList.standardLines).map
      fun ignored => ignored.isMatch (Bytes.ofString "a")) = .ok false := by decide +kernel
  obtain ⟨ignored, standard, unmatched⟩ := map_eq_ok_iff.1 free
  have unreadable : sameNames.tree.readText ((Path.ofString "t").join IgnoreList.fileName) =
      .error .notFound := by decide +kernel
  have listed := (IgnoreList.ofTemplate_of_unreadable unreadable).trans standard
  have loaded : (Questionnaire.load sameNames.tree (Path.ofString "t")).value = .ok .standard :=
    Questionnaire.load_of_absent (by decide +kernel)
  have ready : (prepare ⟨"t", some "n/../e", ⟨some "svc", [], []⟩, false, true, false, false⟩
      sameNames).value = .ok (sidewards ignored) := by
    refine prepare_eq_ok_iff.2 ⟨Path.ofString "t", .standard, .null,
      ⟨"svc", Interview.firstOffers .standard⟩, Path.ofString "n/../e", ignored, ?_, loaded, rfl,
      ?_, ?_, listed, rfl⟩
    all_goals decide +kernel
  refine ⟨by decide, ⟨_, parsed, rfl⟩, by decide, ?_⟩
  rw [tree_run_of_prepare parsed ready]
  exact generate_sidewards unmatched

end Scaffold.Program
