import Scaffold.Proofs.Generation.Skipping
import Scaffold.Proofs.Ignore.Standard

/-! Which entries of a template are ignored. A rule that matches the path of an entry, or that of a
directory around it, is enough, so what further lines add is never taken back, and neither the order
of the lines nor the blanks around them count. The standard patterns are always among the rules. -/

namespace Scaffold

def Encloses (outer path : String) : Prop := outer = path ∨ ∃ inner, path = outer ++ "/" ++ inner

theorem Encloses.ne_empty {outer path : String} (encloses : Encloses outer path)
    (nonempty : outer ≠ "") : path ≠ "" := by
  rcases encloses with rfl | ⟨inner, rfl⟩
  · exact nonempty
  · simp

def IgnoreList.Covers (rule path : String) : Prop :=
  ∃ outer, Encloses outer path ∧ Matches rule outer

namespace Job

theorem mem_withOuter_iff {part path : Text} :
    part ∈ withOuter path ↔ part = path ∨ ∃ rest, path = part ++ '/' :: rest := by
  constructor
  · intro member
    rcases List.mem_append.1 member with inside | last
    · obtain ⟨n, _, found⟩ := List.mem_filterMap.1 inside
      split_ifs at found with slash
      obtain rfl := Option.some.inj found
      obtain ⟨rest, split⟩ := List.head?_eq_some_iff.1 slash
      exact .inr ⟨rest, by rw [← split, List.take_append_drop]⟩
    · exact .inl (List.mem_singleton.1 last)
  · have self : part ∈ withOuter part := List.mem_append_right _ List.mem_cons_self
    rintro (rfl | ⟨rest, rfl⟩)
    · exact self
    · exact mem_withOuter_append_slash self rest

theorem isIgnored_iff {j : Job} {path : String} :
    j.isIgnored path = true ↔
      ∃ outer, Encloses outer path ∧ j.ignored.isMatch (Bytes.ofString outer) = true := by
  rw [isIgnored, List.any_eq_true]
  constructor
  · rintro ⟨part, member, isMatch⟩
    refine ⟨String.ofList part, ?_, isMatch⟩
    rcases mem_withOuter_iff.1 member with rfl | ⟨rest, split⟩
    · exact .inl String.ofList_toList
    · refine .inr ⟨String.ofList rest, ?_⟩
      rw [← String.toList_inj, split]
      simp
  · rintro ⟨outer, encloses, isMatch⟩
    refine ⟨outer.toList, mem_withOuter_iff.2 ?_, by rwa [String.ofList_toList]⟩
    rcases encloses with rfl | ⟨inner, rfl⟩
    · exact .inl rfl
    · exact .inr ⟨inner.toList, by simp⟩

def ignoring (path : String) : Recorded (Except Error (Option Operation)) :=
  ⟨.ok none, [.notice (.entryIgnored path)]⟩

theorem process_eq_ignoring_iff {j : Job} {t : FileTree} {source : Path} {path : String} :
    j.process t source = ignoring path ↔
      j.template.below? source = some path ∧ path ≠ "" ∧ j.isIgnored path = true := by
  unfold process
  cases below : j.template.below? source with
  | none => exact iff_of_false (fun same => nomatch same) fun found => nomatch found.1
  | some other =>
    dsimp only
    split_ifs with root ignored
    · refine iff_of_false (fun same => nomatch congrArg Recorded.events same) ?_
      rintro ⟨same, nonempty, _⟩
      exact nonempty (Option.some.inj same ▸ root)
    · constructor
      · intro same
        cases congrArg Recorded.events same
        exact ⟨rfl, root, ignored⟩
      · rintro ⟨same, _, _⟩
        cases same
        rfl
    · refine iff_of_false (fun same => ?_) ?_
      · -- what is not ignored either becomes something or is left out for the path it would have
        have value := congrArg Recorded.value same
        have events := congrArg Recorded.events same
        rw [Recorded.value_bind] at value
        rw [Recorded.events_bind] at events
        split_ifs at value events with valid
        · obtain ⟨_, _, kept⟩ := map_eq_ok_iff.1 value
          exact nomatch kept
        · rw [Recorded.events_bind, Recorded.events_pure, List.append_nil] at events
          have last := congrArg List.getLast? events
          simp [ignoring, note, record] at last
      · rintro ⟨same, _, isIgnored⟩
        exact ignored (Option.some.inj same ▸ isIgnored)

section

variable (j : Job) (ignored : IgnoreList)

theorem checkConditions_with_ignored (source : String) (conditions : List String) :
    { j with ignored := ignored }.checkConditions source conditions =
      j.checkConditions source conditions := by
  induction conditions with
  | nil => rfl
  | cons condition rest ih =>
    rw [checkConditions, checkConditions, ih]
    rfl

theorem render_with_ignored (text source : String) :
    { j with ignored := ignored }.render text source = j.render text source := by
  unfold render
  simp only [checkConditions_with_ignored]

theorem operation_with_ignored (t : FileTree) (source : Path) (path : String) (target : Path) :
    { j with ignored := ignored }.operation t source path target =
      j.operation t source path target := by
  unfold operation
  simp only [render_with_ignored]

variable {j ignored}

theorem process_with_ignored
    (same : ∀ path, { j with ignored := ignored }.isIgnored path = j.isIgnored path)
    (t : FileTree) (source : Path) :
    { j with ignored := ignored }.process t source = j.process t source := by
  unfold process
  simp only [same, render_with_ignored, operation_with_ignored, targetOf]

end

end Job

namespace IgnoreList

variable {t : FileTree} {p : Path} {text path : String} {j : Job}

/-- Of a loaded list, the rules that cover a path are the reason to ignore it. -/
theorem isIgnored_of_load (content : (t.readText p).toOption.getD "" = text)
    (loaded : (load t p).value = .ok j.ignored) :
    j.isIgnored path = true ↔ ∃ rule, IsRule text rule ∧ Covers rule path := by
  rw [load_value content] at loaded
  simp only [Job.isIgnored_iff, isMatch_of_ofLines loaded, mem_rules_iff]
  constructor
  · rintro ⟨outer, encloses, rule, isRule, isMatch⟩
    exact ⟨rule, isRule, outer, encloses, isMatch⟩
  · rintro ⟨rule, isRule, outer, encloses, isMatch⟩
    exact ⟨outer, encloses, rule, isRule, isMatch⟩

theorem isIgnored_of_more {t' : FileTree} {p' : Path} {other : String} {more : IgnoreList}
    (content : (t.readText p).toOption.getD "" = text) (loaded : (load t p).value = .ok j.ignored)
    (content' : (t'.readText p').toOption.getD "" = other) (loaded' : (load t' p').value = .ok more)
    (among : Text.LinesAmong text.toList other.toList) (isIgnored : j.isIgnored path = true) :
    { j with ignored := more }.isIgnored path = true := by
  obtain ⟨rule, isRule, covers⟩ := (isIgnored_of_load content loaded).1 isIgnored
  exact (isIgnored_of_load content' loaded').2 ⟨rule, isRule.among among, covers⟩

theorem isIgnored_of_reserved (content : (t.readText p).toOption.getD "" = text)
    (loaded : (load t p).value = .ok j.ignored) {reserved : String}
    (isReserved : IsReserved reserved) (encloses : Encloses reserved path) :
    j.isIgnored path = true := by
  obtain ⟨rule, standard, isMatch⟩ := isReserved.exists_standard
  exact (isIgnored_of_load content loaded).2 ⟨rule, .inl standard, reserved, encloses, isMatch⟩

end IgnoreList

/-- An ignore file, or an empty one where none can be read, is loaded exactly if all its rules can
be read; otherwise its first line that cannot is reported. An entry is then ignored exactly if a
rule covers its path. What is reserved, and all that is below it, is always ignored. With further
lines no entry is ignored any less, and with the same lines in another order or with other blanks
around them the same is decided about every entry. -/
theorem Job.ignoring_iff_rule (t : FileTree) (p : Path) (text : String)
    (content : (t.readText p).toOption.getD "" = text) :
    ((∃ ignored, (IgnoreList.load t p).value = .ok ignored) ↔
      ∀ rule, IgnoreList.IsRule text rule → ∃ pattern, Glob.parse rule = .ok pattern) ∧
    (∀ rule fault, IgnoreList.IsRule text rule → Glob.parse rule = .error fault →
      ∃ e, (IgnoreList.load t p).value = .error e ∧ e.kind = .ignoreFile ∧
        ∃ before first after firstFault,
          IgnoreList.patternLines text = before ++ first :: after ∧
          (∀ line ∈ before, ∃ pattern, Glob.parse line = .ok pattern) ∧
          Glob.parse first = .error firstFault ∧ e = .badIgnorePattern first firstFault) ∧
    ∀ j : Job, (IgnoreList.load t p).value = .ok j.ignored →
      (∀ s source path, j.process s source = ignoring path ↔
        j.template.below? source = some path ∧ path ≠ "" ∧
          ∃ rule, IgnoreList.IsRule text rule ∧ IgnoreList.Covers rule path) ∧
      (∀ s source path reserved, j.template.below? source = some path →
        IgnoreList.IsReserved reserved → Encloses reserved path →
          j.process s source = ignoring path) ∧
      ∀ (t' : FileTree) (p' : Path) (other : String),
        (t'.readText p').toOption.getD "" = other →
        Text.LinesAmong text.toList other.toList →
        (∀ ignored, (IgnoreList.load t' p').value = .ok ignored → ∀ s source path,
          j.process s source = ignoring path →
            { j with ignored := ignored }.process s source = ignoring path) ∧
        (Text.LinesAmong other.toList text.toList →
          ∃ ignored, (IgnoreList.load t' p').value = .ok ignored ∧
            ∀ s source, { j with ignored := ignored }.process s source = j.process s source) := by
  have compiles := IgnoreList.exists_load_eq_ok_iff content
  refine ⟨compiles, fun rule fault isRule faulty => ?_, fun j loaded => ⟨?_, ?_, ?_⟩⟩
  · obtain ⟨before, first, after, firstFault, split, good, bad, fails⟩ :=
      IgnoreList.exists_fault_of_load content isRule faulty
    exact ⟨_, fails, rfl, before, first, after, firstFault, split, good, bad, rfl⟩
  · intro s source path
    rw [process_eq_ignoring_iff, IgnoreList.isIgnored_of_load content loaded]
  · intro s source path reserved below isReserved encloses
    have isIgnored := IgnoreList.isIgnored_of_reserved content loaded isReserved encloses
    exact process_eq_ignoring_iff.2 ⟨below, encloses.ne_empty isReserved.ne_empty, isIgnored⟩
  · intro t' p' other content' among
    constructor
    · intro more loaded' s source path
      rw [process_eq_ignoring_iff, process_eq_ignoring_iff]
      rintro ⟨below, present, isIgnored⟩
      have still := IgnoreList.isIgnored_of_more content loaded content' loaded' among isIgnored
      exact ⟨below, present, still⟩
    · intro back
      obtain ⟨same, loaded'⟩ := (IgnoreList.exists_load_eq_ok_iff content').2 fun rule isRule =>
        compiles.1 ⟨_, loaded⟩ rule (isRule.among back)
      let k : Job := { j with ignored := same }
      refine ⟨same, loaded', process_with_ignored fun path => Bool.eq_iff_iff.2 ⟨?_, ?_⟩⟩
      · exact IgnoreList.isIgnored_of_more (j := k) content' loaded' content loaded back
      · exact IgnoreList.isIgnored_of_more content loaded content' loaded' among

/-- Lines in another order, a directory that is ignored, and a line that is no pattern. -/
theorem Job.ignoring_iff_rule_reordered :
    let t : FileTree :=
      ⟨[([Bytes.ofString "a"], .file " docs \r\n\n# all\nsrc/*.o\n".toUTF8),
        ([Bytes.ofString "b"], .file "src/*.o\n# all\ndocs".toUTF8),
        ([Bytes.ofString "c"], .file "docs\n[a\n".toUTF8)], []⟩
    ∃ ignored, (IgnoreList.load t (Path.ofString "a")).value = .ok ignored ∧
      let j : Job := ⟨Path.ofString "t", Path.ofString "out", ⟨"x", .empty⟩, [], ignored⟩
      j.process t (Path.ofString "t/docs/a/b") = ignoring "docs/a/b" ∧
        j.process t (Path.ofString "t/x/.DS_Store") = ignoring "x/.DS_Store" ∧
        (∃ same, (IgnoreList.load t (Path.ofString "b")).value = .ok same ∧
          ∀ s source, { j with ignored := same }.process s source = j.process s source) ∧
        ∃ e, (IgnoreList.load t (Path.ofString "c")).value = .error e ∧ e.kind = .ignoreFile := by
  intro t
  have content : (t.readText (Path.ofString "a")).toOption.getD "" =
      " docs \r\n\n# all\nsrc/*.o\n" := by decide +kernel
  have content' : (t.readText (Path.ofString "b")).toOption.getD "" =
      "src/*.o\n# all\ndocs" := by decide +kernel
  have faulty : (t.readText (Path.ofString "c")).toOption.getD "" = "docs\n[a\n" := by
    decide +kernel
  have among : Text.LinesAmong " docs \r\n\n# all\nsrc/*.o\n".toList
      "src/*.o\n# all\ndocs".toList := Text.linesAmong_iff.2 (by decide +kernel)
  have back : Text.LinesAmong "src/*.o\n# all\ndocs".toList
      " docs \r\n\n# all\nsrc/*.o\n".toList := Text.linesAmong_iff.2 (by decide +kernel)
  have loads : ((IgnoreList.load t (Path.ofString "a")).value.map fun _ => ()) = .ok () := by
    decide +kernel
  obtain ⟨ignored, loaded, _⟩ := map_eq_ok_iff.1 loads
  obtain ⟨_, _, decides⟩ := ignoring_iff_rule t (Path.ofString "a") _ content
  obtain ⟨_, fails, _⟩ := ignoring_iff_rule t (Path.ofString "c") _ faulty
  obtain ⟨iff_rule, of_reserved, reordered⟩ :=
    decides ⟨Path.ofString "t", Path.ofString "out", ⟨"x", .empty⟩, [], ignored⟩ loaded
  have within : (Path.ofString "t").below? (Path.ofString "t/docs/a/b") = some "docs/a/b" := by
    decide +kernel
  have store : (Path.ofString "t").below? (Path.ofString "t/x/.DS_Store") = some "x/.DS_Store" := by
    decide +kernel
  refine ⟨ignored, loaded, ?_, ?_, ?_, ?_⟩
  · refine (iff_rule t (Path.ofString "t/docs/a/b") _).2 ⟨within, by decide, "docs", ?_, ?_⟩
    · exact IgnoreList.mem_rules_iff.1 (by decide +kernel)
    · exact ⟨"docs", .inr ⟨"a/b", rfl⟩, _, rfl, by decide +kernel⟩
  · exact of_reserved t (Path.ofString "t/x/.DS_Store") _ _ store (.innerStore "x") (.inl rfl)
  · exact (reordered t (Path.ofString "b") _ content' among).2 back
  · obtain ⟨e, fails, kind, _⟩ := fails "[a" .unclosedClass
      (IgnoreList.mem_rules_iff.1 (by decide +kernel)) rfl
    exact ⟨e, fails, kind⟩

end Scaffold
