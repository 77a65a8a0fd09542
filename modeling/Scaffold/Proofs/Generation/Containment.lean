import Mathlib.Tactic.Common
import Scaffold.Generation.Job
import Scaffold.Proofs.Except
import Scaffold.Proofs.File.Components

/-! Where the operations of a job may write. The rendered path of an entry is checked part by
part, which settles what its bytes lead to below the output directory; an operation makes
directories only at its target and around it, so only on the way to the output directory and
within it. -/

namespace Scaffold

namespace FileTree

deriving instance DecidableEq for Change

inductive Made (allowed : Path → Prop) : FileTree → FileTree → Prop where
  | none (t : FileTree) : Made allowed t t
  | next {t between after : FileTree} {p : Path} (made : Made allowed t between)
      (isAllowed : allowed p) (makes : between.makeDirectory p = .ok after) :
      Made allowed t after

variable {allowed : Path → Prop}

theorem Made.trans {t between after : FileTree} (first : Made allowed t between)
    (second : Made allowed between after) : Made allowed t after := by
  induction second with
  | none => exact first
  | next _ isAllowed makes ih => exact .next ih isAllowed makes

theorem Made.mono {other : Path → Prop} (wider : ∀ p, allowed p → other p) {t after : FileTree}
    (made : Made allowed t after) : Made other t after := by
  induction made with
  | none => exact .none _
  | next _ isAllowed makes ih => exact .next ih (wider _ isAllowed) makes

theorem made_ensureDirectory (t : FileTree) {p : Path} (isAllowed : allowed p) :
    Made allowed t (t.ensureDirectory p).tree := by
  unfold ensureDirectory
  cases makes : t.makeDirectory p with
  | ok changed => exact .next (.none t) isAllowed makes
  | error fault =>
    dsimp only
    split_ifs <;> exact .none t

theorem Change.made_andThen {t : FileTree} {change : Change} {next : FileTree → Change}
    (first : Made allowed t change.tree)
    (second : Made allowed change.tree (next change.tree).tree) :
    Made allowed t (change.andThen next).tree := by
  unfold andThen
  cases change.result with
  | ok => exact first.trans second
  | error fault => exact first

theorem made_ensureWithin (t : FileTree) (p : Path) (outer : List Path)
    (allowedAll : ∀ outside ∈ p :: outer, allowed outside) :
    Made allowed t (t.ensureWithin p outer).tree := by
  have here : allowed p := allowedAll p List.mem_cons_self
  induction outer generalizing t p with
  | nil => exact made_ensureDirectory t here
  | cons next outer ih =>
    have around : ∀ outside ∈ next :: outer, allowed outside := fun outside member =>
      allowedAll outside (List.mem_cons_of_mem p member)
    rw [ensureWithin]
    split
    · split_ifs
      · exact .none t
      · exact Change.made_andThen (ih t next around (around next List.mem_cons_self))
          (made_ensureDirectory _ here)
    · exact made_ensureDirectory t here

def Outwards (allowed : Path → Prop) : Prop := ∀ p, allowed p → ∀ q ∈ p.outer, allowed q

theorem Outwards.made_ensureDirectories (outwards : Outwards allowed) (t : FileTree) {p : Path}
    (here : allowed p) : Made allowed t (t.ensureDirectories p).tree := by
  unfold ensureDirectories
  split_ifs
  · exact .none t
  · exact made_ensureWithin t p p.outer (List.forall_mem_cons.2 ⟨here, outwards p here⟩)

theorem outwards_leadsTo (p : Path) : Outwards fun outside => outside.LeadsTo p :=
  fun _ leads _ around => (Path.components_prefix_of_mem_outer around).trans leads

/-- All directories that are made for a path lead to it. -/
theorem made_ensureDirectories (t : FileTree) (p : Path) :
    Made (fun outside => outside.LeadsTo p) t (t.ensureDirectories p).tree :=
  (outwards_leadsTo p).made_ensureDirectories t List.prefix_rfl

end FileTree

namespace Operation

open FileTree

theorem made_ensureAround {allowed : Path → Prop} (outwards : Outwards allowed) (t : FileTree)
    {target : Path} (here : allowed target) : Made allowed t (ensureAround t target).tree := by
  unfold ensureAround
  cases parent : target.parent? with
  | none => exact .none t
  | some directory =>
    exact outwards.made_ensureDirectories t
      (outwards target here directory (List.mem_of_head? parent))

/-- The tree is `before`, or it has a file put at the place of the target. -/
def Puts (target : Path) (before after : FileTree) : Prop :=
  after = before ∨ ∃ place content, before.placeForFile target = .ok place ∧
    after = before.put place (.file content)

theorem puts_write (t : FileTree) (target : Path) (content : ByteArray) :
    Puts target t (Change.of t (t.write target content)).tree := by
  unfold FileTree.write
  cases found : t.placeForFile target with
  | error fault => exact .inl rfl
  | ok place => exact .inr ⟨place, content, found, rfl⟩

theorem puts_copy (t : FileTree) (source target : Path) :
    Puts target t (Change.of t (t.copy source target)).tree := by
  unfold FileTree.copy
  cases t.regular source with
  | error fault => exact .inl rfl
  | ok regular =>
    obtain ⟨place, content⟩ := regular
    cases found : t.placeForFile target with
    | error fault => exact .inl rfl
    | ok destination =>
      exact .inr ⟨destination, if destination = place then .empty else content, found, rfl⟩

theorem puts_andThen {target : Path} {change : Change} {next : FileTree → Change}
    (puts : ∀ t, Puts target t (next t).tree) :
    Puts target change.tree (change.andThen next).tree := by
  unfold Change.andThen
  cases change.result with
  | ok => exact puts change.tree
  | error fault => exact .inl rfl

/-- An operation makes directories at and around its target, and then puts one file at most. -/
theorem apply_made {allowed : Path → Prop} (outwards : Outwards allowed) (t : FileTree)
    (source : Path) {op : Operation} (here : allowed op.target) :
    ∃ made, Made allowed t made ∧ Puts op.target made (op.apply t source).tree := by
  cases op with
  | create target => exact ⟨_, outwards.made_ensureDirectories t here, .inl rfl⟩
  | copy target =>
    exact ⟨_, made_ensureAround outwards t here, puts_andThen fun t => puts_copy t source target⟩
  | write target content =>
    exact ⟨_, made_ensureAround outwards t here,
      puts_andThen fun t => puts_write t target content.toUTF8⟩

theorem apply_contained (t : FileTree) (source : Path) (op : Operation) :
    ∃ made, Made (fun p => p.LeadsTo op.target) t made ∧
      Puts op.target made (op.apply t source).tree :=
  apply_made (outwards_leadsTo op.target) t source List.prefix_rfl

end Operation

/-- The check of a rendered path, part by part: none is blank, hence none empty, and none leads
upwards. -/
theorem TargetPath.isValid_iff (rendered : String) :
    isValid rendered = true ↔ ∀ part ∈ parts rendered.toList,
      Text.isAllBlank part = false ∧ part ≠ ['.', '.'] := by
  simp [isValid, isValidPart]

/-- In bytes, a checked path is relative and has no piece that leads upwards. -/
theorem pieces_of_isValid {rendered : String} (valid : TargetPath.isValid rendered = true) :
    ∃ first rest, (Path.ofString rendered).pieces = first :: rest ∧ first ≠ [] ∧
      ∀ piece ∈ first :: rest, piece ≠ [Path.dot, Path.dot] := by
  rw [TargetPath.isValid_iff] at valid
  obtain ⟨first, rest, split⟩ := TargetPath.exists_parts rendered.toList
  have bytes : Path.ofString rendered = Text.encoded rendered.toList := by
    rw [← Bytes.ofString_ofList, String.ofList_toList, Path.ofString]
  have pieces : (Path.ofString rendered).pieces = (first :: rest).map Text.encoded := by
    rw [bytes, pieces_encoded, split]
  refine ⟨first.encoded, rest.map Text.encoded, pieces, ?_, ?_⟩
  · intro empty
    have blank := (valid first (split ▸ List.mem_cons_self)).1
    have same : first = [] := Text.encoded_inj (empty : first.encoded = Text.encoded [])
    rw [same] at blank
    exact nomatch blank
  · intro piece member upwards
    rw [← List.map_cons, ← split] at member
    obtain ⟨part, among, rfl⟩ := List.mem_map.1 member
    exact (valid part among).2 (Text.encoded_inj upwards)

namespace Job

/-- A directory is made for a directory; a file is written if its content is text, and copied if
it is not. -/
theorem operation_cases {j : Job} {t : FileTree} {source target : Path} {path : String}
    {op : Operation} (decided : (j.operation t source path target).value = .ok op) :
    op = .create target ∨ ∃ content, t.read source = .ok content ∧
      ((∃ text, String.fromUTF8? content = some text ∧
          op = .write target (j.render text path).value) ∨
        String.fromUTF8? content = none ∧ op = .copy target) := by
  unfold operation at decided
  split_ifs at decided
  · cases decided
    exact .inl rfl
  · right
    cases reads : t.read source with
    | error fault =>
      rw [reads] at decided
      exact nomatch decided
    | ok content =>
      rw [reads] at decided
      refine ⟨content, rfl, ?_⟩
      dsimp only at decided
      cases isText : String.fromUTF8? content with
      | none =>
        rw [isText] at decided
        cases decided
        exact .inr ⟨rfl, rfl⟩
      | some text =>
        rw [isText] at decided
        cases decided
        exact .inl ⟨text, rfl, rfl⟩

theorem target_operation {j : Job} {t : FileTree} {source target : Path} {path : String}
    {op : Operation} (decided : (j.operation t source path target).value = .ok op) :
    op.target = target := by
  obtain rfl | ⟨_, _, ⟨_, _, rfl⟩ | ⟨_, rfl⟩⟩ := operation_cases decided <;> rfl

/-- An operation is decided on for an entry below the template, with the path that the name is
rendered to. -/
theorem operation_of_process {j : Job} {t : FileTree} {source : Path} {op : Operation}
    (decided : (j.process t source).value = .ok (some op)) :
    ∃ path rendered, j.template.below? source = some path ∧ TargetPath.isValid rendered = true ∧
      (j.operation t source path (j.targetOf rendered)).value = .ok op := by
  unfold process at decided
  cases below : j.template.below? source with
  | none =>
    rw [below] at decided
    exact nomatch decided
  | some path =>
    rw [below] at decided
    dsimp only at decided
    split_ifs at decided with root ignored
    · exact nomatch decided
    · exact nomatch decided
    · rw [Recorded.value_bind] at decided
      refine ⟨path, (j.render path path).value, rfl, ?_⟩
      split_ifs at decided with valid
      · obtain ⟨operation, made, same⟩ := map_eq_ok_iff.1 decided
        cases same
        exact ⟨valid, made⟩
      · exact nomatch decided

theorem exists_rendered {j : Job} {t : FileTree} {source : Path} {op : Operation}
    (decided : (j.process t source).value = .ok (some op)) :
    ∃ rendered, TargetPath.isValid rendered = true ∧
      op.target = j.output.join (Path.ofString rendered) := by
  obtain ⟨_, rendered, _, valid, made⟩ := operation_of_process decided
  exact ⟨rendered, valid, target_operation made⟩

/-- Whatever the entry is called and whatever its name is rendered to, the target of an
operation is the output directory joined with a relative path without blank parts and without
one that leads upwards. It lies within the output directory, and the operation makes no
directory outside but those on the way there. -/
theorem process_contained {j : Job} {t : FileTree} {source : Path} {op : Operation}
    (decided : (j.process t source).value = .ok (some op)) :
    (∃ rendered : String, op.target = j.output.join (Path.ofString rendered) ∧
      (Path.ofString rendered).isAbsolute = false ∧
      ∀ part ∈ TargetPath.parts rendered.toList,
        Text.isAllBlank part = false ∧ part ≠ ['.', '.']) ∧
    op.target.IsWithin j.output ∧
    ∀ (current : FileTree) (origin : Path), ∃ made,
      FileTree.Made (fun p => p.LeadsTo j.output ∨ p.IsWithin j.output) current made ∧
        Operation.Puts op.target made (op.apply current origin).tree := by
  obtain ⟨rendered, valid, target⟩ := exists_rendered decided
  obtain ⟨first, rest, split, relative, noParent⟩ := pieces_of_isValid valid
  have notAbsolute : ¬ (Path.ofString rendered).isAbsolute = true := fun absolute =>
    relative ((Path.isAbsolute_iff _ split).1 absolute).1
  obtain ⟨added, whole, descends⟩ := Path.exists_components_join j.output split relative
    (split ▸ noParent)
  rw [← target] at whole
  refine ⟨⟨rendered, target, Bool.eq_false_iff.2 notAbsolute,
    (TargetPath.isValid_iff rendered).1 valid⟩, Path.isWithin_of_components whole descends, ?_⟩
  intro current origin
  obtain ⟨made, makes, puts⟩ := Operation.apply_contained current origin op
  exact ⟨made, makes.mono fun p leads => Path.leadsTo_or_isWithin leads whole descends, puts⟩

theorem process_contained_slash_in_name :
    let t : FileTree :=
      ⟨[([Bytes.ofString "t"], .directory),
        ([Bytes.ofString "t", Bytes.ofString "N.d"], .directory)], []⟩
    let j : Job :=
      ⟨Path.ofString "t", Path.ofString "a/../b", ⟨"x/y", .empty⟩, ["N"], ⟨[]⟩⟩
    (j.process t (Path.ofString "t/N.d")).value =
        .ok (some (.create (Path.ofString "a/../b/x/y.d"))) ∧
      (Path.ofString "a/../b/x/y.d").IsWithin j.output ∧
      ∃ made, FileTree.Made (fun p => p.LeadsTo j.output ∨ p.IsWithin j.output) t made ∧
        Operation.Puts (Path.ofString "a/../b/x/y.d") made
          ((Operation.create (Path.ofString "a/../b/x/y.d")).apply t
            (Path.ofString "t/N.d")).tree := by
  intro t j
  have decided : (j.process t (Path.ofString "t/N.d")).value =
      .ok (some (.create (Path.ofString "a/../b/x/y.d"))) := by decide +kernel
  obtain ⟨_, within, effects⟩ := process_contained decided
  exact ⟨decided, within, effects t (Path.ofString "t/N.d")⟩

end Job

end Scaffold
