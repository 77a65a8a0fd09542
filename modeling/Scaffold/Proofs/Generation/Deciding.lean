import Scaffold.Proofs.File.Straight
import Scaffold.Proofs.Generation.Ending
import Scaffold.Proofs.Generation.Listing

/-! What the decision about an entry depends on: the template alone. Where no link is in it, the
paths down from it lead to the same places as long as nothing in it changes, so the decision is the
same whatever has been generated by then. -/

namespace Scaffold

namespace FileTree

variable {t after : FileTree} {p : Path} {root place : Location} {inner : List Bytes}

structure Mirrors (t after : FileTree) (p : Path) (root : Location) : Prop where
  opens : t.OpensAt p root
  noLink : ∀ below target, t.at? (root ++ below) ≠ some (.link target)
  grows : Grows t after
  same : SameBelow t after root

namespace Mirrors

variable (mirrors : Mirrors t after p root) (named : ∀ name ∈ inner, IsEntryName name)

include mirrors

theorem nonempty : p ≠ [] := (eq_base_of_origin (locate_eq_ok_iff.1 mirrors.opens.locates).1).2

include named

theorem walk_eq (ends : Bool) :
    after.walk true linkLimit (after.base p) ends (names p ++ inner) =
      t.walk true linkLimit (t.base p) ends (names p ++ inner) := by
  have opens' := mirrors.opens.grows mirrors.grows
  by_cases empty : inner = []
  · rw [empty, List.append_nil, (mirrors.opens.route ends).walk, (opens'.route ends).walk]
  · obtain ⟨left, onwards⟩ := (mirrors.opens.route ends).walk_append
    obtain ⟨left', onwards'⟩ := (opens'.route ends).walk_append
    have downwards : parentName ∉ inner := fun among => (named parentName among).notParent rfl
    rw [onwards true ends inner empty, onwards' true ends inner empty,
      mirrors.same.walk_eq mirrors.noLink downwards]

theorem locate_eq : after.locate (p.descend inner) = t.locate (p.descend inner) := by
  have starts : after.origin (p.descend inner) = t.origin (p.descend inner) :=
    origin_of_grows mirrors.grows
  have base_eq : ∀ t : FileTree, t.base (p.descend inner) = t.base p := fun t => by
    rw [base, base, Path.isAbsolute_descend mirrors.nonempty named]
  have walks := mirrors.walk_eq named (endsInSlash (p.descend inner))
  unfold locate follow
  rw [starts, Path.names_descend mirrors.nonempty named]
  cases begins : t.origin (p.descend inner) with
  | error fault => rfl
  | ok start =>
    have same : after.base p = t.base p := by rw [base, base, mirrors.grows.working]
    rw [(eq_base_of_origin begins).1, base_eq]
    rw [same] at walks
    dsimp only [bind, Except.bind]
    rw [walks]

theorem within (located : t.locate (p.descend inner) = .ok place) : root <+: place := by
  by_cases empty : inner = []
  · subst empty
    cases mirrors.opens.locates.symm.trans located
    exact List.prefix_rfl
  · obtain ⟨_, route⟩ := locate_eq_ok_iff.1 located
    have walks := route.walk
    obtain ⟨left, onwards⟩ := (mirrors.opens.route false).walk_append
    rw [base, Path.isAbsolute_descend mirrors.nonempty named, ← base,
      Path.names_descend mirrors.nonempty named, onwards true _ inner empty] at walks
    exact (route_of_walk walks).within List.prefix_rfl
      (fun name among => (named name among).notParent) mirrors.noLink

theorem at?_eq (located : t.locate (p.descend inner) = .ok place) :
    after.at? place = t.at? place := by
  obtain ⟨below, rfl⟩ := mirrors.within named located
  exact mirrors.same below

theorem entry?_eq : after.entry? (p.descend inner) = t.entry? (p.descend inner) := by
  unfold entry?
  rw [mirrors.locate_eq named]
  cases located : t.locate (p.descend inner) with
  | error fault => rfl
  | ok place => exact mirrors.at?_eq named located

theorem isDirectory_eq : after.isDirectory (p.descend inner) = t.isDirectory (p.descend inner) := by
  simp only [isDirectory, mirrors.entry?_eq named]

theorem read_eq : after.read (p.descend inner) = t.read (p.descend inner) := by
  unfold FileTree.read
  rw [mirrors.locate_eq named]
  cases located : t.locate (p.descend inner) with
  | error fault => rfl
  | ok place =>
    dsimp only [bind, Except.bind]
    rw [mirrors.at?_eq named located]

end Mirrors

end FileTree

open FileTree

namespace Job

variable {j : Job} {t after : FileTree} {root : Location} {source target : Path}
  {op : Operation} {content : ByteArray}

theorem process_eq (mirrors : Mirrors t after j.template root) {inner : List Bytes}
    (named : ∀ name ∈ inner, IsEntryName name) :
    j.process after (j.template.descend inner) = j.process t (j.template.descend inner) := by
  unfold process operation
  rw [mirrors.isDirectory_eq named, mirrors.read_eq named]

inductive Yields (j : Job) (t : FileTree) (source : Path) : Operation → ByteArray → Prop
  | rendered {target : Path} {path text : String} {content : ByteArray}
      (below : j.template.below? source = some path) (reads : t.read source = .ok content)
      (isText : String.fromUTF8? content = some text) :
      Yields j t source (.write target (j.render text path).value)
        (j.render text path).value.toUTF8
  | copied {target : Path} {content : ByteArray} (reads : t.read source = .ok content)
      (noText : String.fromUTF8? content = none) : Yields j t source (.copy target) content

theorem Yields.putsFile (yields : j.Yields t source op content) : op.putsFile = true := by
  cases yields <;> rfl

theorem yields_of_write {text : String}
    (decided : (j.process t source).value = .ok (some (.write target text))) :
    j.Yields t source (.write target text) text.toUTF8 := by
  obtain ⟨path, rendered, below, _, made⟩ := operation_of_process decided
  obtain same | ⟨content, reads, ⟨text', isText, same⟩ | ⟨_, same⟩⟩ := operation_cases made
  · exact nomatch same
  · cases same
    exact .rendered below reads isText
  · exact nomatch same

theorem yields_of_copy (decided : (j.process t source).value = .ok (some (.copy target))) :
    ∃ content, t.read source = .ok content ∧ j.Yields t source (.copy target) content := by
  obtain ⟨path, rendered, below, _, made⟩ := operation_of_process decided
  obtain same | ⟨content, reads, ⟨text', isText, same⟩ | ⟨noText, same⟩⟩ := operation_cases made
  · exact nomatch same
  · exact nomatch same
  · exact ⟨content, reads, .copied reads noText⟩

theorem target_ne_nil (decided : (j.process t source).value = .ok (some op)) : op.target ≠ [] := by
  obtain ⟨rendered, valid, target⟩ := exists_rendered decided
  obtain ⟨first, rest, pieces, relative, _⟩ := pieces_of_isValid valid
  have nonempty : Path.ofString rendered ≠ [] := by
    intro empty
    rw [empty] at pieces
    cases pieces
    exact relative rfl
  rw [target, Path.join]
  split_ifs
  · exact nonempty
  · exact List.append_ne_nil_of_right_ne_nil _ nonempty
  · exact List.append_ne_nil_of_right_ne_nil _ (List.cons_ne_nil _ _)

end Job

end Scaffold
