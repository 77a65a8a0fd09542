import Scaffold.Generation.Job

/-!
Generating a project. The template is walked from its root down, directories before what is in
them and names in the order of their bytes. A directory is listed when it is reached. An entry
that fails is reported and left out; only a directory that cannot be listed ends the walk.
-/

namespace Scaffold

/-- An entry of the project. -/
structure Generated where
  action : String
  target : Path
  deriving DecidableEq

/-- A walk so far. -/
structure Walk where
  tree : FileTree
  generated : List Generated
  failure : Option Error

namespace Walk

/-- The result of an operation that has been applied. -/
def applied (w : Walk) (operation : Operation) (change : FileTree.Change) : Recorded Walk :=
  match change.result with
  | .ok () =>
    pure { w with
      tree := change.tree
      generated := w.generated ++ [⟨operation.action, operation.target⟩] }
  | .error fault => do
    note (.entryFailed (Error.io fault).message)
    pure { w with tree := change.tree }

/-- Decides about an entry and carries the decision out. -/
def entry (j : Job) (w : Walk) (source : Path) : Recorded Walk := do
  match ← j.process w.tree source with
  | .error e =>
    note (.entrySkipped e.message)
    pure w
  | .ok none => pure w
  | .ok (some operation) => w.applied operation (operation.apply w.tree source)

/-- Goes on with every entry in turn until a failure ends the walk. -/
def each (visit : Walk → Path × Bool → Recorded Walk) (w : Walk) :
    List (Path × Bool) → Recorded Walk
  | [] => pure w
  | found :: rest =>
    if w.failure.isSome then pure w
    else do
      let w ← visit w found
      each visit w rest

/-- The paths right below a directory, each with whether it is a directory itself. -/
def below (directory : Path) (children : List (Bytes × Entry)) : List (Path × Bool) :=
  children.map fun child => (directory.join child.1, child.2 = .directory)

/-- Visits an entry and, if it is a directory, all that is in it. A path is too long before
the depth is used up. -/
def visit (j : Job) : (depth : Nat) → Walk → Path × Bool → Recorded Walk
  | 0, w, found => w.entry j found.1
  | depth + 1, w, found =>
    if found.2 then
      let listed := w.tree.list found.1
      do
        let w ← w.entry j found.1
        match listed with
        | .error fault =>
          pure { w with failure := some (.unreadableDirectory found.1.display fault) }
        | .ok children => each (visit j depth) w (below found.1 children)
    else w.entry j found.1

/-- The root of a walk and whether it is a directory, behind a link too. -/
def root (t : FileTree) (p : Path) : Except FileFault (Path × Bool) := do
  let _ ← t.locateLink p
  let place ← t.locate p
  .ok (p, t.isDirectoryAt place)

def template (j : Job) (w : Walk) : Recorded Walk :=
  match root w.tree j.template with
  | .error fault =>
    pure { w with failure := some (.unreadableDirectory j.template.display fault) }
  | .ok found => visit j FileTree.pathLimit w found

end Walk

/-- Generates a project; the output directory is made first. -/
def Job.generate (j : Job) (t : FileTree) : Recorded Walk := do
  note (.templateStarted j.template.display)
  let change := t.ensureDirectories j.output
  match change.result with
  | .error fault => pure ⟨change.tree, [], some (.io fault)⟩
  | .ok () => Walk.template j ⟨change.tree, [], none⟩

end Scaffold
