import Scaffold.Program

/-!
The command line. The files that a run may look at are read into a tree, and what the run has
changed in the tree is written back. Questions find no terminal.
-/

namespace Scaffold.Disk

def place (path : String) : Location := FileTree.names (Path.ofString path)

/-- The path of a place on the disk. -/
def path (place : Location) : String := Path.display (Path.slash :: Path.ofPieces place)

/-- What a link leads to, without what is in it. -/
def addTarget (t : FileTree) (target : String) : IO FileTree := do
  let metadata ← (← IO.FS.realPath target).metadata
  match metadata.type with
  | .dir => pure (t.put (place target) .directory)
  | .file => do
    let content ← IO.FS.readBinFile target
    pure (t.put (place target) (.file content))
  | _ => pure t

/-- The real path behind a link, or the link's own path if there is nothing behind it. -/
def target (link : String) : IO String := do
  try
    let real ← IO.FS.realPath link
    pure real.toString
  catch _ => pure link

def addLink (t : FileTree) (link : String) : IO FileTree := do
  let real ← target link
  let t := t.put (place link) (.link (Path.ofString real))
  if real = link then pure t else addTarget t real

/-- A directory and, as far as `depth` goes, all that is in it. -/
def addDirectory (t : FileTree) (directory : String) : (depth : Nat) → IO FileTree
  | 0 => pure (t.put (place directory) .directory)
  | depth + 1 => do
    let mut t := t.put (place directory) .directory
    for child in ← (← IO.FS.realPath directory).readDir do
      let path := child.path.toString
      match (← child.path.symlinkMetadata).type with
      | .dir => t ← addDirectory t path depth
      | .file => t := t.put (place path) (.file (← IO.FS.readBinFile path))
      | .symlink => t ← addLink t path
      | .other => pure ()
    pure t

/-- The directories on the way down to a path, and the links among them. -/
def addWay (t : FileTree) (start : String) : List Bytes → IO FileTree
  | [] => pure t
  | name :: rest => do
    let next := start ++ "/" ++ Bytes.display name
    try
      let real ← IO.FS.realPath next
      let t ← if real.toString = next then addTarget t next else addLink t next
      addWay t real.toString rest
    catch _ => pure t

/-- A path and, if it is a directory, what is in it down to a depth. -/
def addPath (t : FileTree) (here path : String) (depth : Nat) : IO FileTree := do
  let t ← addWay t (if path.startsWith "/" then "" else here)
    (FileTree.names (Path.ofString path))
  try
    let real ← IO.FS.realPath (if path.startsWith "/" then path else here ++ "/" ++ path)
    match (← real.metadata).type with
    | .dir => addDirectory t real.toString depth
    | _ => addTarget t real.toString
  catch _ => pure t

/-- The tree that a run with these arguments starts from. -/
def read (a : Arguments) (input : ByteArray) : IO Program.Surroundings := do
  let here := (← IO.currentDir).toString
  let start := { FileTree.empty with working := place here }
  let t ← addPath start "" here 1
  let t ← addPath t here a.template FileTree.pathLimit
  let t ← addPath t here (a.output.getD ".") 1
  let s : Program.Surroundings := ⟨t, input, [], .noTerminal⟩
  match (Program.prepare a s).value with
  | .error _ => pure s
  | .ok job =>
    let t ← addPath t here job.output.display FileTree.pathLimit
    pure { s with tree := t }

def writeEntry (entry : Location × Entry) : IO Unit :=
  match entry.2 with
  | .directory => IO.FS.createDirAll (path entry.1)
  | .file content => IO.FS.writeBinFile (path entry.1) content
  | .link _ => pure ()

end Scaffold.Disk

open Scaffold in
def main (words : List String) : IO UInt32 := do
  let start : Program.Surroundings ←
    match CommandLine.parse words with
    | .error _ => pure ⟨.empty, .empty, [], .noTerminal⟩
    | .ok a =>
      let input ← if a.stdin then (← IO.getStdin).readBinToEnd else pure .empty
      Disk.read a input
  let ending := Program.run words start
  for entry in ending.tree.changesFrom start.tree do
    Disk.writeEntry entry
  IO.print ending.out
  IO.eprint ending.err
  pure (UInt32.ofNat ending.exitCode)
