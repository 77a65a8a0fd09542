import Scaffold.File.Tree

/-!
What has to happen for one entry of a template. A file is written or copied after the
directories around its target are made.
-/

namespace Scaffold

inductive Operation where
  | create (target : Path)
  | copy (target : Path)
  | write (target : Path) (content : String)
  deriving DecidableEq

namespace Operation

def target : Operation → Path
  | .create target | .copy target | .write target _ => target

def action : Operation → String
  | .create _ => "Creating"
  | .copy _ => "Copying"
  | .write _ _ => "Writing"

/-- Makes the directories around a target; the root and the empty path have none. -/
def ensureAround (t : FileTree) (target : Path) : FileTree.Change :=
  match target.parent? with
  | none => .done t
  | some directory => t.ensureDirectories directory

def writeFile (t : FileTree) (target : Path) (content : String) : FileTree.Change :=
  (ensureAround t target).andThen fun t => .of t (t.write target content.toUTF8)

def copyFile (t : FileTree) (source target : Path) : FileTree.Change :=
  (ensureAround t target).andThen fun t => .of t (t.copy source target)

def apply (t : FileTree) (source : Path) : Operation → FileTree.Change
  | .create target => t.ensureDirectories target
  | .copy target => copyFile t source target
  | .write target content => writeFile t target content

end Operation

end Scaffold
