import Scaffold.File.Tree

/-!
The directories of a run: the template has to be there, the output only if it may be written
over.
-/

namespace Scaffold

def templateDirectory (t : FileTree) (p : Path) : Except Error Path :=
  if !t.contains p then .error (.templateMissing p.display)
  else if !t.isDirectory p then .error (.templateNotDirectory p.display)
  else .ok p

def outputDirectory (t : FileTree) (p : Path) (force : Bool) : Except Error Path :=
  if t.contains p && !force then .error (.outputExists p.display) else .ok p

end Scaffold
