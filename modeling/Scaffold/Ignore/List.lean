import Scaffold.File.Tree
import Scaffold.Ignore.GlobParser
import Scaffold.Journal

/-!
The ignore list of a template: standard patterns and those of its ignore file, one on a line.
Blank lines and lines that start with a number sign hold none. One pattern that cannot be read
makes the list an error.
-/

namespace Scaffold

structure IgnoreList where
  patterns : List Glob.Pattern

namespace IgnoreList

def fileName : Path := Path.ofString ".msgenignore"

/-- What never becomes a part of a project. -/
def standardLines : List String :=
  [".git", ".git/**", "**/.DS_Store", ".msgenignore", "msgen.json", "msgen.yml", "msgen.yaml"]

/-- The lines of a text that hold patterns. -/
def patternLines (text : String) : List String :=
  let lines := (Text.lines text.toList).map fun line => String.ofList (Text.trim line)
  lines.filter fun line => line != "" && line.toList.head? != some '#'

def parseLine (line : String) : Except Error Glob.Pattern :=
  match Glob.parse line with
  | .ok pattern => .ok pattern
  | .error fault => .error (.badIgnorePattern line fault)

def ofLines (lines : List String) : Except Error IgnoreList := do
  let patterns ← lines.mapM parseLine
  .ok ⟨patterns⟩

/-- An ignore file that cannot be read counts as absent. -/
def load (t : FileTree) (p : Path) : Recorded (Except Error IgnoreList) :=
  match t.readText p with
  | .ok text => pure (ofLines (standardLines ++ patternLines text))
  | .error _ => do
    note .ignoreFileAbsent
    pure (ofLines standardLines)

def ofTemplate (t : FileTree) (template : Path) : Recorded (Except Error IgnoreList) :=
  load t (template.join fileName)

def isMatch (l : IgnoreList) (path : Bytes) : Bool :=
  l.patterns.any fun pattern => Glob.isMatch pattern path

end IgnoreList

end Scaffold
