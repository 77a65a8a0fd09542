import Scaffold.Answers.Basic
import Scaffold.Generation.Operation
import Scaffold.Generation.TargetPath
import Scaffold.Ignore.List
import Scaffold.Template.Placeholder
import Scaffold.Template.Render

/-!
The decision about one entry of a template. Its path below the template is rendered like the
text of a file; an entry that is ignored, or whose rendered path is no path, is skipped. What
is no text is copied as it is.
-/

namespace Scaffold

/-- What a project is generated from. -/
structure Job where
  template : Path
  output : Path
  answers : Answers
  placeholders : List String
  ignored : IgnoreList

namespace Job

/-- The path itself and the paths of all directories around it. -/
def withOuter (path : Text) : List Text :=
  (List.range path.length).filterMap (fun n =>
    if (path.drop n).head? = some '/' then some (path.take n) else none) ++ [path]

def isIgnored (j : Job) (path : String) : Bool :=
  (withOuter path.toList).any fun part => j.ignored.isMatch (Bytes.ofString (String.ofList part))

/-- The flags of a condition that have no answer are reported. -/
def checkCondition (j : Job) (source condition : String) : Recorded Unit := do
  match ← Condition.read condition with
  | .error _ => note (.conditionUnreadable source condition)
  | .ok c =>
    let unknown := c.identifiers.filter fun name => !j.answers.flags.contains name
    ⟨(), unknown.map fun name => .notice (.lookupUndeclared source name)⟩

def checkConditions (j : Job) (source : String) : List String → Recorded Unit
  | [] => pure ()
  | condition :: rest => do
    j.checkCondition source condition
    j.checkConditions source rest

/-- Renders text of the entry `source` after its conditions are checked. -/
def render (j : Job) (text source : String) : Recorded String := do
  let substituted := Template.substitute j.placeholders j.answers.name text
  j.checkConditions source (Template.conditions substituted.toList)
  Template.render j.answers.flagSet substituted

/-- The operation for the content of an entry whose path is settled. -/
def operation (j : Job) (t : FileTree) (source : Path) (path : String) (target : Path) :
    Recorded (Except Error Operation) :=
  if t.isDirectory source then pure (.ok (.create target))
  else
    match t.read source with
    | .error fault => pure (.error (.entryUnreadable path fault))
    | .ok content =>
      match String.fromUTF8? content with
      | some text => do
        let rendered ← j.render text path
        pure (.ok (.write target rendered))
      | none => do
        note (.entryNotText path)
        pure (.ok (.copy target))

def targetOf (j : Job) (rendered : String) : Path := j.output.join (Path.ofString rendered)

/-- The operation for an entry; none if it is skipped. -/
def process (j : Job) (t : FileTree) (source : Path) :
    Recorded (Except Error (Option Operation)) :=
  match j.template.below? source with
  | none => pure (.error (.entryOutside source.display))
  | some path =>
    if path = "" then pure (.ok none)
    else if j.isIgnored path then do
      note (.entryIgnored path)
      pure (.ok none)
    else do
      let rendered ← j.render path path
      if TargetPath.isValid rendered then
        let target := j.targetOf rendered
        note (.entryStarted path target.display)
        let operation ← j.operation t source path target
        pure (operation.map some)
      else
        note (.entryPathBroken path rendered)
        pure (.ok none)

end Job

end Scaffold
