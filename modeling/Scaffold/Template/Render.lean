import Scaffold.Condition.Parser
import Scaffold.Template.BlankLines
import Scaffold.Template.Directive

/-!
Rendering a template. Text is visible where every open block is in the branch that was taken.
Directives leave no trace: white space directly behind one is dropped, and a line that held
nothing but directives and white space disappears with its end. Runs of blank lines are
collapsed at last.
-/

namespace Scaffold.Template

/-- An open block. -/
structure Block where
  condition : String
  holds : Bool
  inElse : Bool
  deriving DecidableEq

/-- Whether the branch being read is the one that was taken. -/
def Block.isActive (block : Block) : Bool := block.holds != block.inElse

/-- White space within a line. -/
def isSpace (c : Char) : Bool := c == ' ' || c == '\t' || c == '\r'

/-- What is known in the middle of a template: the open blocks, innermost first, the finished
lines of the output and the line being built. -/
structure Renderer where
  blocks : List Block
  visible : Bool
  finished : String
  line : String
  /-- White space is dropped, since a directive came last. -/
  trimming : Bool
  hasContent : Bool
  hasDirective : Bool
  /-- The line of the template, counted from one. -/
  sourceLine : Nat
  deriving DecidableEq

namespace Renderer

def start : Renderer :=
  { blocks := [], visible := true, finished := "", line := "", trimming := false,
    hasContent := false, hasDirective := false, sourceLine := 1 }

/-- The output so far. -/
def out (r : Renderer) : String := r.finished ++ r.line

/-- A line with directives and nothing else leaves nothing. -/
def isBare (r : Renderer) : Bool := r.hasDirective && !r.hasContent

/-- The renderer behind a directive that leaves `blocks` open. -/
def withBlocks (r : Renderer) (blocks : List Block) : Renderer :=
  { r with
    blocks := blocks
    visible := blocks.all Block.isActive
    hasDirective := true
    trimming := true }

def apply (flags : FlagSet) (r : Renderer) : Directive → Recorded Renderer
  | .ifHolds condition => do
    let value ← Condition.evaluate flags condition
    note (.conditionDecided condition value r.sourceLine)
    pure (r.withBlocks (⟨condition, value, false⟩ :: r.blocks))
  | .elseBranch =>
    match r.blocks with
    | [] => do
      note (.strayElse r.sourceLine)
      pure (r.withBlocks [])
    | block :: outer => pure (r.withBlocks ({ block with inElse := true } :: outer))
  | .endIf =>
    match r.blocks with
    | [] => do
      note (.strayEndIf r.sourceLine)
      pure (r.withBlocks [])
    | _ :: outer => pure (r.withBlocks outer)

/-- The line ends here: it joins the finished ones unless it is bare. -/
def endLine (r : Renderer) : Renderer :=
  { r with
    finished := if r.isBare then r.finished else (r.finished ++ r.line).push '\n'
    line := ""
    hasContent := false
    hasDirective := false }

/-- A visible character that is not dropped. -/
def write (r : Renderer) (c : Char) : Renderer :=
  if c = '\n' then r.endLine
  else { r with line := r.line.push c, hasContent := r.hasContent || !isSpace c }

def emit (r : Renderer) (c : Char) : Renderer :=
  if !r.visible || (r.trimming && isSpace c) then r
  else { r with trimming := false }.write c

def advance (r : Renderer) (source : Text) : Renderer :=
  { r with sourceLine := r.sourceLine + source.count '\n' }

def step (flags : FlagSet) (r : Renderer) : Piece → Recorded Renderer
  | .directive d source => do
    let r ← r.apply flags d
    pure (r.advance source)
  | .plain c => pure ((r.advance [c]).emit c)

def run (flags : FlagSet) (r : Renderer) : List Piece → Recorded Renderer
  | [] => pure r
  | piece :: rest => do
    let r ← r.step flags piece
    run flags r rest

/-- The text of a finished template, before blank lines are collapsed. -/
def text (r : Renderer) : String := if r.isBare then r.finished else r.out

/-- Blocks that are still open are reported from the outermost on. -/
def finish (r : Renderer) : Recorded String :=
  ⟨collapseBlankLines r.text, r.blocks.reverse.map fun b => .notice (.neverClosed b.condition)⟩

end Renderer

def render (flags : FlagSet) (template : String) : Recorded String := do
  let r ← Renderer.start.run flags (pieces template.toList)
  r.finish

end Scaffold.Template
