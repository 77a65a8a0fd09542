import Scaffold.Text

/-!
Blank lines: of every run of lines that hold only blank characters, the first one is kept.
-/

namespace Scaffold.Template

/-- The lines that are kept behind a line of which `afterBlank` says whether it was blank. -/
def keptLines (afterBlank : Bool) : List Text → List Text
  | [] => []
  | line :: rest =>
    if line.isAllBlank && afterBlank then keptLines true rest
    else line :: keptLines line.isAllBlank rest

def collapseBlankLines (text : String) : String :=
  String.ofList (keptLines false (Text.lines text.toList)).flatten

end Scaffold.Template
