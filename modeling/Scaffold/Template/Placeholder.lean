import Scaffold.Text

/-!
Placeholders: every occurrence of a placeholder is replaced by the project name, one
placeholder after the other and each from left to right.
-/

namespace Scaffold.Template

/-- Replaces every occurrence of a nonempty needle, searching on behind each. -/
def replaceFound (needle value : Text) (cs : Text) : Text :=
  match cs with
  | [] => []
  | c :: rest =>
    if needle.isPrefixOf (c :: rest) then
      value ++ replaceFound needle value (rest.drop (needle.length - 1))
    else c :: replaceFound needle value rest
termination_by cs.length
decreasing_by
  · simp only [List.length_drop, List.length_cons]
    omega
  · exact Nat.lt_succ_self _

/-- The empty needle occurs before every character and at the end. -/
def replaceAll (needle value : Text) (cs : Text) : Text :=
  if needle = [] then cs.flatMap (fun c => value ++ [c]) ++ value
  else replaceFound needle value cs

def substitute (placeholders : List String) (value text : String) : String :=
  placeholders.foldl
    (fun text placeholder =>
      String.ofList (replaceAll placeholder.toList value.toList text.toList)) text

end Scaffold.Template
