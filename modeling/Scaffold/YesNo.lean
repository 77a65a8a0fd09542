import Scaffold.Text

/-!
Yes and no in words. Blank characters around the word and the case of its letters do not
matter; no letter outside ASCII has one of these words as its lower case.
-/

namespace Scaffold

def yesNo? (answer : String) : Option Bool :=
  let word := Text.trim answer.toList
  if ["y", "yes", "true"].any word.sameLetters then some true
  else if ["n", "no", "false"].any word.sameLetters then some false
  else none

end Scaffold
