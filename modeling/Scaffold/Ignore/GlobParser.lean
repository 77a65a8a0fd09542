import Scaffold.Ignore.Glob
import Scaffold.Text

/-!
Reading a glob pattern. Two stars are special at the start of a pattern or of a branch, behind
a slash, and at the end; elsewhere each of them is a star. A backslash takes the next character
as it is, except inside a class.
-/

namespace Scaffold.Glob

/-- The branches that are open, the innermost first and each with its last part first, and for
every open group the number of branches outside of it. -/
structure Draft where
  branch : Pattern
  outer : List Pattern
  groups : List Nat

namespace Draft

def start : Draft := ⟨[], [], []⟩

def push (d : Draft) (part : Part) : Draft := { d with branch := part :: d.branch }

def openBranch (d : Draft) : Draft := { d with branch := [], outer := d.branch :: d.outer }

def openGroup (d : Draft) : Draft :=
  { d.openBranch with groups := (d.outer.length + 1) :: d.groups }

/-- The branches of the innermost group become one part of the branch around them. -/
def closeGroup (d : Draft) : Except GlobFault Draft :=
  match d.groups with
  | [] => .error .unopenedGroup
  | size :: groups =>
    let count := d.outer.length + 1 - size
    let inner := ((d.branch :: d.outer).take count).map List.reverse
    match (d.branch :: d.outer).drop count with
    | [] => .error .unopenedGroup
    | branch :: outer => .ok ⟨.choice inner.reverse :: branch, outer, groups⟩

def pushTwoStars (d : Draft) : Draft := (d.push .anyBytes).push .anyBytes

/-- Replaces the part before two stars, which is a slash unless stars stand there already. -/
def replaceLast (d : Draft) (part : Part) : Draft :=
  match d.branch with
  | .upToSlash :: _ => d
  | .behindSlash :: _ => d
  | _ :: rest => { d with branch := part :: rest }
  | [] => d.push part

def isSlash (c : Option Char) : Bool := c = some '/'

def isInGroup (d : Draft) : Bool := !d.outer.isEmpty

/-- What two stars are, with the character before them and the text behind; the slash behind
them may belong to them. -/
def twoStars (d : Draft) (before : Option Char) (rest : Text) : Draft × Text :=
  let next := rest.head?
  if d.branch.isEmpty then
    if next = none || isSlash next then (d.push .upToSlash, rest.drop 1)
    else (d.pushTwoStars, rest)
  else if !isSlash before && !(d.isInGroup && (before = some ',' || before = some '\x7b')) then
    (d.pushTwoStars, rest)
  else if next = none || (d.isInGroup && (next = some ',' || next = some '\x7d')) then
    (d.replaceLast .behindSlash, rest)
  else if isSlash next then (d.replaceLast .betweenSlashes, rest.drop 1)
  else (d.pushTwoStars, rest)

end Draft

/-- A class being read. -/
structure ClassDraft where
  /-- The last range first. -/
  ranges : List (Char × Char)
  inRange : Bool

/-- Ends the last range at a character, or starts a range of its own. -/
def ClassDraft.add (d : ClassDraft) (c : Char) : Except GlobFault ClassDraft :=
  match d.ranges with
  | (first, _) :: rest =>
    if d.inRange then
      if c < first then .error (.invalidRange first c) else .ok ⟨(first, c) :: rest, false⟩
    else .ok ⟨(c, c) :: d.ranges, false⟩
  | [] => .ok ⟨[(c, c)], false⟩

/-- The ranges of a class behind its opening bracket, and the text behind the closing one. A
closing bracket that comes first is a member, and so is a hyphen that comes first or last. -/
def classRanges (first : Bool) (d : ClassDraft) :
    Text → Except GlobFault (List (Char × Char) × Text)
  | [] => .error .unclosedClass
  | c :: rest =>
    if c = ']' && !first then
      .ok ((if d.inRange then ('-', '-') :: d.ranges else d.ranges).reverse, rest)
    else if c = '-' && !first && !d.inRange then classRanges false { d with inRange := true } rest
    else
      match d.add c with
      | .error fault => .error fault
      | .ok d => classRanges false d rest

def classPart (rest : Text) : Except GlobFault (Part × Text) := do
  let negated := rest.head? = some '!' || rest.head? = some '^'
  let (ranges, after) ← classRanges true ⟨[], false⟩ (if negated then rest.drop 1 else rest)
  .ok (.oneOf negated ranges, after)

/-- The text of a pattern from the given place on; every part takes a character at least. -/
def parseFrom (d : Draft) (before : Option Char) : Nat → Text → Except GlobFault Draft
  | 0, _ => .ok d
  | _, [] => .ok d
  | room + 1, c :: rest =>
    match c with
    | '?' => parseFrom (d.push .anyByte) (some c) room rest
    | '*' =>
      if rest.head? = some '*' then
        let (next, after) := d.twoStars before (rest.drop 1)
        parseFrom next (if after.length < (rest.drop 1).length then some '/' else some '*') room
          after
      else parseFrom (d.push .anyBytes) (some c) room rest
    | '[' =>
      match classPart rest with
      | .error fault => .error fault
      | .ok (part, after) => parseFrom (d.push part) (some ']') room after
    | '\x7b' => parseFrom d.openGroup (some c) room rest
    | '\x7d' =>
      match d.closeGroup with
      | .error fault => .error fault
      | .ok next => parseFrom next (some c) room rest
    | ',' =>
      parseFrom (if d.groups.isEmpty then d.push (.literal ',') else d.openBranch) (some c) room
        rest
    | '\\' =>
      match rest with
      | [] => .error .danglingEscape
      | escaped :: after => parseFrom (d.push (.literal escaped)) (some escaped) room after
    | c => parseFrom (d.push (.literal c)) (some c) room rest

def parse (text : String) : Except GlobFault Pattern := do
  let d ← parseFrom .start none text.length text.toList
  if d.isInGroup then .error .unclosedGroup else .ok d.branch.reverse

end Scaffold.Glob
