import Scaffold.Error
import Scaffold.File.Bytes

/-!
Glob patterns, matched on bytes. A question mark and a class stand for one byte, a star for any
bytes, slashes included. Two stars next to a slash stand for whole directories. A class holds
the bytes of its characters.
-/

namespace Scaffold.Glob

inductive Part where
  | literal (c : Char)
  | anyByte
  | anyBytes
  /-- Nothing, or everything up to a slash. -/
  | upToSlash
  /-- A slash and everything behind it. -/
  | behindSlash
  /-- A slash, or everything from one slash to another. -/
  | betweenSlashes
  | oneOf (negated : Bool) (ranges : List (Char × Char))
  | choice (branches : List (List Part))

abbrev Pattern := List Part

def utf8 (c : Char) : Bytes := String.utf8EncodeChar c

def slash : UInt8 := 0x2f

/-- All ends of the input, the longest first. -/
def ends : Bytes → List Bytes
  | [] => [[]]
  | b :: rest => (b :: rest) :: ends rest

/-- What follows the slashes of the input. -/
def afterSlashes : Bytes → List Bytes
  | [] => []
  | b :: rest => if b = slash then rest :: afterSlashes rest else afterSlashes rest

def afterFirstSlash : Bytes → List Bytes
  | [] => []
  | b :: rest => if b = slash then [rest] else []

/-- A range goes from the last byte of its first character to the first byte of its last one;
the other bytes of both are members of their own. -/
def holds (range : Char × Char) (b : UInt8) : Bool :=
  let first := utf8 range.1
  let last := utf8 range.2
  if range.1 = range.2 then first.contains b
  else
    first.dropLast.contains b || last.tail.contains b ||
      (first.getLast?.any (· ≤ b) && last.head?.any (b ≤ ·))

mutual

/-- Whether a part stands for nothing at all. -/
def Part.isSilent : Part → Bool
  | .choice branches => areSilent branches
  | _ => false

def isSilent : List Part → Bool
  | [] => true
  | part :: rest => part.isSilent && isSilent rest

def areSilent : List (List Part) → Bool
  | [] => true
  | branch :: rest => isSilent branch && areSilent rest

end

mutual

/-- What can be left of the input behind a part. -/
def Part.left (input : Bytes) : Part → List Bytes
  | .literal c => if (utf8 c).isPrefixOf input then [input.drop (utf8 c).length] else []
  | .anyByte => if input.isEmpty then [] else [input.drop 1]
  | .anyBytes => ends input
  | .upToSlash => input :: afterSlashes input
  | .behindSlash => (afterFirstSlash input).flatMap ends
  | .betweenSlashes => (afterFirstSlash input).flatMap fun rest => rest :: afterSlashes rest
  | .oneOf negated ranges =>
    match input with
    | [] => []
    | b :: rest => if ranges.any (fun range => holds range b) != negated then [rest] else []
  | .choice branches =>
    if areSilent branches then [input] else leftOfChoice input branches

/-- Branches that stand for nothing do not count beside others. -/
def leftOfChoice (input : Bytes) : List (List Part) → List Bytes
  | [] => []
  | branch :: rest =>
    (if isSilent branch then [] else leftOfPattern [input] branch) ++ leftOfChoice input rest

def leftOfPattern (inputs : List Bytes) : List Part → List Bytes
  | [] => inputs
  | part :: rest => leftOfPattern (inputs.flatMap fun input => part.left input).eraseDups rest

end

def isLiteral : Part → Bool
  | .literal _ => true
  | _ => false

def isLiteralOf (c : Char) : Part → Bool
  | .literal other => other == c
  | _ => false

/-- A name right behind any directories. -/
def isNameAnywhere : Pattern → Bool
  | .upToSlash :: rest =>
    !rest.isEmpty && rest.all (fun part => isLiteral part && !isLiteralOf '/' part)
  | _ => false

def dropUpToSlash : Pattern → Pattern
  | .upToSlash :: rest => rest
  | parts => parts

/-- Any name with a given extension. -/
def isExtension (p : Pattern) : Bool :=
  match dropUpToSlash p with
  | .anyBytes :: .literal '.' :: rest =>
    rest.all fun part => isLiteral part && !isLiteralOf '.' part && !isLiteralOf '/' part
  | _ => false

/-- Literal text behind anything at all. -/
def isEnding (p : Pattern) : Bool :=
  match dropUpToSlash p with
  | .anyBytes :: rest => rest.all isLiteral
  | rest => rest.all isLiteral

/-- Whether a match is decided by the name of the file alone, at least by its extension. -/
def looksAtName (p : Pattern) : Bool :=
  isNameAnywhere p || isExtension p || !isEnding p

/-- Whether the last part of a path leads to the directory above. -/
def isUpwards (path : Bytes) : Bool :=
  (path.reverse.takeWhile (· != slash)) == [0x2e, 0x2e]

/-- A path that leads upwards in the end has no file name, so a pattern that ends in a literal
dot and looks at the name does not match it. -/
def isRefused (p : Pattern) (path : Bytes) : Bool :=
  isUpwards path && p.getLast?.any (isLiteralOf '.') && looksAtName p

/-- Two stars alone match everything. -/
def isEverything : Pattern → Bool
  | [.upToSlash] => true
  | _ => false

def isMatch (p : Pattern) (path : Bytes) : Bool :=
  isEverything p || (!isRefused p path && (leftOfPattern [path] p).contains [])

end Scaffold.Glob
