import Scaffold.Proofs.File.Pieces
import Scaffold.Proofs.Ignore.Rules

/-! What the standard patterns match. All characters of theirs but stars stand for themselves, so a
pattern without stars matches the path that it spells, and two stars and a slash in front make it
match the name in any directory. -/

namespace Scaffold

namespace Glob

def isPlain (c : Char) : Bool :=
  c ∉ ['?', '*', '[', '\x7b', '\x7d', ',', '\\']

theorem parseFrom_cons_of_plain {c : Char} (plain : isPlain c = true) (d : Draft)
    (before : Option Char) (room : Nat) (rest : Text) :
    parseFrom d before (room + 1) (c :: rest) =
      parseFrom (d.push (.literal c)) (some c) room rest := by
  rw [parseFrom]
  -- Every other branch is for a character that is not plain.
  all_goals
    rintro rfl
    exact absurd plain (by decide)

theorem parseFrom_of_plain {text : Text} (plain : text.all isPlain = true) (d : Draft)
    (before : Option Char) {room : Nat} (enough : text.length ≤ room) :
    parseFrom d before room text =
      .ok { d with branch := (text.map Part.literal).reverse ++ d.branch } := by
  induction text generalizing d before room with
  | nil => cases room <;> rfl
  | cons c text ih =>
    cases room with
    | zero => exact absurd enough (Nat.not_succ_le_zero text.length)
    | succ room =>
      rw [List.all_cons, Bool.and_eq_true] at plain
      rw [parseFrom_cons_of_plain plain.1, ih plain.2 _ _ (Nat.le_of_succ_le_succ enough)]
      simp [Draft.push]

theorem parse_of_parseFrom {line : String} {branch : Pattern}
    (drafted : parseFrom .start none line.length line.toList = .ok ⟨branch.reverse, [], []⟩) :
    parse line = .ok branch := by
  unfold parse
  rw [drafted]
  exact congrArg Except.ok (List.reverse_reverse branch)

theorem parse_of_plain {line : String} (plain : line.toList.all isPlain = true) :
    parse line = .ok (line.toList.map Part.literal) := by
  apply parse_of_parseFrom
  rw [parseFrom_of_plain plain _ _ (Nat.le_of_eq String.length_toList)]
  simp [Draft.start]

/-- Two stars and a slash in front of a name stand for any directories. -/
theorem parse_of_anywhere {line : String} {name : Text}
    (text : line.toList = '*' :: '*' :: '/' :: name) (plain : name.all isPlain = true) :
    parse line = .ok (.upToSlash :: name.map Part.literal) := by
  apply parse_of_parseFrom
  have length : line.length = name.length + 2 + 1 := by
    rw [← String.length_toList, text]
    rfl
  have opened : parseFrom .start none line.length line.toList =
      parseFrom (Draft.start.push .upToSlash) (some '/') (name.length + 2) name := by
    rw [length, text, parseFrom]
    simp [Draft.twoStars, Draft.start, Draft.isSlash]
  rw [opened, parseFrom_of_plain plain _ _ (by omega)]
  simp [Draft.start, Draft.push]

theorem mem_left_literal {c : Char} {inputs : List Bytes} {rest : Bytes}
    (among : utf8 c ++ rest ∈ inputs) :
    rest ∈ (inputs.flatMap fun input => (Part.literal c).left input).eraseDups := by
  rw [List.mem_eraseDups, List.mem_flatMap]
  refine ⟨utf8 c ++ rest, among, ?_⟩
  simp [Part.left]

theorem mem_leftOfPattern_literals {text : Text} {inputs : List Bytes} {rest : Bytes}
    (among : text.encoded ++ rest ∈ inputs) :
    rest ∈ leftOfPattern inputs (text.map Part.literal) := by
  induction text generalizing inputs with
  | nil => exact among
  | cons c text ih =>
    rw [Text.encoded, List.flatMap_cons, List.append_assoc] at among
    rw [List.map_cons, leftOfPattern]
    exact ih (mem_left_literal among)

theorem isMatch_of_mem_left {pattern : Pattern} {path : Bytes}
    (accepted : isRefused pattern path = false) (last : [] ∈ leftOfPattern [path] pattern) :
    isMatch pattern path = true := by
  rw [isMatch, accepted, List.contains_iff_mem.2 last]
  exact Bool.or_true _

theorem isMatch_literals (text : Text) : isMatch (text.map Part.literal) text.encoded = true := by
  have looksAtPath : looksAtName (text.map Part.literal) = false := by
    cases text with
    | nil => rfl
    | cons c text =>
      simp [looksAtName, isNameAnywhere, isExtension, isEnding, dropUpToSlash, isLiteral]
  apply isMatch_of_mem_left
  · rw [isRefused, looksAtPath, Bool.and_false]
  · apply mem_leftOfPattern_literals
    rw [List.append_nil]
    exact List.mem_cons_self

theorem mem_afterSlashes (front rest : Bytes) : rest ∈ afterSlashes (front ++ slash :: rest) := by
  induction front with
  | nil => simp [afterSlashes]
  | cons b front ih =>
    rw [List.cons_append, afterSlashes]
    split_ifs
    · exact List.mem_cons_of_mem _ ih
    · exact ih

theorem isMatch_anywhere {name : Text} (noDot : name.getLast? ≠ some '.') {path : Bytes}
    (ends : path = name.encoded ∨ ∃ front, path = front ++ slash :: name.encoded) :
    isMatch (.upToSlash :: name.map Part.literal) path = true := by
  have among : name.encoded ∈ path :: afterSlashes path := by
    rcases ends with rfl | ⟨front, rfl⟩
    · exact List.mem_cons_self
    · exact List.mem_cons_of_mem _ (mem_afterSlashes front name.encoded)
  apply isMatch_of_mem_left
  · have kept :
        (Part.upToSlash :: name.map Part.literal).getLast?.any (isLiteralOf '.') = false := by
      rw [List.getLast?_cons, List.getLast?_map]
      cases last : name.getLast? with
      | none => rfl
      | some c =>
        rw [last] at noDot
        simpa [isLiteralOf] using noDot
    rw [isRefused, kept, Bool.and_false, Bool.false_and]
  · rw [leftOfPattern]
    apply mem_leftOfPattern_literals
    rw [List.append_nil, List.mem_eraseDups, List.flatMap_singleton]
    exact among

end Glob

namespace IgnoreList

/-- What no project gets from a template, whatever the ignore file holds. -/
inductive IsReserved : String → Prop where
  | repository : IsReserved ".git"
  | ignoreFile : IsReserved ".msgenignore"
  | json : IsReserved "msgen.json"
  | yml : IsReserved "msgen.yml"
  | yaml : IsReserved "msgen.yaml"
  | store : IsReserved ".DS_Store"
  | innerStore (directory : String) : IsReserved (directory ++ "/.DS_Store")

theorem IsReserved.ne_empty {path : String} (reserved : IsReserved path) : path ≠ "" := by
  cases reserved with
  | repository | ignoreFile | json | yml | yaml | store => decide
  | innerStore directory => simp

theorem matches_of_plain {line : String} (plain : line.toList.all Glob.isPlain = true) :
    Matches line line := by
  refine ⟨_, Glob.parse_of_plain plain, ?_⟩
  rw [← String.ofList_toList (s := line), Bytes.ofString_ofList, String.toList_ofList]
  exact Glob.isMatch_literals line.toList

theorem IsReserved.exists_standard {path : String} (reserved : IsReserved path) :
    ∃ line ∈ standardLines, Matches line path := by
  have store : Glob.parse "**/.DS_Store" = .ok (.upToSlash :: ".DS_Store".toList.map .literal) :=
    Glob.parse_of_anywhere rfl rfl
  cases reserved with
  | repository | ignoreFile | json | yml | yaml =>
    exact ⟨_, by decide, matches_of_plain (by decide)⟩
  | store =>
    refine ⟨_, by decide, _, store, Glob.isMatch_anywhere (by decide) (.inl ?_)⟩
    rw [← Bytes.ofString_ofList, String.ofList_toList]
  | innerStore directory =>
    have bytes : Bytes.ofString (directory ++ "/.DS_Store") =
        Text.encoded directory.toList ++ Glob.slash :: Text.encoded ".DS_Store".toList :=
      calc Bytes.ofString (directory ++ "/.DS_Store")
          = Text.encoded (directory.toList ++ '/' :: ".DS_Store".toList) := by
            rw [← Bytes.ofString_ofList, String.ofList_append, String.ofList_toList]
            rfl
        _ = Text.encoded directory.toList ++ Glob.slash :: Text.encoded ".DS_Store".toList := by
            rw [Text.encoded, List.flatMap_append, List.flatMap_cons]
            rfl
    exact ⟨_, by decide, _, store, Glob.isMatch_anywhere (by decide) (.inr ⟨_, bytes⟩)⟩

theorem parse_standard : ∀ line ∈ standardLines, ∃ pattern, Glob.parse line = .ok pattern := by
  unfold standardLines
  simp only [List.forall_mem_cons]
  exact ⟨⟨_, rfl⟩, ⟨_, rfl⟩, ⟨_, rfl⟩, ⟨_, rfl⟩, ⟨_, rfl⟩, ⟨_, rfl⟩, ⟨_, rfl⟩, fun _ m => nomatch m⟩

variable {t : FileTree} {p : Path} {text : String}

theorem exists_fault_of_load (content : (t.readText p).toOption.getD "" = text) {rule : String}
    {fault : GlobFault} (isRule : IsRule text rule) (faulty : Glob.parse rule = .error fault) :
    ∃ before first after fault, patternLines text = before ++ first :: after ∧
      (∀ line ∈ before, ∃ pattern, Glob.parse line = .ok pattern) ∧
      Glob.parse first = .error fault ∧
      (load t p).value = .error (.badIgnorePattern first fault) := by
  cases loads : (load t p).value with
  | ok l =>
    obtain ⟨pattern, parsed⟩ := (exists_load_eq_ok_iff content).1 ⟨l, loads⟩ rule isRule
    exact nomatch faulty.symm.trans parsed
  | error e =>
    rw [load_value content] at loads
    obtain ⟨before, first, after, fault, split, good, bad, rfl⟩ := exists_of_ofLines_eq_error loads
    -- a standard pattern can be read, so what cannot stands behind all of them
    obtain ⟨own, rfl, rest⟩ | ⟨own, standard, rest⟩ := List.append_eq_append_iff.1 split
    · exact ⟨own, first, after, fault, rest,
        fun line member => good line (List.mem_append_right _ member), bad, rfl⟩
    · cases own with
      | nil => exact ⟨[], first, after, fault, rest.symm, List.forall_mem_nil _, bad, rfl⟩
      | cons next own =>
        obtain ⟨rfl, _⟩ := List.cons.inj rest
        have among : first ∈ standardLines := standard ▸ List.mem_append_right _ List.mem_cons_self
        obtain ⟨pattern, parsed⟩ := parse_standard first among
        exact nomatch bad.symm.trans parsed

end IgnoreList

end Scaffold
