import Scaffold.Error
import Scaffold.File.Path

/-!
A tree of files: directories, files and symbolic links by their location, and the directory
that relative paths start from. A path is followed name by name, through at most 40 links; a
name has 255 bytes at most and a path less than 4096.
-/

namespace Scaffold

/-- The names from the root down. -/
abbrev Location := List Bytes

-- Before any other instance, so that contents are compared the same way with every library.
instance (priority := high) decidableEqContent : DecidableEq ByteArray :=
  ByteArray.instDecidableEq

inductive Entry where
  | directory
  | file (content : ByteArray)
  | link (target : Path)
  deriving DecidableEq

structure FileTree where
  entries : List (Location × Entry)
  working : Location
  deriving DecidableEq

namespace FileTree

def empty : FileTree := ⟨[], []⟩

/-- The root is always there. -/
def at? (t : FileTree) (place : Location) : Option Entry :=
  if place = [] then some .directory else t.entries.lookup place

def put (t : FileTree) (place : Location) (entry : Entry) : FileTree :=
  { t with entries := (place, entry) :: t.entries.filter fun other => other.1 ≠ place }

theorem lookup_filter_ne (entries : List (Location × Entry)) {place other : Location}
    (different : other ≠ place) :
    (entries.filter fun entry => entry.1 ≠ place).lookup other = entries.lookup other := by
  induction entries with
  | nil => rfl
  | cons entry rest ih =>
    obtain ⟨found, kept⟩ := entry
    simp only [ne_eq, decide_not] at ih
    by_cases same : found = place
    · have skipped : (other == place) = false := by simpa using different
      simp [same, List.lookup_cons, skipped, ih]
    · simp [same, List.lookup_cons, ih]

theorem at?_put_self (t : FileTree) {place : Location} (entry : Entry) (below : place ≠ []) :
    (t.put place entry).at? place = some entry := by
  simp [at?, put, below]

theorem at?_put_of_ne (t : FileTree) {place other : Location} (entry : Entry)
    (different : other ≠ place) : (t.put place entry).at? other = t.at? other := by
  have skipped : (other == place) = false := by simpa using different
  unfold at? put
  split
  · rfl
  · rw [List.lookup_cons, skipped]
    exact lookup_filter_ne t.entries different

def isDirectoryAt (t : FileTree) (place : Location) : Bool := t.at? place = some .directory

def nameLimit : Nat := 255

def pathLimit : Nat := 4096

def linkLimit : Nat := 40

/-- Where a path leads: to an entry, or to a free name in a directory. -/
inductive Spot where
  | taken (place : Location)
  | free (directory : Location) (name : Bytes) (slash : Bool)
  deriving DecidableEq

def endsInSlash (p : Path) : Bool := p.getLast? = some Path.slash

def names (p : Path) : List Bytes := p.pieces.filter (· ≠ [])

def parentName : Bytes := [Path.dot, Path.dot]

/-- The names in all links together. -/
def linkedNames (t : FileTree) : List Bytes :=
  t.entries.flatMap fun entry =>
    match entry.2 with
    | .link target => names target
    | _ => []

theorem length_names_le {t : FileTree} {place : Location} {target : Path}
    (found : t.at? place = some (.link target)) :
    (names target).length ≤ t.linkedNames.length := by
  have member : (place, .link target) ∈ t.entries := by
    unfold at? at found
    split at found
    · simp at found
    · obtain ⟨before, after, split, -⟩ := List.lookup_eq_some_iff.mp found
      simp [split]
  have part : (names target).Sublist t.linkedNames :=
    List.sublist_flatten_of_mem (List.mem_map.mpr ⟨_, member, rfl⟩)
  exact part.length_le

/-- Follows names from a place. A link at the end is followed if `follow` says so; a path that
ends in a slash has to end in a directory. -/
def walk (t : FileTree) (follow : Bool) (links : Nat) (place : Location) (slash : Bool)
    (todo : List Bytes) : Except FileFault Spot :=
  match todo with
  | [] => if slash && !t.isDirectoryAt place then .error .notDirectory else .ok (.taken place)
  | name :: rest =>
    if !t.isDirectoryAt place then .error .notDirectory
    else if name = [Path.dot] then walk t follow links place slash rest
    else if name = parentName then walk t follow links place.dropLast slash rest
    else if nameLimit < name.length then .error .nameTooLong
    else
      match _ : t.at? (place ++ [name]) with
      | none => if rest = [] then .ok (.free place name slash) else .error .notFound
      | some (.link target) =>
        if rest = [] && !follow && !slash then .ok (.taken (place ++ [name]))
        else
          match links with
          | 0 => .error .tooManyLinks
          | links + 1 =>
            walk t follow links (if target.isAbsolute then [] else place)
              (slash || (rest = [] && endsInSlash target)) (names target ++ rest)
      | some _ => walk t follow links (place ++ [name]) slash rest
-- One number instead of a pair, so that the kernel can follow a walk to its end.
termination_by links * (t.linkedNames.length + 1) + todo.length
decreasing_by
  · simp only [List.length_cons]; omega
  · simp only [List.length_cons]; omega
  · have bound := length_names_le ‹_›
    simp only [List.length_append, List.length_cons, Nat.succ_mul]
    omega
  · simp only [List.length_cons]; omega

/-- Where the path starts; a path that cannot be followed at all is refused. -/
def origin (t : FileTree) (p : Path) : Except FileFault Location :=
  if p.contains 0 then .error .nulInName
  else if pathLimit ≤ p.length then .error .nameTooLong
  else if p = [] then .error .notFound
  else .ok (if p.isAbsolute then [] else t.working)

def follow (t : FileTree) (p : Path) : Except FileFault Spot := do
  let start ← t.origin p
  t.walk true linkLimit start (endsInSlash p) (names p)

/-- The place of an entry, behind all links. -/
def locate (t : FileTree) (p : Path) : Except FileFault Location := do
  match ← t.follow p with
  | .taken place => .ok place
  | .free _ _ _ => .error .notFound

/-- The place of an entry; a link itself counts. -/
def locateLink (t : FileTree) (p : Path) : Except FileFault Location := do
  let start ← t.origin p
  match ← t.walk false linkLimit start (endsInSlash p) (names p) with
  | .taken place => .ok place
  | .free _ _ _ => .error .notFound

def entry? (t : FileTree) (p : Path) : Option Entry :=
  match t.locate p with
  | .ok place => t.at? place
  | .error _ => none

def contains (t : FileTree) (p : Path) : Bool := (t.entry? p).isSome

def isDirectory (t : FileTree) (p : Path) : Bool := t.entry? p = some .directory

def isFile (t : FileTree) (p : Path) : Bool :=
  match t.entry? p with
  | some (.file _) => true
  | _ => false

def read (t : FileTree) (p : Path) : Except FileFault ByteArray := do
  let place ← t.locate p
  match t.at? place with
  | some (.file content) => .ok content
  | some .directory => .error .isDirectory
  | _ => .error .notFound

def readText (t : FileTree) (p : Path) : Except FileFault String := do
  let content ← t.read p
  match String.fromUTF8? content with
  | some text => .ok text
  | none => .error .notText

/-- The name of an entry right below the place. -/
def childOf (place : Location) (entry : Location × Entry) : Option (Bytes × Entry) :=
  match entry.1.getLast? with
  | some name => if entry.1 = place ++ [name] then some (name, entry.2) else none
  | none => none

/-- The entries right below a place in the order of their names. -/
def children (t : FileTree) (place : Location) : List (Bytes × Entry) :=
  (t.entries.filterMap (childOf place)).mergeSort fun a b => a.1.isBefore b.1

def list (t : FileTree) (p : Path) : Except FileFault (List (Bytes × Entry)) := do
  let place ← t.locate p
  if t.isDirectoryAt place then .ok (t.children place) else .error .notDirectory

/-- Makes one directory. A link at the end of the path is not followed. -/
def makeDirectory (t : FileTree) (p : Path) : Except FileFault FileTree := do
  let start ← t.origin p
  match ← t.walk false linkLimit start false (names p) with
  | .taken _ => .error .alreadyExists
  | .free directory name _ => .ok (t.put (directory ++ [name]) .directory)

/-- What an operation leaves behind, whether it succeeds or not. -/
structure Change where
  tree : FileTree
  result : Except FileFault Unit

def Change.done (t : FileTree) : Change := ⟨t, .ok ()⟩

def Change.failed (t : FileTree) (fault : FileFault) : Change := ⟨t, .error fault⟩

def Change.andThen (c : Change) (next : FileTree → Change) : Change :=
  match c.result with
  | .ok () => next c.tree
  | .error _ => c

def Change.of (t : FileTree) : Except FileFault FileTree → Change
  | .ok changed => .done changed
  | .error fault => .failed t fault

/-- A directory that is there already is as good as one that is made. -/
def ensureDirectory (t : FileTree) (p : Path) : Change :=
  match t.makeDirectory p with
  | .ok changed => .done changed
  | .error fault => if t.isDirectory p then .done t else .failed t fault

/-- Makes a directory, and first those of `outer` that it lacks. -/
def ensureWithin (t : FileTree) (p : Path) : (outer : List Path) → Change
  | [] => t.ensureDirectory p
  | next :: outer =>
    match t.makeDirectory p with
    | .error .notFound =>
      if next = [] then .failed t .notFound
      else (ensureWithin t next outer).andThen fun t => t.ensureDirectory p
    | _ => t.ensureDirectory p

/-- The empty path needs nothing. -/
def ensureDirectories (t : FileTree) (p : Path) : Change :=
  if p = [] then .done t else t.ensureWithin p p.outer

/-- The place that a file at the path has or would have. -/
def placeForFile (t : FileTree) (p : Path) : Except FileFault Location := do
  let start ← t.origin p
  if endsInSlash p then
    match ← t.walk true linkLimit start true (names p).dropLast with
    | .taken _ => .error .isDirectory
    | .free _ _ _ => .error .notFound
  else
    match ← t.walk true linkLimit start false (names p) with
    | .taken place => if t.isDirectoryAt place then .error .isDirectory else .ok place
    | .free directory name slash =>
      if slash then .error .isDirectory else .ok (directory ++ [name])

def write (t : FileTree) (p : Path) (content : ByteArray) : Except FileFault FileTree := do
  let place ← t.placeForFile p
  .ok (t.put place (.file content))

/-- The place and the content of a file to be copied. -/
def regular (t : FileTree) (p : Path) : Except FileFault (Location × ByteArray) := do
  let place ← t.locate p
  match t.at? place with
  | some (.file content) => .ok (place, content)
  | _ => .error .notRegularSource

/-- The target is emptied before the source is read, so a file copied to itself is empty. -/
def copy (t : FileTree) (source target : Path) : Except FileFault FileTree := do
  let (place, content) ← t.regular source
  let destination ← t.placeForFile target
  .ok (t.put destination (.file (if destination = place then .empty else content)))

/-- The entries that are not in the other tree as they are in this one, outer ones first. -/
def changesFrom (t before : FileTree) : List (Location × Entry) :=
  let changed := t.entries.filter fun entry => before.at? entry.1 ≠ some entry.2
  changed.mergeSort fun a b => a.1.length ≤ b.1.length

end FileTree

end Scaffold
