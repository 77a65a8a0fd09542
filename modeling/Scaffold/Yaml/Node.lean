import Scaffold.Yaml.Token

/-!
The tree of a YAML document. A stream holds at most one document here. An anchor is known by
the number of names that were known before it; of two anchors with one number the later counts,
and an alias is resolved when the whole document is read.
-/

namespace Scaffold.Yaml

inductive Node where
  | scalar (style : Style) (tag : Option Text) (text : String)
  | sequence (items : List Node)
  | mapping (pairs : List (Node × Node))
  | alias (number : Nat)

/-- What stands where nothing is written. -/
def Node.empty : Node := .scalar .plain none ""

/-- The place of an anchor among all anchors, and its number. -/
structure Anchor where
  number : Nat
  start : Nat

structure Document where
  root : Node
  anchored : List (Anchor × Node)

namespace Document

/-- The node that an alias with that number stands for. -/
def target? (d : Document) (number : Nat) : Option Node :=
  let found := d.anchored.filter fun entry => entry.1.number = number
  let last := found.foldl
    (fun best entry =>
      match best with
      | none => some entry
      | some other => if other.1.start < entry.1.start then some entry else some other)
    (none : Option (Anchor × Node))
  last.map Prod.snd

/-- Follows an alias; the node behind it is none. -/
def resolve? (d : Document) : Node → Option Node
  | .alias number => d.target? number
  | node => some node

end Document

/-- The tokens ahead, the handles of tags, and the anchors so far. -/
structure TreeReader where
  tokens : List Token
  handles : List (Text × Text)
  names : List (String × Nat)
  started : Nat
  anchored : List (Anchor × Node)

abbrev Reading := StateT TreeReader Option

namespace Reading

def peek : Reading Token := do
  match (← get).tokens with
  | [] => failure
  | token :: _ => pure token

def skip : Reading Unit := modify fun r => { r with tokens := r.tokens.drop 1 }

/-- The anchor and the tag of a node, in either order. -/
def properties : Reading (Option String × Option WrittenTag) := do
  match ← peek with
  | .anchor name =>
    skip
    match ← peek with
    | .tag tag =>
      skip
      pure (some name, some tag)
    | _ => pure (some name, none)
  | .tag tag =>
    skip
    match ← peek with
    | .anchor name =>
      skip
      pure (some name, some tag)
    | _ => pure (none, some tag)
  | _ => pure (none, none)

def fullTag (tag : WrittenTag) : Reading Text := do
  if tag.handle = [] then pure tag.suffix
  else
    match (← get).handles.lookup tag.handle with
    | some start => pure (start ++ tag.suffix)
    | none => failure

def beginAnchor (name : String) : Reading Anchor := do
  let r ← get
  let number := r.names.length
  let others := r.names.filter fun entry => entry.1 ≠ name
  set { r with names := (name, number) :: others, started := r.started + 1 }
  pure ⟨number, r.started⟩

def endAnchor (anchor : Anchor) (node : Node) : Reading Unit :=
  modify fun r => { r with anchored := (anchor, node) :: r.anchored }

def aliased (name : String) : Reading Node := do
  match (← get).names.lookup name with
  | some number => pure (.alias number)
  | none => failure

/-- The tag `!` says nothing about a scalar. -/
def scalarTag (tag : Option Text) : Option Text := if tag = some ['!'] then none else tag

def endsBlockItem : Token → Bool
  | .blockEntry | .blockEnd => true
  | _ => false

def endsBlockPart : Token → Bool
  | .key | .value | .blockEnd => true
  | _ => false

def endsFlowItem : Token → Bool
  | .flowEntry | .flowSequenceEnd => true
  | _ => false

def endsFlowPart : Token → Bool
  | .flowEntry | .flowMappingEnd => true
  | _ => false

mutual

/-- Reads a node. Outside of flow collections it may be a block collection; as a part of a
mapping it may be a sequence that is not indented. -/
def node (inBlock inMapping : Bool) : Nat → Reading Node
  | 0 => failure
  | room + 1 => do
    match ← peek with
    | .alias name =>
      skip
      aliased name
    | _ =>
      let (name, written) ← properties
      let tag ← written.mapM fullTag
      let anchor ← name.mapM beginAnchor
      let node ← content inBlock inMapping tag (name.isSome || written.isSome) room
      let _ ← anchor.mapM fun anchor => endAnchor anchor node
      pure node

def content (inBlock inMapping : Bool) (tag : Option Text) (mayBeEmpty : Bool) :
    Nat → Reading Node
  | 0 => failure
  | room + 1 => do
    let token ← peek
    if token = .blockEntry && inMapping then
      let items ← plainItems room
      pure (.sequence items)
    else if token = .blockSequenceStart && inBlock then
      skip
      let items ← blockItems room
      pure (.sequence items)
    else if token = .blockMappingStart && inBlock then
      skip
      let pairs ← blockPairs room
      pure (.mapping pairs)
    else
      match token with
      | .scalar style text =>
        skip
        pure (.scalar style (scalarTag tag) (String.ofList text))
      | .flowSequenceStart =>
        skip
        let items ← flowItems true room
        pure (.sequence items)
      | .flowMappingStart =>
        skip
        let pairs ← flowPairs true room
        pure (.mapping pairs)
      | _ => if mayBeEmpty then pure (.scalar .plain tag "") else failure

def blockItems : Nat → Reading (List Node)
  | 0 => failure
  | room + 1 => do
    match ← peek with
    | .blockEntry =>
      skip
      let item ← if endsBlockItem (← peek) then pure .empty else node true false room
      let items ← blockItems room
      pure (item :: items)
    | .blockEnd =>
      skip
      pure []
    | _ => failure

/-- The items of a sequence that stands at the indentation of its mapping. -/
def plainItems : Nat → Reading (List Node)
  | 0 => failure
  | room + 1 => do
    match ← peek with
    | .blockEntry =>
      skip
      let next ← peek
      let item ← if endsBlockItem next || endsBlockPart next then pure .empty
        else node true false room
      let items ← plainItems room
      pure (item :: items)
    | _ => pure []

def blockPairs : Nat → Reading (List (Node × Node))
  | 0 => failure
  | room + 1 => do
    match ← peek with
    | .key =>
      skip
      let key ← if endsBlockPart (← peek) then pure .empty else node true true room
      let value ← blockValue room
      let pairs ← blockPairs room
      pure ((key, value) :: pairs)
    | .blockEnd =>
      skip
      pure []
    | _ => failure

def blockValue : Nat → Reading Node
  | 0 => failure
  | room + 1 => do
    match ← peek with
    | .value =>
      skip
      if endsBlockPart (← peek) then pure .empty else node true true room
    | _ => pure .empty

def flowItems (first : Bool) : Nat → Reading (List Node)
  | 0 => failure
  | room + 1 => do
    let token ← peek
    if token = .flowSequenceEnd then
      skip
      pure []
    else
      if !first then
        if token = .flowEntry then skip else failure
      match ← peek with
      | .key =>
        skip
        let pair ← flowPair room
        let items ← flowItems false room
        pure (.mapping [pair] :: items)
      | .flowSequenceEnd =>
        skip
        pure []
      | _ =>
        let item ← node false false room
        let items ← flowItems false room
        pure (item :: items)

/-- A pair inside a sequence. If its key is left out, the token in the place of the key is
passed over. -/
def flowPair : Nat → Reading (Node × Node)
  | 0 => failure
  | room + 1 => do
    let token ← peek
    let key ←
      if token = .value || endsFlowItem token then
        skip
        pure .empty
      else node false false room
    match ← peek with
    | .value =>
      skip
      let value ← if endsFlowItem (← peek) then pure .empty else node false false room
      pure (key, value)
    | _ => pure (key, .empty)

def flowPairs (first : Bool) : Nat → Reading (List (Node × Node))
  | 0 => failure
  | room + 1 => do
    let token ← peek
    if token = .flowMappingEnd then
      skip
      pure []
    else
      if !first then
        if token = .flowEntry then skip else failure
      match ← peek with
      | .key =>
        skip
        let next ← peek
        let key ← if next = .value || endsFlowPart next then pure .empty
          else node false false room
        let value ← flowValue room
        let pairs ← flowPairs false room
        pure ((key, value) :: pairs)
      | .flowMappingEnd =>
        skip
        pure []
      | _ =>
        let key ← node false false room
        let pairs ← flowPairs false room
        pure ((key, .empty) :: pairs)

def flowValue : Nat → Reading Node
  | 0 => failure
  | room + 1 => do
    match ← peek with
    | .value =>
      skip
      if endsFlowPart (← peek) then pure .empty else node false false room
    | _ => pure .empty

end

def standardHandles : List (Text × Text) :=
  [(['!'], ['!']), (['!', '!'], "tag:yaml.org,2002:".toList)]

/-- A document of version 1.1 or 1.2, in which no directive is repeated. -/
def directives (versionKnown : Bool) (handles : List (Text × Text)) :
    List Token → Option (List (Text × Text) × List Token)
  | .directive (.version major minor) :: rest =>
    if versionKnown || major ≠ 1 || (minor ≠ 1 && minor ≠ 2) then none
    else directives true handles rest
  | .directive (.tag handle start) :: rest =>
    if (handles.lookup handle).isSome then none
    else directives versionKnown (handles ++ [(handle, start)]) rest
  | rest => some (handles, rest)

def isDocumentEdge : Token → Bool
  | .directive _ | .documentStart | .documentEnd | .streamEnd => true
  | _ => false

/-- A node, at the end of which the stream ends too. -/
def wholeNode (room : Nat) : Reading Node := do
  let root ← if isDocumentEdge (← peek) then pure .empty else node true false room
  let rest := (← get).tokens.dropWhile (· = .documentEnd)
  if rest.head? = some .streamEnd then pure root else failure

end Reading

open Reading in
/-- The document of a stream, none if there is more than one. -/
def Document.ofTokens? (tokens : List Token) : Option Document :=
  let room := 4 * tokens.length + 4
  let read (handles : List (Text × Text)) (tokens : List Token) : Option Document :=
    ((wholeNode room).run ⟨tokens, handles ++ standardHandles, [], 0, []⟩).map
      fun (root, r) => ⟨root, r.anchored⟩
  match tokens.head? with
  | none => none
  | some .streamEnd => some ⟨.empty, []⟩
  | some .documentEnd => none
  | some _ =>
    match directives false [] tokens with
    | none => none
    | some (handles, .documentStart :: rest) => read handles rest
    | some (_, .streamEnd :: _) => none
    | some (_, rest) => if rest.length < tokens.length then none else read [] rest

def Document.read? (text : String) : Option Document := (tokens? text).bind Document.ofTokens?

end Scaffold.Yaml
