import Locator.Yaml.Token

/-!
# YAML documents

The tree of nodes that a list of tokens describes. `Reading` says what is still to be read and which
anchors there were, and every grammar rule is a reader on it. The rules call each other with less
and less fuel; each takes at least one token between two rules for a node, so twice the number of
tokens is enough.

A node has the number of its anchor: how many different names were known before it. A name that is
used again gets a new number, and the next new name gets the same one; an alias means the node with
its number that starts last.
-/

namespace Locator.Yaml

inductive Node where
  | scalar (anchor : Option Nat) (text : String) (style : Style) (tag : Option Bytes)
  | sequence (anchor : Option Nat) (items : List Node)
  | mapping (anchor : Option Nat) (entries : List (Node × Node))
  | reference (anchor : Nat)

namespace Node

def anchor? : Node → Option Nat
  | scalar anchor _ _ _ | sequence anchor _ | mapping anchor _ => anchor
  | reference _ => none

mutual

/-- A node and all the nodes in it, in the order in which they start. -/
def nodes : Node → List Node
  | node@(scalar ..) | node@(reference _) => [node]
  | node@(sequence _ items) => node :: itemNodes items
  | node@(mapping _ entries) => node :: entryNodes entries

def itemNodes : List Node → List Node
  | [] => []
  | item :: rest => nodes item ++ itemNodes rest

def entryNodes : List (Node × Node) → List Node
  | [] => []
  | (key, value) :: rest => nodes key ++ nodes value ++ entryNodes rest

end

/-- The node that an alias means, in a document with this root. -/
def target? (root : Node) (anchor : Nat) : Option Node :=
  root.nodes.reverse.find? (·.anchor? == some anchor)

/-- The node itself, or what it is an alias of in a document with this root. -/
def follow (node root : Node) : Option Node :=
  match node with
  | reference anchor => root.target? anchor
  | node => some node

end Node

/-! ## Reading tokens -/

/-- The tokens still to be read, the number of each anchor's name, and what tag handles mean. -/
structure Reading where
  tokens : List Token
  anchors : List (String × Nat) := []
  handles : List (String × Bytes) := []

abbrev Reader := StateT Reading Option

namespace Reader

def peek : Reader (Option Token) := return (← get).tokens.head?

def skip : Reader Unit := modify fun reading => { reading with tokens := reading.tokens.tail }

/-- Takes a token if it comes next; says whether it did. -/
def takeIf (token : Token) : Reader Bool := do
  if (← peek) == some token then
    skip
    return true
  else return false

/-- Takes a token that has to come next. -/
def expect (token : Token) : Reader Unit := do
  if !(← takeIf token) then failure

/-- One of some tokens comes next. -/
def atOneOf (tokens : List Token) : Reader Bool :=
  return (← peek).any tokens.contains

end Reader

open Reader

/-! ## Properties -/

/-- The number of a new anchor. -/
def newAnchor (name : String) : Reader Nat := do
  let anchors := (← get).anchors
  modify fun reading =>
    { reading with anchors := (name, anchors.length) :: anchors.filter (·.1 ≠ name) }
  return anchors.length

/-- The bytes of a tag, with its handle replaced by what it means. -/
def resolveTag (tag : WrittenTag) : Reader Bytes := do
  if tag.handle.isEmpty then return tag.suffix
  else match (← get).handles.lookup tag.handle with
    | some meaning => return meaning ++ tag.suffix
    | none => failure

/-- What stands in front of a node. -/
structure Properties where
  anchor : Option Nat := none
  tag : Option Bytes := none

/-- There is an anchor or a tag, so that the node itself may be missing. -/
def Properties.present (properties : Properties) : Bool :=
  properties.anchor.isSome || properties.tag.isSome

/-- Reads the anchor or the tag of a node that has none yet. -/
def property (properties : Properties) : Reader Properties := do
  match ← peek with
  | some (.anchor name) =>
    if properties.anchor.isSome then return properties
    else
      skip
      return { properties with anchor := some (← newAnchor name) }
  | some (.tag tag) =>
    if properties.tag.isSome then return properties
    else
      skip
      return { properties with tag := some (← resolveTag tag) }
  | _ => return properties

/-- Reads an anchor and a tag, in either order. -/
def properties : Reader Properties := do property (← property {})

/-! ## Nodes -/

/-- A scalar that is missing. -/
def emptyNode (properties : Properties) : Node := .scalar properties.anchor "" .plain properties.tag

/-- Where a node stands: in brackets, in a block collection, or as a key or value of a block
mapping, where the entries of a sequence need not be indented. -/
inductive Place where
  | flow
  | block
  | blockMapping
  deriving DecidableEq

mutual

/-- Reads a node. -/
def node (place : Place) : Nat → Reader Node
  | 0 => failure
  | fuel + 1 => do
    if let some (.reference name) ← peek then
      skip
      match (← get).anchors.lookup name with
      | some anchor => return .reference anchor
      | none => failure
    else
      let properties ← properties
      let anchor := properties.anchor
      match ← peek with
      | some (.scalar text style) =>
        skip
        return .scalar anchor text style properties.tag
      | some .blockEntry =>
        -- no token opens a sequence that stands no deeper than its key
        if place = .blockMapping then return .sequence anchor (← entries true fuel)
        else if properties.present then return emptyNode properties
        else failure
      | some .flowSequenceStart => do
        skip
        return .sequence anchor (← flowItems true fuel)
      | some .flowMappingStart => do
        skip
        return .mapping anchor (← flowPairs true fuel)
      | some .blockSequenceStart => do
        -- brackets hold no block collection, so the node ends in front of it
        if place = .flow then
          if properties.present then return emptyNode properties else failure
        else
          skip
          return .sequence anchor (← entries false fuel)
      | some .blockMappingStart => do
        if place = .flow then
          if properties.present then return emptyNode properties else failure
        else
          skip
          return .mapping anchor (← pairs fuel)
      | _ => if properties.present then return emptyNode properties else failure

/-- Reads a node, or takes it as missing when one of some tokens comes next. -/
def nodeUnless (tokens : List Token) (place : Place) : Nat → Reader Node
  | 0 => failure
  | fuel + 1 => do
    if ← atOneOf tokens then return emptyNode {}
    else node place fuel

/-- Reads the entries of a block sequence. Without indentation it ends where no entry comes. -/
def entries (indentless : Bool) : Nat → Reader (List Node)
  | 0 => failure
  | fuel + 1 => do
    if ← takeIf .blockEntry then
      let ends : List Token :=
        if indentless then [.blockEntry, .key, .value, .blockEnd] else [.blockEntry, .blockEnd]
      let item ← nodeUnless ends .block fuel
      return item :: (← entries indentless fuel)
    else
      if !indentless then expect .blockEnd
      return []

/-- Reads the entries of a block mapping. -/
def pairs : Nat → Reader (List (Node × Node))
  | 0 => failure
  | fuel + 1 => do
    if ← takeIf .key then
      let ends : List Token := [.key, .value, .blockEnd]
      let key ← nodeUnless ends .blockMapping fuel
      let value ← if ← takeIf .value then nodeUnless ends .blockMapping fuel
        else pure (emptyNode {})
      return (key, value) :: (← pairs fuel)
    else
      expect .blockEnd
      return []

/-- Reads the items of a sequence in brackets. An item with a colon is a mapping of one entry. -/
def flowItems (first : Bool) : Nat → Reader (List Node)
  | 0 => failure
  | fuel + 1 => do
    if ← takeIf .flowSequenceEnd then return []
    else
      if !first then expect .flowEntry
      if ← takeIf .key then
        let key ← nodeUnless [.value, .flowEntry, .flowSequenceEnd] .flow fuel
        let value ← if ← takeIf .value then nodeUnless [.flowEntry, .flowSequenceEnd] .flow fuel
          else pure (emptyNode {})
        return .mapping none [(key, value)] :: (← flowItems false fuel)
      -- a comma may stand behind the last item
      else if ← takeIf .flowSequenceEnd then return []
      else
        let item ← node .flow fuel
        return item :: (← flowItems false fuel)

/-- Reads the entries of a mapping in brackets. -/
def flowPairs (first : Bool) : Nat → Reader (List (Node × Node))
  | 0 => failure
  | fuel + 1 => do
    if ← takeIf .flowMappingEnd then return []
    else
      if !first then expect .flowEntry
      if ← takeIf .key then
        let key ← nodeUnless [.value, .flowEntry, .flowMappingEnd] .flow fuel
        let value ← if ← takeIf .value then nodeUnless [.flowEntry, .flowMappingEnd] .flow fuel
          else pure (emptyNode {})
        return (key, value) :: (← flowPairs false fuel)
      else if ← takeIf .flowMappingEnd then return []
      else
        let key ← node .flow fuel
        return (key, emptyNode {}) :: (← flowPairs false fuel)

end

/-! ## Documents -/

/-- What the directives in front of a document fix. -/
structure Preamble where
  versionGiven : Bool := false
  handles : List (String × Bytes) := []

/-- Reads directives. The version may be given once, and so may the meaning of each handle. -/
def preamble (before : Preamble) : List Token → Option (Preamble × List Token)
  | .directive (.version major minor) :: rest =>
    if before.versionGiven || major ≠ 1 || (minor ≠ 1 && minor ≠ 2) then none
    else preamble { before with versionGiven := true } rest
  | .directive (.tag handle uri) :: rest =>
    if (before.handles.lookup handle).isSome then none
    else preamble { before with handles := before.handles ++ [(handle, uri)] } rest
  | tokens => some (before, tokens)

/-- The meaning of the handles that every document knows, unless a directive says otherwise. -/
def standardHandles : List (String × Bytes) :=
  [("!", Bytes.ofString "!"), ("!!", Bytes.ofString "tag:yaml.org,2002:")]

/-- Reads the root of a document, and then nothing but marks of its end may be left. -/
def root : Reader Node := do
  let fuel := 2 * (← get).tokens.length + 4
  let absent := (← get).tokens.isEmpty || (← atOneOf [.documentStart, .documentEnd])
  let root ← if absent then pure (emptyNode {}) else node .block fuel
  if (← get).tokens.all (· == .documentEnd) then return root else failure

/-- The root of the only document of a text; `none` inside when the text holds no document. -/
def document? (text : String) : Option (Option Node) := do
  let tokens ← tokens? text
  if tokens.isEmpty then return none
  else
    let (preamble, content) ← preamble {} tokens
    let explicit := content.head? == some .documentStart
    -- directives need a mark behind them, and the mark of an end needs a document in front
    if !explicit && (content.length < tokens.length || content.head? == some .documentEnd) then none
    let reading : Reading := {
      tokens := if explicit then content.tail else content
      handles := preamble.handles ++ standardHandles }
    return some (← root.run' reading)

end Locator.Yaml
