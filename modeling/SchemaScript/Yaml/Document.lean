/- From tokens to the document that they describe. -/
import SchemaScript.Yaml.Node
import SchemaScript.Yaml.Token

namespace SchemaScript.Yaml

/-- What is left to read, and what was said before it. -/
structure Reading where
  tokens : List Token
  /-- Handles with the texts that they stand for. -/
  handles : List (Text × Bytes) := []
  /-- Names of anchors with their numbers. -/
  anchors : List (Text × Nat) := []

/-- A step of reading, which may find that the tokens describe nothing. -/
abbrev Reader := StateT Reading Option

namespace Reader

def peek : Reader (Option Token) := do
  return (← get).tokens.head?

def drop : Reader Unit :=
  modify fun r => { r with tokens := r.tokens.tail }

/-- Passes over the next token if it is a given one, and says whether it was. -/
def accept (t : Token) : Reader Bool := do
  if (← peek) == some t then
    drop
    return true
  else return false

def atAny (ts : List Token) : Reader Bool := do
  match ← peek with
  | some t => return ts.contains t
  | none => return false

/-- Gives an anchor its number: how many other names there are. A name that comes again takes a new
number. -/
def newAnchor (name : Text) : Reader Nat := do
  let id := (← get).anchors.length
  modify fun r => { r with anchors := (name, id) :: r.anchors.filter fun a => a.1 != name }
  return id

def anchorOf (name : Text) : Reader Nat := do
  let some a := (← get).anchors.find? fun a => a.1 == name | failure
  return a.2

def tagOf (handle : Text) (suffix : Bytes) : Reader Bytes := do
  if handle.isEmpty then return suffix
  let some h := (← get).handles.find? fun h => h.1 == handle | failure
  return h.2 ++ suffix

/-- An anchor and a tag, in either order, each at most once. -/
def properties : Reader Properties := do
  match ← peek with
  | some (.anchor name) =>
      drop
      let anchor ← newAnchorOf name
      match ← peek with
      | some (.tag handle suffix) =>
          drop
          return { anchor, tag := some (← tagOf handle suffix) }
      | _ => return { anchor }
  | some (.tag handle suffix) =>
      drop
      match ← peek with
      | some (.anchor name) =>
          drop
          let tag ← tagOf handle suffix
          return { anchor := ← newAnchorOf name, tag := some tag }
      | _ => return { tag := some (← tagOf handle suffix) }
  | _ => return {}
where
  newAnchorOf (name : Text) : Reader (Option Nat) := do
    return some (← newAnchor name)

mutual

/-- Reads a node. Block collections are read only in block context, and items without indentation
only where a mapping has its keys and values. -/
def node (isBlock unindented : Bool) : (fuel : Nat) → Reader Node
  | 0 => failure
  | fuel + 1 => do
      match ← peek with
      | some (.alias name) =>
          drop
          return .alias (← anchorOf name)
      | _ =>
          let p ← properties
          match ← peek with
          | some (.scalar plain text) =>
              drop
              return .scalar p plain text
          | some .flowSequenceStart =>
              drop
              return .sequence p (← flowItems true fuel)
          | some .flowMappingStart =>
              drop
              return .mapping p (← flowEntries true fuel)
          | next =>
              if unindented && next == some .blockEntry then
                return .sequence p (← unindentedItems fuel)
              else if isBlock && next == some .blockSequenceStart then
                drop
                return .sequence p (← blockItems fuel)
              else if isBlock && next == some .blockMappingStart then
                drop
                return .mapping p (← blockEntries fuel)
              else if p.anchor.isSome || p.tag.isSome then
                return .scalar p true []
              else failure

/-- Reads the items of a block sequence, each behind its hyphen. -/
def blockItems : (fuel : Nat) → Reader (List Node)
  | 0 => failure
  | fuel + 1 => do
      if ← accept .blockEnd then return []
      unless ← accept .blockEntry do failure
      let item ←
        if ← atAny [.blockEntry, .blockEnd] then pure .empty else node true false fuel
      return item :: (← blockItems fuel)

/-- Reads the items of a sequence that is not indented against its key. -/
def unindentedItems : (fuel : Nat) → Reader (List Node)
  | 0 => failure
  | fuel + 1 => do
      unless ← accept .blockEntry do return []
      let item ←
        if ← atAny [.blockEntry, .key, .value, .blockEnd] then pure .empty else node true false fuel
      return item :: (← unindentedItems fuel)

/-- Reads the entries of a block mapping. A key without a value has an empty one, and the other way
round. -/
def blockEntries : (fuel : Nat) → Reader (List (Node × Node))
  | 0 => failure
  | fuel + 1 => do
      if ← accept .blockEnd then return []
      unless ← accept .key do failure
      let key ←
        if ← atAny [.key, .value, .blockEnd] then pure .empty else node true true fuel
      let value ←
        if ← accept .value then
          if ← atAny [.key, .value, .blockEnd] then pure .empty else node true true fuel
        else pure .empty
      return (key, value) :: (← blockEntries fuel)

/-- Reads the items of a sequence in brackets. An item with a key is a mapping of one entry. -/
def flowItems (first : Bool) : (fuel : Nat) → Reader (List Node)
  | 0 => failure
  | fuel + 1 => do
      if ← accept .flowSequenceEnd then return []
      unless first do
        unless ← accept .flowEntry do failure
      if ← accept .flowSequenceEnd then return []
      let item ←
        if ← accept .key then
          pure (.mapping {} [← flowPair fuel])
        else node false false fuel
      return item :: (← flowItems false fuel)

/-- Reads the entry of an item with a key. Where the key is empty the token behind it is lost. -/
def flowPair : (fuel : Nat) → Reader (Node × Node)
  | 0 => failure
  | fuel + 1 => do
      let key ←
        if ← atAny [.value, .flowEntry, .flowSequenceEnd] then
          drop
          pure .empty
        else node false false fuel
      let value ←
        if ← accept .value then
          if ← atAny [.flowEntry, .flowSequenceEnd] then pure .empty else node false false fuel
        else pure .empty
      return (key, value)

def flowEntries (first : Bool) : (fuel : Nat) → Reader (List (Node × Node))
  | 0 => failure
  | fuel + 1 => do
      if ← accept .flowMappingEnd then return []
      unless first do
        unless ← accept .flowEntry do failure
      if ← accept .flowMappingEnd then return []
      let entry ←
        if ← accept .key then do
          let key ←
            if ← atAny [.value, .flowEntry, .flowMappingEnd] then pure .empty
            else node false false fuel
          let value ←
            if ← accept .value then
              if ← atAny [.flowEntry, .flowMappingEnd] then pure .empty else node false false fuel
            else pure .empty
          pure (key, value)
        else do
          pure (← node false false fuel, .empty)
      return entry :: (← flowEntries false fuel)

end

/-- Reads directives. There is one version at most, 1.1 or 1.2, and one text for each handle. -/
def directives : (fuel : Nat) → (version : Bool) → Reader Unit
  | 0, _ => failure
  | fuel + 1, version => do
      match ← peek with
      | some (.versionDirective major minor) =>
          drop
          if version || major != 1 || (minor != 1 && minor != 2) then failure
          directives fuel true
      | some (.tagDirective handle uri) =>
          drop
          if (← get).handles.any fun h => h.1 == handle then failure
          modify fun r => { r with handles := r.handles ++ [(handle, uri)] }
          directives fuel version
      | _ => return ()

/-- The handles that mean something without a directive. -/
def defaultHandles : List (Text × Bytes) :=
  [(['!'], Utf8.encode ['!']), (['!', '!'], Utf8.encode "tag:yaml.org,2002:".toList)]

def atDirective : Reader Bool := do
  match ← peek with
  | some (.versionDirective ..) | some (.tagDirective ..) => return true
  | _ => return false

/-- The next token ends a document that has said nothing yet. -/
def atDocumentBoundary : Reader Bool := do
  if ← atDirective then return true
  match ← peek with
  | none | some .documentStart | some .documentEnd => return true
  | _ => return false

/-- Passes over marks of the end of a document. -/
def dropEnds : (fuel : Nat) → Reader Unit
  | 0 => failure
  | fuel + 1 => do
      if ← accept .documentEnd then dropEnds fuel else return ()

/-- Reads all there is: at most one document, with marks of its end behind it. -/
def document (fuel : Nat) : Reader Document := do
  if (← peek).isNone then return .empty
  let announced ← (do return (← atDirective) || (← peek) == some .documentStart)
  if announced then directives fuel false
  modify fun r => { r with handles := r.handles ++ defaultHandles }
  if announced then unless ← accept .documentStart do failure
  let root ←
    if ← (do return announced && (← atDocumentBoundary)) then pure .empty
    else node true false fuel
  dropEnds fuel
  if (← peek).isSome then failure
  return .ofRoot root

end Reader

def Document.ofTokens? (ts : List Token) : Option Document :=
  (Reader.document (2 * ts.length + 4) |>.run { tokens := ts }).map (·.1)

end SchemaScript.Yaml
