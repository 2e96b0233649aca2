import DocTree.Yaml.Token

/-!
# Nodes of a configuration text

A text is one document, and a document is one node: a scalar, a sequence or a mapping. A node can be
named by an anchor and be used again by its name.
-/

namespace DocTree.Yaml

/-- The **nodes**. A scalar without a tag may be plain. -/
inductive Node where
  | scalar (tag? : Option String) (isPlain : Bool) (text : String)
  | sequence (tag? : Option String) (items : List Node)
  | mapping (tag? : Option String) (entries : List (Node × Node))

/-- What is known while nodes are read: the tokens, the failure behind them, the named nodes, and
the handles of tags. -/
structure Reader where
  tokens : List Token
  behind : Failure
  anchors : List (String × Option Node) := []
  handles : List (String × String) := []

/-- Work on tokens. -/
abbrev Read := StateT Reader (Except Failure)

namespace Read

def badOrder : Read α := throw (.malformedConfig .order)

def peek : Read Token := do
  match (← get).tokens with
  | t :: _ => return t
  | [] => throw (← get).behind

def drop : Read Unit := modify fun r => { r with tokens := r.tokens.tail }

/-- Goes past the next token if it is the one given. -/
def skip? (t : Token) : Read Bool := do
  if (← peek) = t then
    drop
    return true
  else return false

def expect (t : Token) : Read Unit := do
  if !(← skip? t) then badOrder

/-- Whether the next token is among some. -/
def at? (ts : List Token) : Read Bool := return ts.contains (← peek)

/-- A scalar that is not written. -/
def absent : Node := .scalar none true ""

/-- The full name of a tag. A tag of a mere exclamation mark says nothing. -/
def fullTag (handle? : Option String) (suffix : String) : Read String := do
  match handle? with
  | none => return suffix
  | some handle =>
    match (← get).handles.lookup handle with
    | some start => return start ++ suffix
    | none => badOrder

/-- An anchor and a tag, in either order. -/
def properties : Read (Option String × Option String) := do
  match ← peek with
  | .anchor name =>
    drop
    match ← peek with
    | .tag h s =>
      drop
      return (some name, some (← fullTag h s))
    | _ => return (some name, none)
  | .tag h s =>
    drop
    match ← peek with
    | .anchor name =>
      drop
      return (some name, some (← fullTag h s))
    | _ => return (none, some (← fullTag h s))
  | _ => return (none, none)

/-- Begins a named node. Two nodes of one name are a failure. -/
def openAnchor : Option String → Read Unit
  | none => return ()
  | some name => do
    if ((← get).anchors.lookup name).isSome then throw (.malformedConfig .reference)
    modify fun r => { r with anchors := (name, none) :: r.anchors }

def closeAnchor (name? : Option String) (node : Node) : Read Unit :=
  match name? with
  | none => return ()
  | some name => modify fun r => { r with anchors := (name, some node) :: r.anchors }

/-- The node of a name. A node inside itself has no content. -/
def named (name : String) : Read Node := do
  match (← get).anchors.lookup name with
  | some (some node) => return node
  | some none => throw (.malformedConfig .content)
  | none => throw (.malformedConfig .reference)

mutual

/-- A node. Block collections are read where they may stand, and sequences without indentation of
their own. -/
def node (isBlock bare : Bool) : (fuel : Nat) → Read Node
  | 0 => throw .outOfFuel
  | fuel + 1 => do
    if let .reference name ← peek then
      drop
      return ← named name
    let (anchor?, full?) ← properties
    let tag? := if full? = some "!" then none else full?
    let found ←
      match ← peek with
      | .scalar isPlain text =>
        drop
        openAnchor anchor?
        pure (Node.scalar tag? ((isPlain && full?.isNone) || full? = some "!") text)
      | .flowSequenceStart =>
        drop
        openAnchor anchor?
        pure (.sequence tag? (← flowItems true fuel))
      | .flowMappingStart =>
        drop
        openAnchor anchor?
        pure (.mapping tag? (← flowEntries true fuel))
      | t =>
        if bare && t = .blockEntry then
          openAnchor anchor?
          pure (.sequence tag? (← bareItems fuel))
        else if isBlock && t = .blockSequenceStart then
          drop
          openAnchor anchor?
          pure (.sequence tag? (← blockItems fuel))
        else if isBlock && t = .blockMappingStart then
          drop
          openAnchor anchor?
          pure (.mapping tag? (← blockEntries fuel))
        else if anchor?.isSome || full?.isSome then
          openAnchor anchor?
          pure (.scalar tag? tag?.isNone "")
        else badOrder
    closeAnchor anchor? found
    return found

/-- A node, or an absent one before some tokens. -/
def nodeBefore (ends : List Token) (isBlock bare : Bool) : (fuel : Nat) → Read Node
  | 0 => throw .outOfFuel
  | fuel + 1 => do
    if ← at? ends then return absent else node isBlock bare fuel

def blockItems : (fuel : Nat) → Read (List Node)
  | 0 => throw .outOfFuel
  | fuel + 1 => do
    if ← skip? .blockEntry then
      let item ← nodeBefore [.blockEntry, .blockEnd] true false fuel
      return item :: (← blockItems fuel)
    else
      expect .blockEnd
      return []

/-- The items of a sequence without indentation of its own. -/
def bareItems : (fuel : Nat) → Read (List Node)
  | 0 => throw .outOfFuel
  | fuel + 1 => do
    if ← skip? .blockEntry then
      let item ← nodeBefore [.blockEntry, .key, .value, .blockEnd] true false fuel
      return item :: (← bareItems fuel)
    else return []

def blockEntries : (fuel : Nat) → Read (List (Node × Node))
  | 0 => throw .outOfFuel
  | fuel + 1 => do
    let ends := [Token.key, .value, .blockEnd]
    if ← skip? .key then
      let k ← nodeBefore ends true true fuel
      let v ← if ← skip? .value then nodeBefore ends true true fuel else pure absent
      return (k, v) :: (← blockEntries fuel)
    else
      expect .blockEnd
      return []

/-- The items of a flow sequence, with commas between. An item can be a mapping of one entry. -/
def flowItems (first : Bool) : (fuel : Nat) → Read (List Node)
  | 0 => throw .outOfFuel
  | fuel + 1 => do
    if ← skip? .flowSequenceEnd then return []
    if !first then expect .flowEntry
    if ← skip? .key then
      let k ← nodeBefore [.value, .flowEntry, .flowSequenceEnd] false false fuel
      let v ←
        if ← skip? .value then nodeBefore [.flowEntry, .flowSequenceEnd] false false fuel
        else pure absent
      return .mapping none [(k, v)] :: (← flowItems false fuel)
    else if ← skip? .flowSequenceEnd then return []
    else
      let item ← node false false fuel
      return item :: (← flowItems false fuel)

/-- The entries of a flow mapping; before all but the first there is a comma. -/
def flowEntries (first : Bool) : (fuel : Nat) → Read (List (Node × Node))
  | 0 => throw .outOfFuel
  | fuel + 1 => do
    if ← skip? .flowMappingEnd then return []
    if !first then expect .flowEntry
    if ← skip? .key then
      let k ← nodeBefore [.value, .flowEntry, .flowMappingEnd] false false fuel
      let v ←
        if ← skip? .value then nodeBefore [.flowEntry, .flowMappingEnd] false false fuel
        else pure absent
      return (k, v) :: (← flowEntries false fuel)
    else if ← skip? .flowMappingEnd then return []
    else
      let k ← node false false fuel
      return (k, absent) :: (← flowEntries false fuel)

end

/-! ### Documents -/

/-- The handles that need no directive. -/
def standardHandles : List (String × String) := [("!", "!"), ("!!", "tag:yaml.org,2002:")]

/-- The directives before a document. -/
def directives : (fuel : Nat) → (versioned : Bool) → (handles : List (String × String)) →
    Read Unit
  | 0, _, _ => throw .outOfFuel
  | fuel + 1, versioned, handles => do
    match ← peek with
    | .version major =>
      drop
      if versioned || major ≠ 1 then badOrder
      directives fuel true handles
    | .tagHandle handle start =>
      drop
      if (handles.lookup handle).isSome then badOrder
      directives fuel versioned ((handle, start) :: handles)
    | .directive =>
      drop
      directives fuel versioned handles
    | _ => modify fun r => { r with handles := handles ++ standardHandles }

def skipEnds : (fuel : Nat) → Read Unit
  | 0 => throw .outOfFuel
  | fuel + 1 => do if ← skip? .documentEnd then skipEnds fuel

def isDirective : Token → Bool
  | .version _ | .tagHandle _ _ | .directive => true
  | _ => false

/-- The beginning of a document that is marked; there may be none. -/
def markedStart (fuel : Nat) : Read Bool := do
  skipEnds fuel
  if ← at? [.streamEnd] then return false
  directives fuel false []
  expect .documentStart
  return true

def markedContent (fuel : Nat) : Read Node := do
  let t ← peek
  if isDirective t || [Token.documentStart, .documentEnd, .streamEnd].contains t then return absent
  node true false fuel

/-- The only document of a text, if there is one. -/
def document (fuel : Nat) : Read (Option Node) := do
  drop
  let t ← peek
  let found ←
    if isDirective t || [Token.documentStart, .streamEnd].contains t then do
      if ← markedStart fuel then pure (some (← markedContent fuel)) else pure none
    else do
      modify fun r => { r with handles := standardHandles }
      pure (some (← node true false fuel))
  if found.isSome then
    let _ ← skip? .documentEnd
    if ← markedStart fuel then throw (.malformedConfig .reference)
  return found

end Read

/-- The **node of a text**, if there is one. -/
def Node.ofTokens (tokens : List Token) (behind? : Option Failure) :
    Except Failure (Option Node) := do
  let reader : Reader := { tokens := tokens, behind := behind?.getD .outOfFuel }
  let (found, _) ← (Read.document (3 * tokens.length + 10)).run reader
  return found

end DocTree.Yaml
