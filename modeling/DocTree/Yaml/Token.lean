import DocTree.Yaml.Scalar

/-!
# Tokens of a configuration text

Indentation and line ends decide where collections begin and end. Whether something is a key is
known only at the colon after it; its token is then put before it.
-/

namespace DocTree.Yaml

inductive Token where
  | streamStart
  | streamEnd
  | version (major : Nat)
  | tagHandle (handle start : String)
  | directive
  | documentStart
  | documentEnd
  | blockSequenceStart
  | blockMappingStart
  | blockEnd
  | flowSequenceStart
  | flowSequenceEnd
  | flowMappingStart
  | flowMappingEnd
  | blockEntry
  | flowEntry
  | key
  | value
  | reference (name : String)
  | anchor (name : String)
  | tag (handle? : Option String) (suffix : String)
  | scalar (isPlain : Bool) (text : String)
deriving DecidableEq

def badToken : Failure := .malformedConfig .token

/-! ### Tags, anchors and directives -/

def isTagChar (c : Char) : Bool := c.isAlphanum || "-;/?:@&=+$,_.!~*'()[]".toList.contains c

/-- Bytes that are written with percent signs. -/
def percentBytes : (fuel : Nat) → Cursor → Except Failure (List UInt8 × Cursor)
  | 0, _ => .error .outOfFuel
  | fuel + 1, c => do
    match c.peek with
    | some '%' =>
      let digits := c.step.rest.take 2
      match if digits.length = 2 then hexNumber? digits else none with
      | some n =>
        let (more, c) ← percentBytes fuel (Cursor.advance 3 c)
        return (UInt8.ofNat n :: more, c)
      | none => throw badToken
    | _ => return ([], c)

def tagText : (fuel : Nat) → Cursor → Reading
  | 0, _ => .error .outOfFuel
  | fuel + 1, c => do
    let (taken, c) := c.takeWhile isTagChar
    match c.peek with
    | some '%' =>
      let (bytes, c) ← percentBytes (c.rest.length + 1) c
      match String.fromUTF8? ⟨bytes.toArray⟩ with
      | some found =>
        let (more, c) ← tagText fuel c
        return (taken ++ found.toList ++ more, c)
      | none => throw badToken
    | _ => return (taken, c)

/-- The text of a tag, which is not empty. -/
def tagSuffix (c : Cursor) : Except Failure (String × Cursor) := do
  if !(c.peek.any fun ch => isTagChar ch || ch == '%') then throw badToken
  let (text, c) ← tagText (c.rest.length + 1) c
  return (String.ofList text, c)

/-- The handle of a tag: an exclamation mark, or a name between two. -/
def tagHandle (c : Cursor) : Except Failure (String × Cursor) := do
  if c.peek != some '!' then throw badToken
  if c.peek 1 == some ' ' then return ("!", c.step)
  let (name, c) := c.step.takeWhile isNameChar
  if c.peek != some '!' then throw badToken
  return ("!" ++ String.ofList name ++ "!", c.step)

def tag (c : Cursor) : Except Failure (Token × Cursor) := do
  let (token, c) ←
    match c.peek 1 with
    | some '<' => do
      let (suffix, c) ← tagSuffix (Cursor.advance 2 c)
      if c.peek != some '>' then throw badToken
      pure (Token.tag none suffix, c.step)
    | next =>
      if endsWord next then pure (Token.tag none "!", c.step)
      else do
        let named := (c.step.rest.takeWhile fun ch => !endsPiece (some ch)).contains '!'
        let (handle, c) ← if named then tagHandle c else pure ("!", c.step)
        let (suffix, c) ← tagSuffix c
        pure (Token.tag (some handle) suffix, c)
  if !endsPiece c.peek then throw badToken
  return (token, c)

/-- The name of an anchor or an alias; the place is at its sign. -/
def anchorName (c : Cursor) : Except Failure (String × Cursor) := do
  let (name, c) := c.step.takeWhile isNameChar
  if name.isEmpty then throw badToken
  if !(endsWord c.peek || c.peek.any "?:,]\x7d%@\x60".toList.contains) then throw badToken
  return (String.ofList name, c)

def versionNumber (c : Cursor) : Except Failure (Nat × Cursor) := do
  let (digits, c) := c.takeWhile Char.isDigit
  if digits.isEmpty then throw badToken
  return (digits.foldl (fun n d => 10 * n + (d.toNat - 48)) 0, c)

def directive (c : Cursor) : Except Failure (Token × Cursor) := do
  let (name, c) := c.step.takeWhile isNameChar
  if name.isEmpty || !endsPiece c.peek then throw badToken
  let (token, c) ←
    if name = "YAML".toList then do
      let (major, c) ← versionNumber c.skipSpaces
      if c.peek != some '.' then throw badToken
      let (_, c) ← versionNumber c.step
      if !endsPiece c.peek then throw badToken
      pure (Token.version major, c)
    else if name = "TAG".toList then do
      let (handle, c) ← tagHandle c.skipSpaces
      if c.peek != some ' ' then throw badToken
      let (start, c) ← tagSuffix c.skipSpaces
      if !endsPiece c.peek then throw badToken
      pure (Token.tagHandle handle start, c)
    else pure (Token.directive, c.skipWhile (!isBreak ·))
  return (token, ← c.skipLine)

/-! ### State -/

/-- A token that a **key may be put before**: its number, whether it has to be, and where it begins.
-/
structure PossibleKey where
  token : Nat
  required : Bool
  index : Nat
  line : Nat
  column : Nat

/-- What is **known while tokens are read**: the place, the tokens, how many flow collections are
open, the columns of open blocks, whether a key may begin here, and the possible keys. -/
structure Lexer where
  place : Cursor
  tokens : Array Token := #[]
  flow : Int := 0
  indent : Int := -1
  indents : List Int := []
  keyAllowed : Bool := true
  keys : List (Int × PossibleKey) := []

namespace Lexer

def push (s : Lexer) (t : Token) : Lexer := { s with tokens := s.tokens.push t }

def pushAt (s : Lexer) (t : Token) (c : Cursor) : Lexer :=
  { s with tokens := s.tokens.push t, place := c }

def insert (s : Lexer) (n : Nat) (t : Token) : Lexer :=
  { s with tokens := s.tokens.insertIdxIfInBounds n t }

/-- Whether a possible key can be one no longer: it is on another line or too far away. -/
def isStale (s : Lexer) (k : PossibleKey) : Bool :=
  k.line != s.place.line || 1024 < s.place.index - k.index

/-- The state without keys that can be none. One that has to be a key is a failure. -/
def dropStale (s : Lexer) : Except Failure Lexer :=
  if s.keys.any fun k => s.isStale k.2 && k.2.required then .error badToken
  else .ok { s with keys := s.keys.filter fun k => !s.isStale k.2 }

/-- The state without the possible key at the present level. -/
def dropKey (s : Lexer) : Except Failure Lexer :=
  match s.keys.lookup s.flow with
  | some k =>
    if k.required then .error badToken
    else .ok { s with keys := s.keys.filter fun k => k.1 != s.flow }
  | none => .ok s

/-- The state with a possible key at the next token, if a key may begin here. -/
def saveKey (s : Lexer) : Except Failure Lexer := do
  if !s.keyAllowed then return s
  let c := s.place
  let k : PossibleKey :=
    { token := s.tokens.size, required := s.flow = 0 ∧ s.indent = c.column, index := c.index
      line := c.line, column := c.column }
  let s ← s.dropKey
  return { s with keys := (s.flow, k) :: s.keys }

/-- Ends the block collections that begin to the right of a column. -/
def unwindFrom (column : Int) : List Int → Lexer → Lexer
  | [], s => s
  | outer :: rest, s =>
    if column < s.indent then
      unwindFrom column rest { s.push .blockEnd with indent := outer, indents := rest }
    else s

/-- Ends the block collections that begin to the right of a column, outside flow collections. -/
def unwind (s : Lexer) (column : Int) : Lexer :=
  if s.flow = 0 then unwindFrom column s.indents s else s

/-- Begins a block collection at a column, unless one has begun there; before others if a number is
given. -/
def openBlock (s : Lexer) (column : Int) (n : Nat) (t : Token) : Lexer :=
  if s.indent < column then
    { s.insert n t with indent := column, indents := s.indent :: s.indents }
  else s

/-- The place of the next token. A key may begin on a new line outside flow collections. -/
def skipBlank : (fuel : Nat) → Lexer → Lexer
  | 0, s => s
  | fuel + 1, s =>
    let c := s.place.skipSpaces.skipComment
    match c.lineBreak with
    | ([], _) => { s with place := c }
    | (_, c) =>
      skipBlank fuel { s with place := c, keyAllowed := s.keyAllowed || s.flow = 0 }

/-! ### Steps -/

/-- A token that ends all block collections. -/
def atMargin (s : Lexer) : Except Failure Lexer := do
  let s ← (s.unwind (-1)).dropKey
  return { s with keyAllowed := false }

def openFlow (s : Lexer) (t : Token) : Except Failure Lexer := do
  let s ← s.saveKey
  return { s.pushAt t s.place.step with flow := s.flow + 1, keyAllowed := true }

def closeFlow (s : Lexer) (t : Token) : Except Failure Lexer := do
  let s ← s.dropKey
  return { s.pushAt t s.place.step with flow := s.flow - 1, keyAllowed := false }

/-- An entry of a block sequence. -/
def entry (s : Lexer) : Except Failure Lexer := do
  if s.flow = 0 ∧ !s.keyAllowed then throw badToken
  let s := if s.flow = 0 then s.openBlock s.place.column s.tokens.size .blockSequenceStart else s
  let s ← s.dropKey
  return { s.pushAt .blockEntry s.place.step with keyAllowed := true }

/-- A key with a sign of its own. -/
def markedKey (s : Lexer) : Except Failure Lexer := do
  if s.flow = 0 ∧ !s.keyAllowed then throw badToken
  let s := if s.flow = 0 then s.openBlock s.place.column s.tokens.size .blockMappingStart else s
  let s ← s.dropKey
  return { s.pushAt .key s.place.step with keyAllowed := s.flow = 0 }

/-- A colon before a value. If there is a possible key, it is one. -/
def colon (s : Lexer) : Except Failure Lexer := do
  match s.keys.lookup s.flow with
  | some k =>
    let s := { s with keys := s.keys.filter fun k => k.1 != s.flow }
    let s := s.insert k.token .key
    let s := if s.flow = 0 then s.openBlock k.column k.token .blockMappingStart else s
    return { s.pushAt .value s.place.step with keyAllowed := false }
  | none =>
    if s.flow = 0 ∧ !s.keyAllowed then throw badToken
    let s := if s.flow = 0 then s.openBlock s.place.column s.tokens.size .blockMappingStart else s
    let s ← { s with keyAllowed := s.flow = 0 }.dropKey
    return s.pushAt .value s.place.step

/-- A token that may be a key. -/
def keyLike (s : Lexer) (read : Cursor → Except Failure (Token × Cursor)) :
    Except Failure Lexer := do
  let s ← s.saveKey
  let (t, c) ← read s.place
  return { s.pushAt t c with keyAllowed := false }

def quotedToken (double : Bool) (c : Cursor) : Except Failure (Token × Cursor) := do
  let (text, c) ← quoted double c
  return (.scalar false (String.ofList text), c)

def blockScalar (s : Lexer) (fold : Bool) : Except Failure Lexer := do
  let s ← { s with keyAllowed := true }.dropKey
  let (text, c) ← block fold s.indent s.place
  return s.pushAt (.scalar false (String.ofList text)) c

def plainScalar (s : Lexer) : Except Failure Lexer := do
  let s ← s.saveKey
  let (text, c, ended) := plain (s.flow ≠ 0) s.indent s.place
  return { s.pushAt (.scalar true (String.ofList text)) c with keyAllowed := ended }

/-- Whether a plain scalar can begin with a character before another. -/
def beginsPlain (flow : Bool) (ch : Char) (next : Option Char) : Bool :=
  !(isGap ch || isBreak ch || "-?:,[]\x7b\x7d#&*!|>'\"%@\x60".toList.contains ch) ||
    (!endsWord next && (ch == '-' || (!flow && (ch == '?' || ch == ':'))))

/-- The token that begins with a character. -/
def fetch (s : Lexer) (ch : Char) : Except Failure Lexer := do
  let c := s.place
  let flow : Bool := s.flow ≠ 0
  let next := c.peek 1
  if c.column = 0 && ch == '%' then
    let s ← s.atMargin
    let (t, c) ← directive s.place
    return s.pushAt t c
  else if c.column = 0 && c.atWord ['-', '-', '-'] then
    return (← s.atMargin).pushAt .documentStart (Cursor.advance 3 c)
  else if c.column = 0 && c.atWord ['.', '.', '.'] then
    return (← s.atMargin).pushAt .documentEnd (Cursor.advance 3 c)
  else if ch == '[' then s.openFlow .flowSequenceStart
  else if ch == '\x7b' then s.openFlow .flowMappingStart
  else if ch == ']' then s.closeFlow .flowSequenceEnd
  else if ch == '\x7d' then s.closeFlow .flowMappingEnd
  else if ch == ',' then
    let s ← { s with keyAllowed := true }.dropKey
    return s.pushAt .flowEntry s.place.step
  else if ch == '-' && endsWord next then s.entry
  else if ch == '?' && (flow || endsWord next) then s.markedKey
  else if ch == ':' && (flow || endsWord next) then s.colon
  else if ch == '*' then s.keyLike fun c => do
    let (name, c) ← anchorName c
    return (.reference name, c)
  else if ch == '&' then s.keyLike fun c => do
    let (name, c) ← anchorName c
    return (.anchor name, c)
  else if ch == '!' then s.keyLike tag
  else if ch == '|' && !flow then s.blockScalar false
  else if ch == '>' && !flow then s.blockScalar true
  else if ch == '\'' then s.keyLike (quotedToken false)
  else if ch == '"' then s.keyLike (quotedToken true)
  else if beginsPlain flow ch next then s.plainScalar
  else throw badToken

/-- The next tokens, and whether they were the last. -/
def next (s : Lexer) : Except Failure (Lexer × Bool) := do
  let s ← (skipBlank (s.place.rest.length + 1) s).dropStale
  let s := s.unwind s.place.column
  match s.place.peek with
  | none =>
    let s ← s.atMargin
    return ({ s.push .streamEnd with keys := [] }, true)
  | some ch => return (← s.fetch ch, false)

/-- The tokens that can be used: those before the first possible key. -/
def usable (s : Lexer) : List Token :=
  let numbers := (s.keys.filter fun k => !s.isStale k.2).map fun k => k.2.token
  s.tokens.toList.take (numbers.foldl min s.tokens.size)

/-- All further tokens, and the failure that ends them if there is one. -/
def finish : (fuel : Nat) → Lexer → List Token × Option Failure
  | 0, s => (s.usable, some .outOfFuel)
  | fuel + 1, s =>
    match s.next with
    | .ok (s, true) => (s.tokens.toList, none)
    | .ok (s, false) => finish fuel s
    | .error why => (s.usable, some why)

end Lexer

/-- **All tokens** of a text, and the failure that ends them if there is one. -/
def Token.scan (text : List Char) : List Token × Option Failure :=
  let text := match text with | '\ufeff' :: rest => rest | _ => text
  Lexer.finish (text.length + 2) { place := { rest := text }, tokens := #[.streamStart] }

end DocTree.Yaml
