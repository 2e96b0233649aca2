import DocTree.Code.PythonLiteral
import DocTree.Code.PythonParse

/-!
# Expressions of Python

Where an expression holds others, the grammar refers to them by a **goal**, and one recursion with a
step budget ties the goals together. Every step down consumes a token, so the length of the text is
enough.
-/

namespace DocTree.Python

/-- The kinds of expressions that the grammar refers to. -/
inductive Goal where
  /-- One expression. -/
  | expression
  /-- An expression that may give its value a name. -/
  | named
  /-- One or more expressions, of which some may be spread out. -/
  | star
  /-- An expression without conditions and comparisons. -/
  | bitOr
  /-- A condition. -/
  | disjunction
  /-- A part of a condition. -/
  | inversion
  /-- A number with signs. -/
  | factor

/-- How the expressions of a goal are read. -/
abbrev Rules := Goal → Parse Expr

/-! ### Targets -/

mutual

/-- Whether values can be **assigned** to an expression. -/
def isTarget : Expr → Bool
  | .name _ => true
  | .member _ _ => true
  | .subscript _ _ => true
  | .starred e => isTarget e
  | .tuple items => areTargets items
  | .list items => areTargets items
  | _ => false

def areTargets : List Expr → Bool
  | [] => true
  | e :: rest => isTarget e && areTargets rest

end

/-- Whether an expression is a single place: a name, a member or an item. -/
def isSimpleTarget : Expr → Bool
  | .name _ => true
  | .member _ _ => true
  | .subscript _ _ => true
  | _ => false

mutual

/-- Whether an expression can be **deleted**. -/
def isDeletable : Expr → Bool
  | .name _ => true
  | .member _ _ => true
  | .subscript _ _ => true
  | .tuple items => areDeletable items
  | .list items => areDeletable items
  | _ => false

def areDeletable : List Expr → Bool
  | [] => true
  | e :: rest => isDeletable e && areDeletable rest

end

def isStarred : Expr → Bool
  | .starred _ => true
  | _ => false

def isNamed : Expr → Bool
  | .named _ _ => true
  | _ => false

namespace Grammar

open Parse

/-! ### Lists of expressions -/

/-- An expression that may be spread out. -/
def starExpression (rules : Rules) (expression : Parse Expr) : Parse Expr := do
  if ← accept "*" then return .starred (← rules .bitOr) else expression

/-- One or more expressions; with a comma they are a tuple. -/
def starExpressions (item : Parse Expr) : Parse Expr := do
  let first ← item
  if ← sees "," then
    let rest ← repeatWhile (do return (← sees ",")) (do
      skip
      attempt item)
    return .tuple (first :: rest.filterMap id)
  else return first

/-- An item of a display: an expression that may have a name or be spread out. -/
def starNamed (rules : Rules) : Parse Expr := do
  if ← accept "*" then return .starred (← rules .bitOr) else rules .named

def targets (rules : Rules) : Parse Expr := do
  let item : Parse Expr := do
    let e ← starExpression rules (rules .bitOr)
    require (isTarget e)
    return e
  let first ← item
  if ← accept "," then
    let rest ← listUntil (sees "in") item
    return .tuple (first :: rest)
  else return first

/-! ### Comprehensions -/

def seesClause : Parse Bool := seesAny ["for", "async"]

def clause (rules : Rules) : Parse Clause := do
  let concurrent ← accept "async"
  expect "for"
  let target ← targets rules
  expect "in"
  let source ← rules .disjunction
  let conditions ← repeatWhile (accept "if") (rules .disjunction)
  return .mk concurrent target source conditions

def clauses (rules : Rules) : Parse (List Clause) := repeatWhile seesClause (clause rules)

/-! ### Displays -/

/-- A value that is given to the caller. -/
def yieldExpr (rules : Rules) : Parse Expr := do
  expect "yield"
  if ← accept "from" then return .yieldFrom (← rules .expression)
  else return .yield (← attempt (rules .star))

def parenthesized (rules : Rules) : Parse Expr := do
  expect "("
  if ← accept ")" then return .tuple []
  else if ← sees "yield" then
    let e ← yieldExpr rules
    expect ")"
    return e
  else
    let first ← starNamed rules
    if ← seesClause then
      require (!isStarred first)
      let cs ← clauses rules
      expect ")"
      return .generator first cs
    else if ← accept "," then
      let rest ← listUntil (sees ")") (starNamed rules)
      expect ")"
      return .tuple (first :: rest)
    else
      require (!isStarred first)
      expect ")"
      return first

def bracketed (rules : Rules) : Parse Expr := do
  expect "["
  if ← accept "]" then return .list []
  else
    let first ← starNamed rules
    if ← seesClause then
      require (!isStarred first)
      let cs ← clauses rules
      expect "]"
      return .listOf first cs
    else if ← accept "," then
      let rest ← listUntil (sees "]") (starNamed rules)
      expect "]"
      return .list (first :: rest)
    else
      expect "]"
      return .list [first]

/-- An entry of a dictionary display. -/
def entry (rules : Rules) : Parse Entry := do
  if ← accept "**" then return .spread (← rules .bitOr)
  else
    let key ← rules .expression
    expect ":"
    return .pair key (← rules .expression)

/-- The rest of a dictionary display after its first entry. -/
def moreEntries (rules : Rules) (first : Entry) : Parse Expr := do
  let rest ← if ← accept "," then listUntil (sees "\x7d") (entry rules) else pure []
  expect "\x7d"
  return .dict (first :: rest)

/-- The rest of a set display after its first item. -/
def moreItems (rules : Rules) (first : Expr) : Parse Expr := do
  let rest ← if ← accept "," then listUntil (sees "\x7d") (starNamed rules) else pure []
  expect "\x7d"
  return .set (first :: rest)

/-- What stands between braces. -/
def braced (rules : Rules) : Parse Expr := do
  expect "\x7b"
  if ← accept "\x7d" then return .dict []
  else if ← sees "**" then
    let first ← entry rules
    moreEntries rules first
  else
    let first ← starNamed rules
    if isStarred first then moreItems rules first
    else if ← accept ":" then
      require (!isNamed first)
      let value ← rules .expression
      if ← seesClause then
        let cs ← clauses rules
        expect "\x7d"
        return .dictOf first value cs
      else moreEntries rules (.pair first value)
    else if ← seesClause then
      let cs ← clauses rules
      expect "\x7d"
      return .setOf first cs
    else moreItems rules first

/-! ### Formatted texts -/

/-- A piece of a formatted text. -/
inductive Piece where
  | text (points : List Nat)
  | value (e : Expr)

/-- A literal part up to the next brace: its characters, whether it ended with a doubled brace, and
the rest. -/
def literalPart? (raw inner : Bool) : List Char → Option (List Char × Bool × List Char)
  | [] => some ([], false, [])
  | '\\' :: 'N' :: '\x7b' :: cs =>
    if raw then
      (literalPart? raw inner ('N' :: '\x7b' :: cs)).map fun (l, d, r) => ('\\' :: l, d, r)
    else
      let name := cs.takeWhile (· ≠ '\x7d')
      (skipNamed? raw inner name.length cs).map fun (l, d, r) =>
        ('\\' :: 'N' :: '\x7b' :: l, d, r)
  | '\\' :: c :: cs =>
    if raw || c == '\x7b' || c == '\x7d' then
      (literalPart? raw inner (c :: cs)).map fun (l, d, r) => ('\\' :: l, d, r)
    else (literalPart? raw inner cs).map fun (l, d, r) => ('\\' :: c :: l, d, r)
  | c :: cs =>
    if c == '\x7b' || c == '\x7d' then
      if inner then some ([], false, c :: cs)
      else
        match cs with
        | d :: rest =>
          if d == c then some ([c], true, rest)
          else if c == '\x7d' then none
          else some ([], false, c :: cs)
        | [] => if c == '\x7d' then none else some ([], false, c :: cs)
    else (literalPart? raw inner cs).map fun (l, d, r) => (c :: l, d, r)
where
  /-- The literal part after the name of a character, which has `n` more characters and a
  closing brace. -/
  skipNamed? (raw inner : Bool) : Nat → List Char → Option (List Char × Bool × List Char)
    | _, [] => some ([], false, [])
    | 0, c :: cs => (literalPart? raw inner cs).map fun (l, d, r) => (c :: l, d, r)
    | n + 1, c :: cs => (skipNamed? raw inner n cs).map fun (l, d, r) => (c :: l, d, r)

/-- The state of the search for the end of an expression in a formatted text. -/
structure Inside where
  /-- The quote and the number of quotes of the text the search is in. -/
  quote : Option (Char × Nat) := none
  /-- The open brackets. -/
  opened : List Char := []

/-- The closing bracket of an opening one. -/
def closes (opening closing : Char) : Bool :=
  (opening == '(' && closing == ')') || (opening == '[' && closing == ']') ||
    (opening == '\x7b' && closing == '\x7d')

/-- The expression at the beginning of a text, up to a conversion, a format, an equals sign or the
closing brace. -/
def expressionPart? (s : Inside) : (skip : Nat) → List Char → Option (List Char × List Char)
  | _, [] => none
  | skip + 1, c :: cs => (expressionPart? s skip cs).map fun (e, r) => (c :: e, r)
  | 0, c :: cs =>
    let keep := fun (s : Inside) (skip : Nat) =>
      (expressionPart? s skip cs).map fun (e, r) => (c :: e, r)
    if c == '\\' then none
    else
      match s.quote with
      | some (q, size) =>
        if c == q then
          if size == 3 then
            if Text.beginsWith [q, q] cs then keep { s with quote := none } 2
            else keep s 0
          else keep { s with quote := none } 0
        else keep s 0
      | none =>
        if c == '\'' || c == '"' then
          if Text.beginsWith [c, c] cs then keep { s with quote := some (c, 3) } 2
          else keep { s with quote := some (c, 1) } 0
        else if c == '(' || c == '[' || c == '\x7b' then
          if maxBrackets ≤ s.opened.length then none
          else keep { s with opened := c :: s.opened } 0
        else if c == '#' then none
        else if s.opened.isEmpty && ['!', ':', '\x7d', '=', '<', '>'].contains c then
          if ['!', '=', '<', '>'].contains c && cs.head? == some '=' then keep s 1
          else if c == '<' || c == '>' then keep s 0
          else some ([], c :: cs)
        else if c == ')' || c == ']' || c == '\x7d' then
          match s.opened with
          | o :: opened => if closes o c then keep { s with opened := opened } 0 else none
          | [] => none
        else keep s 0

/-- The conversion of a value, if there is one, and the rest. -/
def conversion? : List Char → Option (Option Char × List Char)
  | '!' :: c :: rest =>
    if c == 's' || c == 'r' || c == 'a' then some (some c, rest) else none
  | ['!'] => none
  | cs => some (none, cs)

def isSpace (c : Char) : Bool := (0x9 ≤ c.toNat && c.toNat ≤ 0xd) || c == ' '

/-- The expression that is written in a formatted text, read as if in parentheses. -/
def compile? (rules : Rules) (cs : List Char) : Option Expr := do
  if cs.all fun c => c == ' ' || c == '\t' || c == '\n' || c == '\x0c' then none
  else
    let tokens ← tokens? ('(' :: cs ++ [')'])
    let (e, _) ← (rules .star).run tokens
    return e

/-- The pieces as expressions: neighbouring texts are put together, and empty ones left out. -/
def joinPieces (marked : Bool) (text : List Nat) : List Piece → List Expr
  | [] => if text.isEmpty then [] else [.constant (.text marked text)]
  | .text points :: rest => joinPieces marked (text ++ points) rest
  | .value e :: rest =>
    let others := e :: joinPieces marked [] rest
    if text.isEmpty then others else .constant (.text marked text) :: others

/-- The pieces of a formatted text, and the rest, which is empty outside a format. Formats go at
most one level deep. -/
def pieces? (rules : Rules) (marked raw : Bool) : (fuel level : Nat) → List Char →
    Option (List Piece × List Char)
  | 0, _, _ => none
  | fuel + 1, level, cs => do
    let (literal, doubled, rest) ← literalPart? raw (level != 0) cs
    let text := Piece.text (← textPoints? raw literal)
    if doubled then
      let (more, rest) ← pieces? rules marked raw fuel level rest
      return (text :: more, rest)
    else
      match rest with
      | '\x7b' :: inner =>
        if 2 ≤ level then none
        else
          let (source, rest) ← expressionPart? {} 0 inner
          let e ← compile? rules source
          let shown := rest.head? == some '='
          let afterSign := if shown then rest.tail.dropWhile isSpace else rest
          if afterSign.isEmpty then none
          else
            let label :=
              if shown then inner.take (inner.length - afterSign.length) else []
            let (conversion, rest) ← conversion? afterSign
            let (format, rest) ←
              match rest with
              | ':' :: rest =>
                if rest.isEmpty then none
                else
                  let (format, rest) ← pieces? rules marked raw fuel (level + 1) rest
                  pure (some (Expr.joined (joinPieces marked [] format)), rest)
              | rest => pure (none, rest)
            match rest with
            | '\x7d' :: rest =>
              let conversion :=
                if shown && format.isNone && conversion.isNone then some 'r' else conversion
              let (more, rest) ← pieces? rules marked raw fuel level rest
              return (text :: .text (label.map Char.toNat) ::
                .value (.formatted e conversion format) :: more, rest)
            | _ => none
      | '\x7d' :: _ => if level == 0 then none else some ([text], rest)
      | _ => if level == 0 then some ([text], []) else none

def stringPieces? (rules : Rules) (marked : Bool) (s : StringParts) : Option (List Piece) :=
  if s.formatted then
    (pieces? rules marked s.raw (2 * s.body.length + 2) 0 s.body).map Prod.fst
  else (textPoints? s.raw s.body).map fun points => [.text points]

def textOf : List Piece → List Nat
  | [] => []
  | .text points :: rest => points ++ textOf rest
  | .value _ :: rest => textOf rest

/-- The value of adjacent strings: bytes, a text, or a formatted text. -/
def joinStrings? (rules : Rules) (parts : List StringParts) : Option Expr := do
  let marked := (parts.head?.map StringParts.marked).getD false
  if parts.all StringParts.bytes then
    let all ← parts.mapM fun s => bytePoints? s.raw s.body
    return .constant (.bytes all.flatten)
  else if parts.any StringParts.bytes then none
  else
    let all ← parts.mapM (stringPieces? rules marked)
    if parts.any StringParts.formatted then return .joined (joinPieces marked [] all.flatten)
    else return .constant (.text marked (textOf all.flatten))

def strings (rules : Rules) : Parse Expr := do
  let parts ← repeatWhile (seesKind .string) (do
    let t ← peek
    skip
    return splitString t.text)
  match joinStrings? rules parts with
  | some e => return e
  | none => failure

/-! ### Atoms -/

def number : Parse Constant := do
  let t ← peek
  require (t.kind == .number)
  skip
  match numberValue? t.text with
  | some c => return c
  | none => failure

/-- An expression that is not made with operators. -/
def atom (rules : Rules) : Parse Expr := do
  let t ← peek
  match t.kind with
  | .name => return .name (← identifier)
  | .number => return .constant (← number)
  | .string => strings rules
  | _ =>
    if ← sees "(" then parenthesized rules
    else if ← sees "[" then bracketed rules
    else if ← sees "\x7b" then braced rules
    else if ← accept "..." then return .constant .ellipsis
    else if ← accept "None" then return .constant .none
    else if ← accept "True" then return .constant .true
    else if ← accept "False" then return .constant .false
    else failure

/-! ### Calls and items -/

/-- How far the arguments of a call have got: plain ones, keywords, or a spread dictionary. -/
inductive ArgumentStage where
  | plain
  | keyword
  | spread
deriving DecidableEq

inductive Argument where
  | plain (e : Expr)
  | keyword (k : Keyword)

/-- One argument of a call, and how far the arguments have got. -/
def argument (rules : Rules) (stage : ArgumentStage) : Parse (Argument × ArgumentStage) := do
  if ← accept "*" then
    require (stage != .spread)
    return (.plain (.starred (← rules .expression)), stage)
  else if ← accept "**" then
    return (.keyword (.mk none (← rules .expression)), .spread)
  else if (← seesKind .name) && (← seesSecond "=") then
    let name ← identifier
    expect "="
    let value ← rules .expression
    return (.keyword (.mk (some name) value), if stage == .plain then .keyword else stage)
  else
    require (stage == .plain)
    return (.plain (← rules .named), stage)

/-- At most `n` arguments up to the closing parenthesis, which stays. -/
def argumentsUpTo (rules : Rules) : Nat → ArgumentStage → Parse (List Argument)
  | 0, _ => failure
  | n + 1, stage => do
    if ← sees ")" then return []
    else
      let (a, stage) ← argument rules stage
      if ← accept "," then return a :: (← argumentsUpTo rules n stage) else return [a]

/-- The arguments of a call up to the closing parenthesis, which stays. -/
def arguments (rules : Rules) : Parse (List Argument) := do
  argumentsUpTo rules ((← get).length + 1) .plain

def plainArguments (all : List Argument) : List Expr :=
  all.filterMap fun a =>
    match a with
    | .plain e => some e
    | .keyword _ => none

def keywordArguments (all : List Argument) : List Keyword :=
  all.filterMap fun a =>
    match a with
    | .plain _ => none
    | .keyword k => some k

/-- A call after its opening parenthesis. A single comprehension needs no parentheses of its
own. -/
def callRest (rules : Rules) (function : Expr) : Parse Expr := do
  let all ← arguments rules
  match all with
  | [.plain e] =>
    if (← seesClause) && !isStarred e then
      let cs ← clauses rules
      expect ")"
      return .call function [.generator e cs] []
    else
      expect ")"
      return .call function [e] []
  | all =>
    expect ")"
    return .call function (plainArguments all) (keywordArguments all)

/-- One index: an expression, or a range of indices. -/
def index (rules : Rules) : Parse Expr := do
  let bound : Parse (Option Expr) := do
    if ← seesAny [":", "]", ","] then return none else return some (← rules .expression)
  let range := fun (lower : Option Expr) => do
    expect ":"
    let upper ← bound
    let step ← if ← accept ":" then bound else pure none
    return Expr.slice lower upper step
  if ← accept "*" then return .starred (← rules .expression)
  else if ← sees ":" then range none
  else
    let e ← rules .named
    if ← sees ":" then
      require (!isNamed e)
      range (some e)
    else return e

/-- The indices of an item after the opening bracket. -/
def itemRest (rules : Rules) (value : Expr) : Parse Expr := do
  let first ← index rules
  if ← accept "," then
    let rest ← listUntil (sees "]") (index rules)
    expect "]"
    return .subscript value (.tuple (first :: rest))
  else
    expect "]"
    return .subscript value (if isStarred first then .tuple [first] else first)

/-- Members, calls and items of a value, at most `n`. -/
def trailers (rules : Rules) : Nat → Expr → Parse Expr
  | 0, e => return e
  | n + 1, e => do
    if ← accept "." then
      let name ← identifier
      trailers rules n (.member e name)
    else if ← accept "(" then
      let e ← callRest rules e
      trailers rules n e
    else if ← accept "[" then
      let e ← itemRest rules e
      trailers rules n e
    else return e

/-- An atom with its members, calls and items. -/
def primary (rules : Rules) : Parse Expr := do
  let e ← atom rules
  trailers rules (← get).length e

/-! ### Operators -/

/-- A value that may be waited for. -/
def awaited (rules : Rules) : Parse Expr := do
  if ← accept "await" then return .await (← primary rules) else primary rules

def power (rules : Rules) : Parse Expr := do
  let base ← awaited rules
  if ← accept "**" then return .binary .pow base (← rules .factor) else return base

/-- A value with signs. -/
def factor (rules : Rules) : Parse Expr := do
  if ← accept "+" then return .unary .plus (← rules .factor)
  else if ← accept "-" then return .unary .minus (← rules .factor)
  else if ← accept "~" then return .unary .invert (← rules .factor)
  else power rules

/-- The operators with two operands, from the weakest to the strongest. -/
def levels : List (List (String × BinaryOperator)) :=
  [[("|", .bitOr)], [("^", .bitXor)], [("&", .bitAnd)], [("<<", .shiftLeft), (">>", .shiftRight)],
   [("+", .add), ("-", .sub)],
   [("*", .mul), ("/", .div), ("//", .floorDiv), ("%", .mod), ("@", .matMul)]]

/-- The next operator, if it is one of several. -/
def acceptAny (ops : List (String × α)) : Parse (Option α) := do
  let t ← peek
  match ops.find? fun op => t.is op.1 with
  | some (_, op) =>
    skip
    return some op
  | none => return none

/-- Further operands of operators of one level, at most `n`, joined from the left. -/
def operands (ops : List (String × BinaryOperator)) (operand : Parse Expr) :
    Nat → Expr → Parse Expr
  | 0, left => return left
  | n + 1, left => do
    match ← acceptAny ops with
    | some op =>
      let right ← operand
      operands ops operand n (.binary op left right)
    | none => return left

/-- Expressions of the operators of the given levels. -/
def binary (rules : Rules) : List (List (String × BinaryOperator)) → Parse Expr
  | [] => factor rules
  | ops :: stronger => do
    let left ← binary rules stronger
    operands ops (binary rules stronger) (← get).length left

def bitOr (rules : Rules) : Parse Expr := binary rules levels

/-- The next comparison operator, if there is one. -/
def comparison? : Parse (Option Comparison) := do
  if (← sees "not") && (← seesSecond "in") then
    skip
    skip
    return some .notIn
  else if (← sees "is") && (← seesSecond "not") then
    skip
    skip
    return some .isNot
  else
    acceptAny [("==", .eq), ("!=", .notEq), ("<=", .lessEq), ("<", .less), (">=", .greaterEq),
      (">", .greater), ("in", .isIn), ("is", .is)]

/-- Further operands of comparisons, at most `n`. -/
def comparisons (rules : Rules) : Nat → Parse (List Compared)
  | 0 => return []
  | n + 1 => do
    match ← comparison? with
    | some op =>
      let right ← bitOr rules
      return .mk op right :: (← comparisons rules n)
    | none => return []

def comparison (rules : Rules) : Parse Expr := do
  let left ← bitOr rules
  match ← comparisons rules (← get).length with
  | [] => return left
  | rest => return .compare left rest

/-- A comparison that may be negated. -/
def inversion (rules : Rules) : Parse Expr := do
  if ← accept "not" then return .unary .not (← rules .inversion) else comparison rules

/-- Operands joined by `and` or `or`. -/
def condition (word : String) (op : BoolOperator) (operand : Parse Expr) : Parse Expr := do
  let first ← operand
  match ← repeatWhile (accept word) operand with
  | [] => return first
  | rest => return .bool op (first :: rest)

def disjunction (rules : Rules) : Parse Expr :=
  condition "or" .or (condition "and" .and (inversion rules))

/-! ### Parameters -/

/-- What has been read of a list of parameters. -/
structure Collected where
  positional : List Parameter := []
  regular : List Parameter := []
  defaults : List Expr := []
  rest : Option Parameter := none
  keywordOnly : List KeywordParameter := []
  keywords : Option Parameter := none

def Collected.parameters (c : Collected) : Parameters :=
  .mk c.positional c.regular c.defaults c.rest c.keywordOnly c.keywords

def parameter (hint : Parse (Option Expr)) : Parse Parameter := do
  let name ← identifier
  return .mk name (← hint)

/-- The default of a parameter, if there is one. -/
def default? (rules : Rules) : Parse (Option Expr) := do
  if ← accept "=" then return some (← rules .expression) else return none

/-- The parameters after the star, at most `n`. -/
def keywordParameters (rules : Rules) (closing : String) (hint : Parse (Option Expr)) :
    Nat → Collected → Parse Collected
  | 0, _ => failure
  | n + 1, c => do
    if ← sees closing then return c
    else if ← accept "**" then
      let p ← parameter hint
      let _ ← accept ","
      require (← sees closing)
      return { c with keywords := some p }
    else
      let p ← parameter hint
      let d ← default? rules
      let c := { c with keywordOnly := c.keywordOnly ++ [.mk p d] }
      if ← accept "," then keywordParameters rules closing hint n c
      else
        require (← sees closing)
        return c

def starParameters (rules : Rules) (closing : String)
    (hint starHint : Parse (Option Expr)) (c : Collected) : Parse Collected := do
  expect "*"
  let n := (← get).length
  if ← accept "," then
    require (← seesKind .name)
    keywordParameters rules closing hint n c
  else
    let p ← parameter starHint
    let c := { c with rest := some p }
    if ← accept "," then keywordParameters rules closing hint n c
    else
      require (← sees closing)
      return c

/-- The parameters from a place before the star on, at most `n`. -/
def plainParameters (rules : Rules) (closing : String)
    (hint starHint : Parse (Option Expr)) : Nat → Collected → Parse Collected
  | 0, _ => failure
  | n + 1, c => do
    if ← sees closing then return c
    else if ← sees "*" then starParameters rules closing hint starHint c
    else if ← sees "**" then keywordParameters rules closing hint (n + 1) c
    else if ← accept "/" then
      require (c.positional.isEmpty && !c.regular.isEmpty)
      let c := { c with positional := c.regular, regular := [] }
      if ← accept "," then plainParameters rules closing hint starHint n c
      else
        require (← sees closing)
        return c
    else
      let p ← parameter hint
      let d ← default? rules
      require (d.isSome || c.defaults.isEmpty)
      let c := { c with regular := c.regular ++ [p], defaults := c.defaults ++ d.toList }
      if ← accept "," then plainParameters rules closing hint starHint n c
      else
        require (← sees closing)
        return c

/-- The parameters of a function up to the closing token, which stays. -/
def parameters (rules : Rules) (closing : String)
    (hint starHint : Parse (Option Expr)) : Parse Parameters := do
  let c ← plainParameters rules closing hint starHint ((← get).length + 1) {}
  return c.parameters

def hint (rules : Rules) : Parse (Option Expr) := do
  if ← accept ":" then return some (← rules .expression) else return none

def starHint (rules : Rules) : Parse (Option Expr) := do
  if ← accept ":" then return some (← starExpression rules (rules .expression))
  else return none

def lambda (rules : Rules) : Parse Expr := do
  expect "lambda"
  let params ← parameters rules ":" (pure none) (pure none)
  expect ":"
  return .lambda params (← rules .expression)

/-! ### Goals -/

def expression (rules : Rules) : Parse Expr := do
  if ← sees "lambda" then lambda rules
  else
    let body ← disjunction rules
    if ← accept "if" then
      let test ← rules .disjunction
      expect "else"
      return .conditional test body (← rules .expression)
    else return body

def named (rules : Rules) : Parse Expr := do
  if (← seesKind .name) && (← seesSecond ":=") then
    let name ← identifier
    expect ":="
    return .named (.name name) (← rules .expression)
  else
    let e ← expression rules
    require (!(← sees ":="))
    return e

/-- The **grammar**: how the expressions of each goal are read, given how those inside them
are. -/
def expressionAt (rules : Rules) : Rules
  | .expression => expression rules
  | .named => named rules
  | .star => starExpressions (starExpression rules (expression rules))
  | .bitOr => bitOr rules
  | .disjunction => disjunction rules
  | .inversion => inversion rules
  | .factor => factor rules

end Grammar

/-- The expressions of a goal, read with a step budget. -/
def parseGoal : (fuel : Nat) → Rules
  | 0 => fun _ => failure
  | fuel + 1 => Grammar.expressionAt (parseGoal fuel)

end DocTree.Python
