import DocTree.Code.PythonSyntax
import DocTree.Failure
import DocTree.Text.Integer

/-!
# Printing Python expressions

Every place in an expression has a **level**; an expression that binds weaker than its place stands
in parentheses. Texts inside the braces of a formatted text are quoted without backslashes where
possible.
-/

namespace DocTree.Python.Print

/-! ### Levels -/

def namedLevel : Nat := 0

def tupleLevel : Nat := 1

/-- The level of a value that is given to the caller. -/
def yieldLevel : Nat := 2

/-- The level of conditionals and lambdas, and of every place that asks for no other. -/
def testLevel : Nat := 3

def compareLevel : Nat := 7

/-- The level of the weakest operator that is not a condition. -/
def operatorLevel : Nat := 8

/-- The level of a value that is waited for. -/
def awaitLevel : Nat := 16

def atomLevel : Nat := 17

def stronger (level : Nat) : Nat := min (level + 1) atomLevel

/-- A text in parentheses if it binds weaker than its place. -/
def enclose (level own : Nat) (text : String) : String :=
  if own < level then "(" ++ text ++ ")" else text

/-! ### Operators -/

/-- The spelling and the level of an operator with two operands. -/
def binaryOperator : BinaryOperator → String × Nat
  | .bitOr => ("|", 8)
  | .bitXor => ("^", 9)
  | .bitAnd => ("&", 10)
  | .shiftLeft => ("<<", 11)
  | .shiftRight => (">>", 11)
  | .add => ("+", 12)
  | .sub => ("-", 12)
  | .mul => ("*", 13)
  | .matMul => ("@", 13)
  | .div => ("/", 13)
  | .mod => ("%", 13)
  | .floorDiv => ("//", 13)
  | .pow => ("**", 15)

def unaryOperator : UnaryOperator → String × Nat
  | .not => ("not ", 6)
  | .invert => ("~", 14)
  | .plus => ("+", 14)
  | .minus => ("-", 14)

def boolOperator : BoolOperator → String × Nat
  | .and => (" and ", 5)
  | .or => (" or ", 4)

def comparison : Comparison → String
  | .eq => " == "
  | .notEq => " != "
  | .less => " < "
  | .lessEq => " <= "
  | .greater => " > "
  | .greaterEq => " >= "
  | .is => " is "
  | .isNot => " is not "
  | .isIn => " in "
  | .notIn => " not in "

/-! ### Literals -/

def isPrintablePoint (n : Nat) : Bool := n.isValidChar && Text.isPrintable (Char.ofNat n)

def escapePoint (n : Nat) : List Char :=
  if n == 0x5c then ['\\', '\\']
  else if n == 0x9 then ['\\', 't']
  else if n == 0xa then ['\\', 'n']
  else if n == 0xd then ['\\', 'r']
  else Text.escapeCode n

/-- How a code point is written between the given quotes. -/
def quotePoint (quote : Char) (n : Nat) : List Char :=
  if n == quote.toNat then ['\\', quote]
  else if n != 0x5c && isPrintablePoint n then [Char.ofNat n]
  else escapePoint n

/-- The quote that a text takes. -/
def quoteFor (points : List Nat) : Char :=
  if points.contains '\''.toNat && !points.contains '"'.toNat then '"' else '\''

def quotedPoints (points : List Nat) : List Char :=
  let q := quoteFor points
  q :: points.flatMap (quotePoint q) ++ [q]

def quoteByte (quote : Char) (n : Nat) : List Char :=
  if n == quote.toNat then ['\\', quote]
  else if n != 0x5c && 0x20 ≤ n && n < 0x7f then [Char.ofNat n]
  else escapePoint n

def quotedBytes (bytes : List Nat) : String :=
  let q := quoteFor bytes
  String.ofList ('b' :: q :: bytes.flatMap (quoteByte q) ++ [q])

/-- All quotes, in the order in which they are preferred. -/
def allQuotes : List (List Char) :=
  [['\''], ['"'], ['"', '"', '"'], ['\'', '\'', '\'']]

/-- A code point where backslashes are avoided: line feeds and tabs stay, unless `blanks` says
otherwise. -/
def softPoint (blanks : Bool) (n : Nat) : List Char :=
  if !blanks && (n == 0xa || n == 0x9) then [Char.ofNat n]
  else if n == 0x5c || !isPrintablePoint n then escapePoint n
  else [Char.ofNat n]

/-- The quotes that a body can stand between without further escapes, the best first. -/
def possibleQuotes (quotes : List (List Char)) (body : List Char) : List (List Char) :=
  let fit := quotes.filter fun q =>
    (!body.contains '\n' || q.length == 3) && !Text.occursIn q body
  match body.getLast? with
  | some last =>
    let differs := fun (q : List Char) => q.head? != some last
    fit.filter differs ++ fit.filter fun q => !differs q
  | none => fit

/-- The **body of a literal**, and the quotes it can stand between. -/
def literalBody (quotes : List (List Char)) (blanks : Bool) (points : List Nat) :
    List Char × List (List Char) :=
  let body := points.flatMap (softPoint blanks)
  match possibleQuotes quotes body with
  | [] =>
    let quoted := quotedPoints points
    let first := quoted.take 1
    let quote := (quotes.find? fun q => q.take 1 == first).getD first
    ((quoted.drop 1).dropLast, [quote])
  | best :: others =>
    if best.head? == body.getLast? && !body.isEmpty then
      (body.dropLast ++ '\\' :: body.getLast?.toList, best :: others)
    else (body, best :: others)

/-- A text between quotes that needs as few backslashes as possible. -/
def softLiteral (points : List Nat) : String :=
  let (body, quotes) := literalBody allQuotes false points
  let quote := quotes.headD []
  String.ofList (quote ++ body ++ quote)

/-- The bodies of the parts of a formatted text and the quotes that fit all of them. -/
def jointBodies (quotes : List (List Char)) : List (List Nat × Bool) →
    Option (List (List Char) × List (List Char))
  | [] => some ([], quotes)
  | (points, blanks) :: rest =>
    let (body, left) := literalBody quotes blanks points
    if left.any quotes.contains then
      (jointBodies left rest).map fun (bodies, quotes) => (body :: bodies, quotes)
    else none

/-- The body of a part between three apostrophes. -/
def plainBody (points : List Nat) : List Char := points.flatMap (quotePoint '\'')

/-- A formatted text, of whose parts it is known whether they are literal. -/
def jointLiteral (parts : List (List Nat × Bool)) : String :=
  match jointBodies allQuotes parts with
  | some (bodies, quotes) =>
    let quote := quotes.headD []
    String.ofList (quote ++ bodies.flatten ++ quote)
  | none =>
    let quote := ['\'', '\'', '\'']
    String.ofList (quote ++ (parts.map fun p => plainBody p.1).flatten ++ quote)

/-- The text of a fraction; an infinite one is written as a number that is too large. -/
def fraction (x : Double) : String :=
  match x with
  | .infinite _ => "1e309"
  | x => x.text

def imaginary (x : Double) : String :=
  let text := fraction x
  let short := if Text.endsWith text ".0" then Text.take text (text.length - 2) else text
  short ++ "j"

/-- The text of a literal; `soft` says that backslashes are avoided. -/
def constant (soft : Bool) : Constant → Except Failure String
  | .none => .ok "None"
  | .true => .ok "True"
  | .false => .ok "False"
  | .ellipsis => .ok "..."
  | .int n =>
    let text := Decimal.natText n
    if Text.digitLimit < text.length then .error (.complaint .tooLongToWrite) else .ok text
  | .float x => .ok (fraction x)
  | .imaginary x => .ok (imaginary x)
  | .text marked points =>
    let body := if soft then softLiteral points else String.ofList (quotedPoints points)
    .ok (if marked then "u" ++ body else body)
  | .bytes bytes => .ok (quotedBytes bytes)

/-- The code points of a literal part of a formatted text: braces are doubled. -/
def doubleBraces (points : List Nat) : List Nat :=
  points.flatMap fun n => if n == 0x7b || n == 0x7d then [n, n] else [n]

/-! ### Expressions -/

/-- Items with commas; a single item has a comma too. -/
def items (texts : List String) : String :=
  match texts with
  | [text] => text ++ ","
  | texts => Text.join ", " texts

/-- Whether a literal is a whole number or a truth value, after which a point needs a blank. -/
def needsBlank : Expr → Bool
  | .constant (.int _) => true
  | .constant .true => true
  | .constant .false => true
  | _ => false

/-- The beginning of a value in a formatted text, up to its conversion. It cannot hold a
backslash. -/
def formattedHead (value : String) (conversion : Option Char) : Except Failure (List Nat) :=
  if Text.contains value "\\" then .error (.complaint .unprintableExpression)
  else
    let blank := if Text.startsWith value "\x7b" then " " else ""
    let mark := (conversion.map fun c => "!" ++ String.singleton c).getD ""
    .ok (("\x7b" ++ blank ++ value ++ mark).toList.map Char.toNat)

def isFilledTuple : Expr → Bool
  | .tuple items => !items.isEmpty
  | _ => false

/-- Regular parameters with their defaults, which belong to the last ones. -/
def withDefaults (sign : String) (parameters defaults : List String) : List String :=
  let plain := parameters.length - defaults.length
  let missing := defaults.length - parameters.length
  parameters.take plain ++
    List.zipWith (fun p d => p ++ sign ++ d) (parameters.drop plain) (defaults.drop missing)

/-- The parameters of a function without a name. -/
def parameterList (positional regular defaults : List String) (rest : Option String)
    (keywordOnly : List String) (keywords : Option String) : String :=
  let all := withDefaults "=" (positional ++ regular) defaults
  let slash := if positional.isEmpty then [] else ["/"]
  let star :=
    match rest with
    | some p => ["*" ++ p]
    | none => if keywordOnly.isEmpty then [] else ["*"]
  Text.join ", " (all.take positional.length ++ slash ++ all.drop positional.length ++ star ++
    keywordOnly ++ (keywords.map ("**" ++ ·)).toList)

mutual

/-- The text of an **expression** at a level; `soft` says that backslashes are avoided. -/
def expression (soft : Bool) (level : Nat) : Expr → Except Failure String
  | .name id => .ok id
  | .constant c => constant soft c
  | .joined parts => do
    let parts ← innerParts parts
    if soft then return "f" ++ softLiteral (parts.map Prod.fst).flatten
    else return "f" ++ jointLiteral parts
  | .formatted value conversion spec => do
    let head ← formattedHead (← expression true (stronger testLevel) value) conversion
    let spec ← innerSpec spec
    return String.ofList ((head ++ spec ++ [0x7d]).map Char.ofNat)
  | .bool op operands => do
    let (word, own) := boolOperator op
    return enclose level own (Text.join word (← risingOperands soft own operands))
  | .named target value => do
    let target ← expression soft atomLevel target
    let value ← expression soft atomLevel value
    return enclose level namedLevel (target ++ " := " ++ value)
  | .binary op left right => do
    let (sign, own) := binaryOperator op
    let left ← expression soft (if op = .pow then stronger own else own) left
    let right ← expression soft (if op = .pow then own else stronger own) right
    return enclose level own (left ++ " " ++ sign ++ " " ++ right)
  | .unary op operand => do
    let (sign, own) := unaryOperator op
    return enclose level own (sign ++ (← expression soft own operand))
  | .lambda params body => do
    let params ← parameters soft params
    let body ← expression soft testLevel body
    return enclose level testLevel
      ("lambda" ++ (if params.isEmpty then "" else " " ++ params) ++ ": " ++ body)
  | .conditional test body other => do
    let body ← expression soft (stronger testLevel) body
    let test ← expression soft (stronger testLevel) test
    let other ← expression soft testLevel other
    return enclose level testLevel (body ++ " if " ++ test ++ " else " ++ other)
  | .dict entries => do
    return "\x7b" ++ Text.join ", " (← entryTexts soft entries) ++ "\x7d"
  | .set items => do
    if items.isEmpty then return "\x7b*()\x7d"
    else return "\x7b" ++ Text.join ", " (← expressions soft testLevel items) ++ "\x7d"
  | .list items => do
    return "[" ++ Text.join ", " (← expressions soft testLevel items) ++ "]"
  | .tuple all => do
    let text := items (← expressions soft testLevel all)
    return if all.isEmpty || tupleLevel < level then "(" ++ text ++ ")" else text
  | .listOf item clauses => do
    return "[" ++ (← expression soft testLevel item) ++ (← clauseTexts soft clauses) ++ "]"
  | .setOf item clauses => do
    return "\x7b" ++ (← expression soft testLevel item) ++ (← clauseTexts soft clauses) ++ "\x7d"
  | .dictOf key value clauses => do
    let key ← expression soft testLevel key
    let value ← expression soft testLevel value
    return "\x7b" ++ key ++ ": " ++ value ++ (← clauseTexts soft clauses) ++ "\x7d"
  | .generator item clauses => do
    return "(" ++ (← expression soft testLevel item) ++ (← clauseTexts soft clauses) ++ ")"
  | .await value => do
    return enclose level awaitLevel ("await " ++ (← expression soft atomLevel value))
  | .yield value => do
    match ← optionText soft atomLevel value with
    | some text => return enclose level yieldLevel ("yield " ++ text)
    | none => return enclose level yieldLevel "yield"
  | .yieldFrom value => do
    return enclose level yieldLevel ("yield from " ++ (← expression soft atomLevel value))
  | .compare left rest => do
    let left ← expression soft (stronger compareLevel) left
    return enclose level compareLevel (left ++ (← comparedText soft rest))
  | .call function arguments keywords => do
    let function ← expression soft atomLevel function
    let arguments ← expressions soft testLevel arguments
    let keywords ← keywordTexts soft keywords
    return function ++ "(" ++ Text.join ", " (arguments ++ keywords) ++ ")"
  | .member value name => do
    let text ← expression soft atomLevel value
    return text ++ (if needsBlank value then " ." else ".") ++ name
  | .subscript value index => do
    let value ← expression soft atomLevel value
    let level := if isFilledTuple index then tupleLevel else testLevel
    return value ++ "[" ++ (← expression soft level index) ++ "]"
  | .starred value => do return "*" ++ (← expression soft operatorLevel value)
  | .slice lower upper step => do
    let lower ← optionText soft testLevel lower
    let upper ← optionText soft testLevel upper
    let step ← optionText soft testLevel step
    return lower.getD "" ++ ":" ++ upper.getD "" ++ (step.map (":" ++ ·)).getD ""

def expressions (soft : Bool) (level : Nat) : List Expr → Except Failure (List String)
  | [] => .ok []
  | e :: rest => do
    let text ← expression soft level e
    return text :: (← expressions soft level rest)

/-- The texts of the operands of a condition; the level rises from one to the next. -/
def risingOperands (soft : Bool) (level : Nat) : List Expr → Except Failure (List String)
  | [] => .ok []
  | e :: rest => do
    let text ← expression soft (stronger level) e
    return text :: (← risingOperands soft (stronger level) rest)

def optionText (soft : Bool) (level : Nat) : Option Expr → Except Failure (Option String)
  | none => .ok none
  | some e => do return some (← expression soft level e)

def entryTexts (soft : Bool) : List Entry → Except Failure (List String)
  | [] => .ok []
  | .pair key value :: rest => do
    let key ← expression soft testLevel key
    let value ← expression soft testLevel value
    return (key ++ ": " ++ value) :: (← entryTexts soft rest)
  | .spread value :: rest => do
    let value ← expression soft operatorLevel value
    return ("**" ++ value) :: (← entryTexts soft rest)

def clauseTexts (soft : Bool) : List Clause → Except Failure String
  | [] => .ok ""
  | .mk concurrent target source conditions :: rest => do
    let target ← expression soft tupleLevel target
    let source ← expression soft (stronger testLevel) source
    let conditions ← expressions soft (stronger testLevel) conditions
    let own := (if concurrent then " async for " else " for ") ++ target ++ " in " ++ source ++
      Text.join "" (conditions.map (" if " ++ ·))
    return own ++ (← clauseTexts soft rest)

def comparedText (soft : Bool) : List Compared → Except Failure String
  | [] => .ok ""
  | .mk op operand :: rest => do
    let operand ← expression soft (stronger compareLevel) operand
    return comparison op ++ operand ++ (← comparedText soft rest)

def keywordTexts (soft : Bool) : List Keyword → Except Failure (List String)
  | [] => .ok []
  | .mk name value :: rest => do
    let value ← expression soft testLevel value
    let text :=
      match name with
      | some name => name ++ "=" ++ value
      | none => "**" ++ value
    return text :: (← keywordTexts soft rest)

def parameter (soft : Bool) : Parameter → Except Failure String
  | .mk name hint => do
    match ← optionText soft testLevel hint with
    | some text => return name ++ ": " ++ text
    | none => return name

def parameterTexts (soft : Bool) : List Parameter → Except Failure (List String)
  | [] => .ok []
  | p :: rest => do
    let text ← parameter soft p
    return text :: (← parameterTexts soft rest)

def optionParameter (soft : Bool) : Option Parameter → Except Failure (Option String)
  | none => .ok none
  | some p => do return some (← parameter soft p)

def keywordParameterTexts (soft : Bool) (sign : String) :
    List KeywordParameter → Except Failure (List String)
  | [] => .ok []
  | .mk p default :: rest => do
    let text ← parameter soft p
    let text :=
      match ← optionText soft testLevel default with
      | some d => text ++ sign ++ d
      | none => text
    return text :: (← keywordParameterTexts soft sign rest)

def parameters (soft : Bool) : Parameters → Except Failure String
  | .mk positional regular defaults rest keywordOnly keywords => do
    let positional ← parameterTexts soft positional
    let regular ← parameterTexts soft regular
    let defaults ← expressions soft testLevel defaults
    let rest ← optionParameter soft rest
    let keywordOnly ← keywordParameterTexts soft "=" keywordOnly
    let keywords ← optionParameter soft keywords
    return parameterList positional regular defaults rest keywordOnly keywords

/-- The code points of a part of a formatted text. -/
def inner : Expr → Except Failure (List Nat)
  | .joined parts => do
    let parts ← innerParts parts
    return (parts.map Prod.fst).flatten
  | .formatted value conversion spec => do
    let head ← formattedHead (← expression true (stronger testLevel) value) conversion
    let spec ← innerSpec spec
    return head ++ spec ++ [0x7d]
  | .constant (.text _ points) => .ok (doubleBraces points)
  | _ => .ok []

/-- The code points of a format with its colon, if there is one. -/
def innerSpec : Option Expr → Except Failure (List Nat)
  | none => .ok []
  | some e => do return 0x3a :: (← inner e)

/-- The code points of the parts of a formatted text, and whether they are literal. -/
def innerParts : List Expr → Except Failure (List (List Nat × Bool))
  | [] => .ok []
  | e :: rest => do
    let points ← inner e
    let literal :=
      match e with
      | .constant _ => true
      | _ => false
    return (points, literal) :: (← innerParts rest)

end

/-- The text of an expression that stands by itself. -/
def text (e : Expr) : Except Failure String := expression false testLevel e

/-! ### Imports -/

def importedName (a : Alias) : String :=
  match a.as? with
  | some name => a.name ++ " as " ++ name
  | none => a.name

def importModules (names : List Alias) : String :=
  "import " ++ Text.join ", " (names.map importedName)

def importFrom (level : Nat) (source : Option String) (names : List Alias) : String :=
  "from " ++ String.ofList (List.replicate level '.') ++ source.getD "" ++ " import " ++
    Text.join ", " (names.map importedName)

/-! ### Signatures -/

/-- The parameters of a signature: defaults of positional-only parameters are not shown. -/
def signatureParameters : Parameters → Except Failure (List String)
  | .mk positional regular defaults rest keywordOnly keywords => do
    let positional ← parameterTexts false positional
    let regular ← parameterTexts false regular
    let shown := defaults.drop (defaults.length - regular.length)
    let defaults ← expressions false testLevel shown
    let rest ← optionParameter false rest
    let keywordOnly ← keywordParameterTexts false " = " keywordOnly
    let keywords ← optionParameter false keywords
    let slash := if positional.isEmpty then [] else ["/"]
    let star :=
      match rest with
      | some p => ["*" ++ p]
      | none => if keywordOnly.isEmpty then [] else ["*"]
    return positional ++ slash ++ withDefaults " = " regular defaults ++ star ++ keywordOnly ++
      (keywords.map ("**" ++ ·)).toList

/-- The **signature** of a function. -/
def signature (head : FunctionHead) : Except Failure String := do
  let parameters ← signatureParameters head.parameters
  let word := if head.concurrent then "async def " else "def "
  let result ← optionText false testLevel head.result
  return word ++ head.name ++ "(" ++ Text.join ", " parameters ++ ")" ++
    (result.map (" -> " ++ ·)).getD ""

end DocTree.Python.Print
