import DocTree.Code.PythonPattern

/-!
# Statements of Python

The grammar of statements. A source text is a module if all its tokens are statements.
-/

namespace DocTree.Python

namespace Grammar

open Parse

/-! ### Imports -/

def dottedName : Parse String := do
  let first ← identifier
  let rest ← repeatWhile (accept ".") identifier
  return Text.join "." (first :: rest)

def newName : Parse (Option String) := do
  if ← accept "as" then return some (← identifier) else return none

def moduleAlias : Parse Alias := do
  let name ← dottedName
  return { name := name, as? := ← newName }

def nameAlias : Parse Alias := do
  let name ← identifier
  return { name := name, as? := ← newName }

def importedNames : Parse (List Alias) := do
  if ← accept "*" then return [{ name := "*", as? := none }]
  else if ← accept "(" then
    require (!(← sees ")"))
    let names ← listUntil (sees ")") nameAlias
    expect ")"
    return names
  else
    let names ← separated nameAlias
    require (!(← sees ","))
    return names

/-- The points before the name of a module. -/
def points : Parse Nat := do
  let found ← repeatWhile (seesAny [".", "..."]) (do
    let three ← sees "..."
    skip
    return if three then 3 else 1)
  return found.foldl (· + ·) 0

/-- The name of the module that names are imported from; after points it may be missing. -/
def sourceName (level : Nat) : Parse (Option String) := do
  if ← sees "import" then
    require (level != 0)
    return none
  else return some (← dottedName)

def importStatement : Parse Statement := do
  let first ← line
  if ← accept "import" then
    let names ← separated moduleAlias
    return .importModules ⟨first, ← lastLine⟩ names
  else
    expect "from"
    let level ← points
    let source ← sourceName level
    expect "import"
    let names ← importedNames
    return .importFrom ⟨first, ← lastLine⟩ level source names

/-! ### Simple statements -/

def rightSide (rules : Rules) : Parse Expr := do
  if ← sees "yield" then yieldExpr rules else rules .star

/-- The assignments that change a value in place. -/
def changes : List String :=
  ["+=", "-=", "*=", "@=", "/=", "%=", "&=", "|=", "^=", "<<=", ">>=", "**=", "//="]

/-- The right sides of assignments, at most `n`; all but the last are left sides too. -/
def rightSides (rules : Rules) : Nat → Parse Unit
  | 0 => failure
  | n + 1 => do
    if ← sees "yield" then
      let _ ← yieldExpr rules
      require (!(← sees "="))
    else
      let e ← rules .star
      if ← accept "=" then
        require (isTarget e)
        rightSides rules n

def expressionStatement (rules : Rules) : Parse Statement := do
  let e ← rules .star
  if ← accept ":" then
    require (isSimpleTarget e)
    let _ ← rules .expression
    if ← accept "=" then
      let _ ← rightSide rules
    return .other
  else if ← seesAny changes then
    require (isSimpleTarget e)
    skip
    let _ ← rightSide rules
    return .other
  else if ← accept "=" then
    require (isTarget e)
    rightSides rules (← get).length
    return .other
  else return .expression e

def seesEnd : Parse Bool := do
  return (← seesKind .newline) || (← sees ";")

/-- A statement without blocks. -/
def simpleStatement (rules : Rules) : Parse Statement := do
  if ← seesAny ["import", "from"] then importStatement
  else if ← accept "return" then
    let _ ← attempt (rules .star)
    return .other
  else if ← accept "raise" then
    if ← seesEnd then return .other
    else
      let _ ← rules .expression
      if ← accept "from" then
        let _ ← rules .expression
      return .other
  else if ← seesAny ["pass", "break", "continue"] then
    skip
    return .other
  else if ← accept "del" then
    let e ← rules .star
    require (isDeletable e)
    return .other
  else if ← sees "yield" then
    return .expression (← yieldExpr rules)
  else if ← accept "assert" then
    let _ ← rules .expression
    if ← accept "," then
      let _ ← rules .expression
    return .other
  else if ← seesAny ["global", "nonlocal"] then
    skip
    let _ ← separated identifier
    return .other
  else expressionStatement rules

def simpleStatements (rules : Rules) : Parse (List Statement) := do
  let first ← simpleStatement rules
  let rest ← repeatWhile (do
    if ← accept ";" then return !(← seesKind .newline) else return false) (simpleStatement rules)
  expectKind .newline
  return first :: rest

/-! ### Blocks -/

/-- A block after its colon. -/
def block (rules : Rules) (body : Parse (List Statement)) : Parse (List Statement) := do
  if ← seesKind .newline then
    skip
    expectKind .indent
    let statements ← body
    expectKind .dedent
    return statements
  else simpleStatements rules

def suite (rules : Rules) (body : Parse (List Statement)) : Parse (List Statement) := do
  expect ":"
  block rules body

/-- The block of a word such as `else`, if it is next. -/
def wordBlock (word : String) (rules : Rules) (body : Parse (List Statement)) :
    Parse (List Statement) := do
  if ← accept word then suite rules body else return []

/-! ### Compound statements -/

def ifStatement (rules : Rules) (body : Parse (List Statement)) : Parse Statement := do
  expect "if"
  let _ ← rules .named
  let first ← suite rules body
  let others ← repeatWhile (accept "elif") (do
    let _ ← rules .named
    suite rules body)
  let last ← wordBlock "else" rules body
  return .compound (first ++ others.flatten ++ last)

def whileStatement (rules : Rules) (body : Parse (List Statement)) : Parse Statement := do
  expect "while"
  let _ ← rules .named
  let first ← suite rules body
  let last ← wordBlock "else" rules body
  return .compound (first ++ last)

def forStatement (rules : Rules) (body : Parse (List Statement)) : Parse Statement := do
  expect "for"
  let _ ← targets rules
  expect "in"
  let _ ← rules .star
  let first ← suite rules body
  let last ← wordBlock "else" rules body
  return .compound (first ++ last)

/-- One context, with the target it is bound to. -/
def context (rules : Rules) : Parse Unit := do
  let _ ← rules .expression
  if ← accept "as" then
    let e ← starExpression rules (rules .bitOr)
    require (isTarget e)
    require (← seesAny [",", ")", ":"])

/-- Contexts in parentheses, up to the colon, which stays. -/
def enclosedContexts (rules : Rules) : Parse Unit := do
  expect "("
  require (!(← sees ")"))
  let _ ← listUntil (sees ")") (context rules)
  expect ")"
  require (← sees ":")

def withStatement (rules : Rules) (body : Parse (List Statement)) : Parse Statement := do
  expect "with"
  match ← attempt (enclosedContexts rules) with
  | some () => pure ()
  | none =>
    let _ ← separated (context rules)
  return .compound (← suite rules body)

def handler (starred : Bool) (rules : Rules) (body : Parse (List Statement)) :
    Parse (List Statement) := do
  expect "except"
  if starred then expect "*"
  if starred || !(← sees ":") then
    let _ ← rules .expression
    let _ ← newName
  suite rules body

def tryStatement (rules : Rules) (body : Parse (List Statement)) : Parse Statement := do
  expect "try"
  let first ← suite rules body
  if ← sees "finally" then
    let last ← wordBlock "finally" rules body
    return .compound (first ++ last)
  else
    let starred := (← sees "except") && (← seesSecond "*")
    require (← sees "except")
    let handlers ← repeatWhile (sees "except") (handler starred rules body)
    let other ← wordBlock "else" rules body
    let last ← wordBlock "finally" rules body
    return .compound (first ++ handlers.flatten ++ other ++ last)

def subject (rules : Rules) : Parse Unit := do
  let first ← starNamed rules
  if ← accept "," then
    let _ ← listUntil (sees ":") (starNamed rules)
  else require (!isStarred first)

def case (rules : Rules) (fuel : Nat) (body : Parse (List Statement)) :
    Parse (List Statement) := do
  require (← seesName "case")
  skip
  Pattern.top rules fuel
  if ← accept "if" then
    let _ ← rules .named
  suite rules body

def matchStatement (rules : Rules) (fuel : Nat) (body : Parse (List Statement)) :
    Parse Statement := do
  skip
  subject rules
  expect ":"
  expectKind .newline
  expectKind .indent
  let first ← case rules fuel body
  let cases ← repeatWhile (return !(← seesKind .dedent)) (case rules fuel body)
  expectKind .dedent
  return .compound (first ++ cases.flatten)

/-! ### Definitions -/

def resultHint (rules : Rules) : Parse (Option Expr) := do
  if ← accept "->" then return some (← rules .expression) else return none

/-- A function definition from its first keyword on. -/
def functionDefinition (decorators : List Expr) (rules : Rules)
    (body : Parse (List Statement)) : Parse Statement := do
  let first ← line
  let concurrent ← accept "async"
  expect "def"
  let name ← identifier
  expect "("
  let params ← parameters rules ")" (hint rules) (starHint rules)
  expect ")"
  let result ← resultHint rules
  let statements ← suite rules body
  return .functionDef ⟨first, ← lastLine⟩
    { concurrent := concurrent
      name := name
      parameters := params
      result := result
      decorators := decorators } statements

def classDefinition (decorators : List Expr) (rules : Rules)
    (body : Parse (List Statement)) : Parse Statement := do
  let first ← line
  expect "class"
  let name ← identifier
  if ← accept "(" then
    let _ ← arguments rules
    expect ")"
  let statements ← suite rules body
  return .classDef ⟨first, ← lastLine⟩ { name := name, decorators := decorators } statements

def decorated (rules : Rules) (body : Parse (List Statement)) : Parse Statement := do
  let decorators ← repeatWhile (accept "@") (do
    let e ← rules .named
    expectKind .newline
    return e)
  if ← sees "class" then classDefinition decorators rules body
  else functionDefinition decorators rules body

def asyncStatement (rules : Rules) (body : Parse (List Statement)) : Parse Statement := do
  if ← seesSecond "def" then functionDefinition [] rules body
  else
    skip
    if ← sees "with" then withStatement rules body else forStatement rules body

/-- A line of simple statements, or one compound statement. -/
def statement (rules : Rules) (fuel : Nat) (body : Parse (List Statement)) :
    Parse (List Statement) := do
  let one := fun (s : Parse Statement) => do return [← s]
  if ← sees "def" then one (functionDefinition [] rules body)
  else if ← sees "class" then one (classDefinition [] rules body)
  else if ← sees "@" then one (decorated rules body)
  else if ← sees "async" then one (asyncStatement rules body)
  else if ← sees "if" then one (ifStatement rules body)
  else if ← sees "for" then one (forStatement rules body)
  else if ← sees "while" then one (whileStatement rules body)
  else if ← sees "try" then one (tryStatement rules body)
  else if ← sees "with" then one (withStatement rules body)
  else if ← seesName "match" then
    match ← attempt (matchStatement rules fuel body) with
    | some s => return [s]
    | none => simpleStatements rules
  else simpleStatements rules

end Grammar

open Parse Grammar

/-- **Statements** up to the end of the block or of the text, read with a step budget. -/
def parseStatements : (fuel : Nat) → Parse (List Statement)
  | 0 => failure
  | fuel + 1 => do
    let all ← repeatWhile (do
      let t ← peek
      return t.kind != .dedent && t.kind != .finish)
      (statement (parseGoal fuel) fuel (parseStatements fuel))
    return all.flatten

/-- The statements of a **source text**; nothing if it is not a module. -/
def parseModule? (source : String) : Option (List Statement) := do
  let cs := source.toList
  let tokens ← tokens? cs
  let (statements, rest) ← (parseStatements (cs.length + 2)).run tokens
  match rest with
  | t :: _ => if t.kind == .finish then some statements else none
  | [] => none

end DocTree.Python
