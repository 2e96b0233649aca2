import DocTree.Code.JavaExpression

/-!
# Statements, declarations and files of Java

The upper part of the grammar, and the closing of the table: a rule at depth `n + 1` uses the rules
at depth `n`, and no file is nested more deeply than it has tokens.
-/

namespace DocTree.Java

open Parse

/-! ### Statements -/

/-- Variables of one type after their modifiers, up to the semicolon; gives their line. -/
def localVariables (r : Rules) : Parse Nat := do
  variableModifiers r
  let line ← line
  let _ ← typeName r
  declarator r
  furtherVariables r
  accept [";"]
  return line

def catchClause (r : Rules) : Parse Unit := do
  accept ["catch", "("]
  variableModifiers r
  let _ ← separated "|" qualifiedName
  let _ ← identifier
  accept [")"]
  let _ ← block r

def resource (r : Rules) : Parse Unit := do
  variableModifiers r
  let _ ← referenceType r
  let _ ← dimensions
  let _ ← identifier
  let _ ← dimensions
  accept ["="]
  r.expression

/-- The resources after the opening parenthesis, at most `n`. -/
def resourcesUpTo (r : Rules) : Nat → Parse Unit
  | 0 => malformed
  | n + 1 => do
    resource r
    if !(← sees [")"]) then accept [";"]
    if !(← tryAccept [")"]) then resourcesUpTo r n

/-- What follows `try`. Without resources there is a `catch` or `finally` clause. -/
def tryRest (r : Rules) : Parse Unit := do
  let hasResources ← tryAccept ["("]
  if hasResources then resourcesUpTo r ((← remaining).length + 1)
  let _ ← block r
  let catches ← repeatWhile (sees ["catch"]) (catchClause r)
  let hasFinally ← tryAccept ["finally"]
  if hasFinally then
    let _ ← block r
  if catches.isEmpty && !hasFinally && !hasResources then malformed

/-- The label of one case with the colon after it. -/
def caseLabel (r : Rules) : Parse Unit := do
  if (← next).text == "case" then
    if !(← tryAccept [TokenKind.identifier, ":"]) then
      r.expression
      accept [":"]
  else accept [":"]

/-- The labels of a case and the statements up to the next one. -/
def caseGroup (r : Rules) : Parse Unit := do
  let _ ← repeatWhile (seesAny ["case", "default"]) (caseLabel r)
  let _ ← repeatUpTo (return !(← seesAny ["case", "default", "\x7d"])) r.blockStatement
    ((← remaining).length + 1)

def switchRest (r : Rules) : Parse Unit := do
  parenthesized r
  accept ["\x7b"]
  let _ ← repeatWhile (seesAny ["case", "default"]) (caseGroup r)
  accept ["\x7d"]

def expressions (r : Rules) : Parse Unit := do
  let _ ← separated "," r.expression

/-- The condition and the updates of a loop, with the semicolon before each of them. -/
def loopRest (r : Rules) : Parse Unit := do
  accept [";"]
  if !(← sees [";"]) then r.expression
  accept [";"]
  if !(← sees [")"]) then expressions r

/-- What steers a loop that declares a variable. -/
def variableLoop (r : Rules) : Parse Unit := do
  variableModifiers r
  let _ ← typeName r
  let _ ← identifier
  let _ ← dimensions
  if ← tryAccept [":"] then r.expression
  else
    if !(← sees [";"]) then
      if ← tryAccept ["="] then initializer r
      furtherVariables r
    loopRest r

/-- What stands between the parentheses of a `for` statement. -/
def loopControl (r : Rules) : Parse Unit := do
  if (← attempt (variableLoop r)).isNone then
    if !(← sees [";"]) then expressions r
    loopRest r

/-- A label after which a statement jumps, if there is one, with the semicolon. -/
def jumpRest : Parse Unit := do
  let _ ← tryAccept [TokenKind.identifier]
  accept [";"]

def ifRest (r : Rules) : Parse Unit := do
  parenthesized r
  r.statement
  if ← tryAccept ["else"] then r.statement

def assertRest (r : Rules) : Parse Unit := do
  r.expression
  if ← tryAccept [":"] then r.expression
  accept [";"]

def statement (r : Rules) : Parse Unit := do
  if ← sees ["\x7b"] then
    let _ ← block r
  else if ← tryAccept [";"] then return ()
  else if ← tryAccept [TokenKind.identifier, ":"] then r.statement
  else if ← tryAccept ["if"] then ifRest r
  else if ← tryAccept ["assert"] then assertRest r
  else if ← tryAccept ["switch"] then switchRest r
  else if ← tryAccept ["while"] then
    parenthesized r
    r.statement
  else if ← tryAccept ["do"] then
    r.statement
    accept ["while"]
    parenthesized r
    accept [";"]
  else if ← tryAccept ["for"] then
    accept ["("]
    loopControl r
    accept [")"]
    r.statement
  else if ← tryAccept ["break"] then jumpRest
  else if ← tryAccept ["continue"] then jumpRest
  else if ← tryAccept ["return"] then
    if !(← sees [";"]) then r.expression
    accept [";"]
  else if ← tryAccept ["throw"] then
    r.expression
    accept [";"]
  else if ← tryAccept ["synchronized"] then
    parenthesized r
    let _ ← block r
  else if ← tryAccept ["try"] then tryRest r
  else
    r.expression
    accept [";"]

def statementLine (r : Rules) : Parse Nat := do
  let line ← line
  statement r
  return line

/-- What is known of a declaration before its first own token. -/
def aboutNext (r : Rules) : Parse About := do
  let (marks, doc) ← modifierList r
  return ⟨← line, marks, doc⟩

/-- The declaration of a type in a block; gives its line. -/
def localType (r : Rules) : Parse Nat := do
  let about ← aboutNext r
  let _ ← r.typeAfter about
  return about.line

/-- What a statement in a block turns out to begin with. -/
inductive Ahead where
  /-- A modifier that only a declaration has. -/
  | declaration
  /-- A token, if there is one, after annotations or not. -/
  | token (found : Option Token) (isMarked : Bool)

/-- The tokens from the parenthesis on that closes the open ones. -/
def closingParenthesis (depth : Nat) : List Token → List Token
  | [] => []
  | t :: rest =>
    if t.text == "(" then closingParenthesis (depth + 1) rest
    else if t.text == ")" then
      if depth ≤ 1 then t :: rest else closingParenthesis (depth - 1) rest
    else closingParenthesis depth rest

/-- The tokens after the further parts of a dotted name. -/
def afterDots : List Token → List Token
  | t :: u :: rest => if t.text == "." then afterDots rest else t :: u :: rest
  | [t] => if t.text == "." then [] else [t]
  | [] => []

/-- Looks past modifiers and annotations, at most `n`: at the closing parenthesis of an annotation,
or past the token after one without. -/
def lookPast (isMarked : Bool) : Nat → List Token → Ahead
  | 0, ts => .token ts.head? isMarked
  | _ + 1, [] => .token none isMarked
  | n + 1, t :: rest =>
    if t.kind = .modifier then
      if t.text == "final" then lookPast isMarked n rest else .declaration
    else if t.kind = .atSign && (rest.head?.map Token.text) != some "interface" then
      let after := afterDots (rest.drop 1)
      if (after.head?.map Token.text) == some "(" then
        lookPast true n (closingParenthesis 0 after)
      else lookPast true n (after.drop 1)
    else .token (some t) isMarked

/-- A **statement in a block**: a type, variables, or a plain statement; gives its line. -/
def blockStatement (r : Rules) : Parse Nat := do
  if ← sees [TokenKind.identifier, ":"] then statementLine r
  else if ← sees ["synchronized"] then statementLine r
  else
    let ts ← remaining
    match lookPast false (ts.length + 1) ts with
    | .declaration => localType r
    | .token found isMarked =>
      let text := (found.map Token.text).getD ""
      let kind := found.map Token.kind
      if ["class", "enum", "interface", "@"].contains text then localType r
      else if isMarked || kind == some .basicType then localVariables r
      else if kind == some .identifier then
        match ← attempt (localVariables r) with
        | some line => return line
        | none => statementLine r
      else statementLine r

/-! ### Members -/

def throwsClause : Parse Unit := do
  if ← tryAccept ["throws"] then
    let _ ← separated "," qualifiedName

/-- The body of a method, or a semicolon; gives the line of the last statement. -/
def bodyOrNone (r : Rules) : Parse (Option Nat) := do
  if ← sees ["\x7b"] then return (← block r).getLast?
  else
    accept [";"]
    return none

def methodRest (r : Rules) (name : String) (result : Option String) : Parse Method := do
  let ps ← parameters r
  if result.isSome then
    let _ ← dimensions
  throwsClause
  return ⟨name, ps, result, ← bodyOrNone r⟩

def constructor (r : Rules) : Parse Method := do
  let name ← identifier
  let ps ← parameters r
  throwsClause
  return ⟨name, ps, none, (← block r).getLast?⟩

/-- A method without a result after `void`. -/
def voidMethod (r : Rules) : Parse Method := do
  let name ← identifier
  methodRest r name none

/-- A method or constructor after its type parameters. -/
def genericMethod (r : Rules) : Parse Method := do
  typeParameters r
  if ← sees [TokenKind.identifier, "("] then constructor r
  else if ← tryAccept ["void"] then voidMethod r
  else
    let result ← typeName r
    let name ← identifier
    methodRest r name (some result)

/-- A method with a result, or fields. -/
def methodOrFields (r : Rules) (about : About) : Parse Declaration := do
  let type ← typeName r
  let name ← identifier
  if ← sees ["("] then return .method (← methodRest r name (some type)) about
  else
    variableRest r
    furtherVariables r
    accept [";"]
    return .other

/-- What follows the name of a constant. -/
def constantRest (r : Rules) : Parse Unit := do
  let _ ← dimensions
  accept ["="]
  initializer r

/-- What follows the name of the first of several constants. -/
def constantsRest (r : Rules) : Parse Unit := do
  constantRest r
  let _ ← repeatWhile (tryAccept [","]) do
    let _ ← identifier
    constantRest r

/-- A method with a result, or constants. -/
def methodOrConstants (r : Rules) (about : About) : Parse Declaration := do
  let type ← typeName r
  let name ← identifier
  if ← sees ["("] then return .method (← methodRest r name (some type)) about
  else
    constantsRest r
    accept [";"]
    return .other

/-- A method of an interface after its type parameters. -/
def genericInterfaceMethod (r : Rules) : Parse Method := do
  typeParameters r
  let result ← if ← tryAccept ["void"] then pure none else some <$> typeName r
  let name ← identifier
  let ps ← parameters r
  let _ ← dimensions
  throwsClause
  return ⟨name, ps, result, ← bodyOrNone r⟩

/-! ### Types -/

def classDeclaration (r : Rules) (about : About) : Parse Declaration := do
  accept ["class"]
  let name ← identifier
  if ← sees ["<"] then typeParameters r
  if ← tryAccept ["extends"] then
    let _ ← typeName r
  if ← tryAccept ["implements"] then typeList r
  return .type .classType name about (← r.classBody)

def enumConstant (r : Rules) : Parse Unit := do
  if ← seesMark then
    let _ ← marks r
  let _ ← identifier
  if ← sees ["("] then arguments r
  if ← sees ["\x7b"] then
    let _ ← r.classBody

/-- The constants of an enumeration, at most `n`. -/
def enumConstants (r : Rules) : Nat → Parse Unit
  | 0 => malformed
  | n + 1 => do
    if !(← seesAny [";", "\x7d"]) then
      enumConstant r
      if ← tryAccept [","] then enumConstants r n

/-- Members up to the closing brace, without those that are only semicolons. -/
def membersUntilBrace (one : Parse (Option Declaration)) : Parse (List Declaration) := do
  return (← repeatUntil "\x7d" one).filterMap id

def bodyOf (one : Parse (Option Declaration)) : Parse (List Declaration) := do
  accept ["\x7b"]
  let found ← membersUntilBrace one
  accept ["\x7d"]
  return found

def seesType : Parse Bool :=
  return (← seesAny ["class", "enum", "interface"]) || (← seesMarkType)

/-- A member of a class that is neither a block nor a type. -/
def plainMember (r : Rules) (about : About) : Parse Declaration := do
  if ← tryAccept ["void"] then return .method (← voidMethod r) about
  else if ← sees ["<"] then return .method (← genericMethod r) about
  else if ← sees [TokenKind.identifier, "("] then return .method (← constructor r) about
  else methodOrFields r about

def initializerBlock (r : Rules) : Parse Declaration := do
  let _ ← tryAccept ["static"]
  let _ ← block r
  return .other

/-- A **member of a class**; a semicolon is none. -/
def member (r : Rules) : Parse (Option Declaration) := do
  if ← tryAccept [";"] then return none
  else if (← sees ["static", "\x7b"]) || (← sees ["\x7b"]) then return some (← initializerBlock r)
  else
    let about ← aboutNext r
    if ← seesType then return some (← r.typeAfter about)
    else return some (← plainMember r about)

/-- A member of an interface that is not a type. -/
def plainInterfaceMember (r : Rules) (about : About) : Parse Declaration := do
  if ← sees ["<"] then return .method (← genericInterfaceMethod r) about
  else if ← tryAccept ["void"] then return .method (← voidMethod r) about
  else methodOrConstants r about

/-- A **member of an interface**; a semicolon is none. -/
def interfaceMember (r : Rules) : Parse (Option Declaration) := do
  if ← tryAccept [";"] then return none
  else
    let about ← aboutNext r
    if ← seesType then return some (← r.typeAfter about)
    else return some (← plainInterfaceMember r about)

def enumDeclaration (r : Rules) (about : About) : Parse Declaration := do
  accept ["enum"]
  let name ← identifier
  if ← tryAccept ["implements"] then typeList r
  accept ["\x7b"]
  if !(← tryAccept [","]) then enumConstants r ((← remaining).length + 1)
  let found ← if ← tryAccept [";"] then membersUntilBrace (member r) else pure []
  accept ["\x7d"]
  return .type .enumType name about found

def interfaceDeclaration (r : Rules) (about : About) : Parse Declaration := do
  accept ["interface"]
  let name ← identifier
  if ← sees ["<"] then typeParameters r
  if ← tryAccept ["extends"] then typeList r
  return .type .interfaceType name about (← bodyOf (interfaceMember r))

/-- The element of an annotation type, or constants. -/
def markElement (r : Rules) : Parse Unit := do
  let _ ← typeName r
  let _ ← identifier
  if ← tryAccept ["("] then
    accept [")"]
    let _ ← dimensions
    if ← tryAccept ["default"] then elementValue r
  else constantsRest r
  accept [";"]

def markTypeMember (r : Rules) : Parse Unit := do
  let about ← aboutNext r
  if ← seesType then
    let _ ← r.typeAfter about
  else markElement r

def markTypeDeclaration (r : Rules) : Parse Declaration := do
  accept ["@", "interface"]
  let _ ← identifier
  accept ["\x7b"]
  let _ ← repeatUntil "\x7d" (markTypeMember r)
  accept ["\x7d"]
  return .other

/-- A **type** after its modifiers. -/
def typeAfter (r : Rules) (about : About) : Parse Declaration := do
  if ← sees ["class"] then classDeclaration r about
  else if ← sees ["enum"] then enumDeclaration r about
  else if ← sees ["interface"] then interfaceDeclaration r about
  else if ← seesMarkType then markTypeDeclaration r
  else malformed

/-! ### All rules -/

/-- All **rules** up to a depth. -/
def rules : Nat → Rules
  | 0 =>
    { typeArguments := malformed, mark := malformed, elementValue := malformed
      expression := malformed, conditional := malformed, operand := malformed
      initializer := malformed, statement := malformed, blockStatement := malformed
      typeAfter := fun _ => malformed, classBody := malformed }
  | depth + 1 =>
    let r := rules depth
    { typeArguments := typeArguments r, mark := mark r, elementValue := elementValue r
      expression := expression r, conditional := conditional r, operand := operand r
      initializer := initializer r, statement := statement r, blockStatement := blockStatement r
      typeAfter := typeAfter r, classBody := bodyOf (member r) }

/-! ### Files -/

/-- The package clause with its annotations, if there is one; else nothing is consumed. -/
def packageClause (r : Rules) : Parse Unit := orStay do
  if ← seesMark then
    let _ ← marks r
  if ← tryAccept ["package"] then
    let _ ← qualifiedName
    accept [";"]
    return true
  else return false

/-- The names of an import, at most `n`, and whether it is a wildcard. -/
def importPath : Nat → Parse (List String × Bool)
  | 0 => malformed
  | n + 1 => do
    let name ← identifier
    if ← tryAccept ["."] then
      if ← tryAccept ["*"] then
        accept [";"]
        return ([name], true)
      else
        let (names, isWildcard) ← importPath n
        return (name :: names, isWildcard)
    else
      accept [";"]
      return ([name], false)

def importClause : Parse Import := do
  let line ← line
  accept ["import"]
  let isStatic ← tryAccept ["static"]
  let (names, isWildcard) ← importPath ((← remaining).length + 1)
  return ⟨Text.join "." names, isStatic, isWildcard, line⟩

/-- A type of a file; a semicolon is none. -/
def fileType (r : Rules) : Parse (Option Declaration) := do
  if ← tryAccept [";"] then return none
  else
    let about ← aboutNext r
    return some (← typeAfter r about)

/-- The types of a file, in which a lack of tokens is malformed. -/
def fileTypes (r : Rules) : Parse (List Declaration) := fun tokens =>
  match repeatWhile (return !(← remaining).isEmpty) (fileType r) tokens with
  | .ok (found, rest) => .ok (found.filterMap id, rest)
  | .error .exhausted => .error .malformed
  | .error fault => .error fault

/-- What a file consists of. -/
def compilationUnit (r : Rules) : Parse File := do
  packageClause r
  let imports ← repeatWhile (sees ["import"]) importClause
  return ⟨imports, ← fileTypes r⟩

/-- The declarations of a **file**. -/
def file (tokens : List Token) : Except ParseFault File :=
  (compilationUnit (rules (tokens.length + 1)) tokens).map Prod.fst

end DocTree.Java
