import DocTree.Code.JavaParse
import DocTree.Code.JavaSyntax

/-!
# Types, annotations and expressions of Java

The grammar below statements. Rules that occur within each other are taken from a table `Rules`,
which is closed where the whole grammar is known. Expressions are checked but not kept.
-/

namespace DocTree.Java

open Parse

/-- The **rules** that occur within each other. -/
structure Rules where
  typeArguments : Parse Unit
  mark : Parse String
  elementValue : Parse Unit
  expression : Parse Unit
  conditional : Parse Unit
  operand : Parse Unit
  initializer : Parse Unit
  statement : Parse Unit
  blockStatement : Parse Nat
  typeAfter : About → Parse Declaration
  classBody : Parse (List Declaration)

/-! ### Types -/

/-- Pairs of brackets; gives their number. -/
def dimensions : Parse Nat := do
  return (← repeatWhile (tryAccept ["[", "]"]) (return ())).length

def typeArgumentsIfAny (r : Rules) : Parse Unit := do
  if ← sees ["<"] then r.typeArguments

/-- A **reference type**, known by the first name in it. -/
def referenceType (r : Rules) : Parse String := do
  let name ← identifier
  typeArgumentsIfAny r
  let _ ← repeatWhile (tryAccept ["."]) do
    let _ ← identifier
    typeArgumentsIfAny r
  return name

/-- A type that is not basic: a reference type or an array. -/
def argumentType (r : Rules) : Parse Unit := do
  if ← sees [TokenKind.basicType] then
    accept [TokenKind.basicType, "[", "]"]
  else
    let _ ← referenceType r
  let _ ← dimensions

/-- One type argument, which may be a wildcard. -/
def typeArgument (r : Rules) : Parse Unit := do
  if ← tryAccept ["?"] then
    if ← seesAny ["extends", "super"] then
      let _ ← next
      argumentType r
  else argumentType r

/-- Pieces between angle brackets. -/
def angled (work : Parse Unit) : Parse Unit := do
  accept ["<"]
  let _ ← separated "," work
  accept [">"]

def typeArguments (r : Rules) : Parse Unit := angled (typeArgument r)

def plainTypeArguments (r : Rules) : Parse Unit := angled (argumentType r)

def typeList (r : Rules) : Parse Unit := do
  let _ ← separated "," (argumentType r)

def typeParameter (r : Rules) : Parse Unit := do
  let _ ← identifier
  if ← tryAccept ["extends"] then
    let _ ← separated "&" (referenceType r)

def typeParameters (r : Rules) : Parse Unit := angled (typeParameter r)

/-- A **type**, known by the first name in it. -/
def typeName (r : Rules) : Parse String := do
  let name ← if ← sees [TokenKind.basicType] then acceptOne TokenKind.basicType
    else if ← sees [TokenKind.identifier] then referenceType r
    else malformed
  let _ ← dimensions
  return name

/-! ### Annotations and modifiers -/

/-- A value given to an element of an annotation by its name. -/
def elementPair (r : Rules) : Parse Unit := do
  let _ ← identifier
  accept ["="]
  r.elementValue

/-- What stands between the parentheses of an annotation. -/
def markElements (r : Rules) : Parse Unit := do
  if ← sees [TokenKind.identifier, "="] then
    let _ ← separated "," (elementPair r)
  else r.elementValue

/-- An **annotation**, known by its name. -/
def mark (r : Rules) : Parse String := do
  accept ["@"]
  let name ← qualifiedName
  if ← tryAccept ["("] then
    if !(← sees [")"]) then markElements r
    accept [")"]
  return name

/-- The values of an element that is an array, up to the closing brace. -/
def elementValues (r : Rules) : Parse Unit := do
  r.elementValue
  let _ ← repeatWhile (return !((← sees ["\x7d"]) || (← sees [",", "\x7d"]))) do
    accept [","]
    r.elementValue

/-- The **value of an element** of an annotation. -/
def elementValue (r : Rules) : Parse Unit := do
  if ← seesMark then
    let _ ← mark r
  else if ← tryAccept ["\x7b"] then
    if !(← tryAccept ["\x7d"]) then
      elementValues r
      let _ ← tryAccept [","]
      accept ["\x7d"]
  else r.conditional

def marks (r : Rules) : Parse (List String) := do
  let first ← mark r
  return first :: (← repeatWhile seesMark (mark r))

/-- A modifier or an annotation; only the name of an annotation is kept. -/
def modifier (r : Rules) : Parse (Option String) := do
  if ← sees [TokenKind.modifier] then
    let _ ← next
    return none
  else return some (← mark r)

/-- **Modifiers** and annotations, with the documentation comment before them. -/
def modifierList (r : Rules) : Parse (List String × Option String) := do
  let doc ← doc
  let found ← repeatWhile (return (← sees [TokenKind.modifier]) || (← seesMark)) (modifier r)
  return (found.filterMap id, doc)

def variableModifiers (r : Rules) : Parse Unit := do
  let _ ← repeatWhile (return (← sees ["final"]) || (← seesMark)) do
    if !(← tryAccept ["final"]) then
      let _ ← mark r

/-! ### Parameters and variables -/

/-- A parameter with its type and name, and whether it takes all further arguments. -/
def parameter (r : Rules) : Parse ((String × String) × Bool) := do
  variableModifiers r
  let type ← typeName r
  let isOpen ← tryAccept ["..."]
  let name ← identifier
  let _ ← dimensions
  return ((type, name), isOpen)

/-- The parameters after the opening parenthesis, at most `n`. One for all further arguments is the
last. -/
def parametersUpTo (r : Rules) : Nat → Parse (List (String × String))
  | 0 => malformed
  | n + 1 => do
    let (p, isOpen) ← parameter r
    if isOpen then return [p]
    else if ← tryAccept [","] then return p :: (← parametersUpTo r n)
    else return [p]

def parameters (r : Rules) : Parse (List (String × String)) := do
  accept ["("]
  if ← tryAccept [")"] then return []
  else
    let ps ← parametersUpTo r ((← remaining).length + 1)
    accept [")"]
    return ps

/-- The initializer of an array, at most `n` pieces of which are left. -/
def arrayPieces (r : Rules) : Nat → Parse Unit
  | 0 => malformed
  | n + 1 => do
    r.initializer
    if !(← sees ["\x7d"]) then accept [","]
    if !(← tryAccept ["\x7d"]) then arrayPieces r n

def arrayInitializer (r : Rules) : Parse Unit := do
  accept ["\x7b"]
  if ← tryAccept [","] then accept ["\x7d"]
  else if !(← tryAccept ["\x7d"]) then arrayPieces r ((← remaining).length + 1)

def initializer (r : Rules) : Parse Unit := do
  if ← sees ["\x7b"] then arrayInitializer r else r.expression

/-- What follows the name of a variable. -/
def variableRest (r : Rules) : Parse Unit := do
  let _ ← dimensions
  if ← tryAccept ["="] then initializer r

/-- The name of a variable and what follows it. -/
def declarator (r : Rules) : Parse Unit := do
  let _ ← identifier
  variableRest r

def furtherVariables (r : Rules) : Parse Unit := do
  let _ ← repeatWhile (tryAccept [","]) (declarator r)

/-! ### Expressions -/

def assignments : List String :=
  ["=", "+=", "-=", "*=", "/=", "&=", "|=", "^=", "%=", "<<=", ">>=", ">>>="]

/-- The operators between two operands, and the type test. -/
def binaryOperators : List String :=
  ["||", "&&", "|", "^", "&", "==", "!=", "<", ">", "<=", ">=", "<<", "+", "-", "*", "/", "%",
   "instanceof"]

def unaryOperators : List String := ["++", "--", "!", "~", "+", "-"]

def arguments (r : Rules) : Parse Unit := do
  accept ["("]
  if !(← tryAccept [")"]) then
    let _ ← separated "," r.expression
    accept [")"]

def parenthesized (r : Rules) : Parse Unit := do
  accept ["("]
  r.expression
  accept [")"]

/-- Statements in braces; gives their lines. -/
def block (r : Rules) : Parse (List Nat) := do
  accept ["\x7b"]
  let lines ← repeatUntil "\x7d" r.blockStatement
  accept ["\x7d"]
  return lines

/-- The body of a lambda expression with the arrow before it. -/
def lambdaBody (r : Rules) : Parse Unit := do
  accept ["->"]
  if ← sees ["\x7b"] then
    let _ ← block r
  else r.expression

def lambda (r : Rules) : Parse Unit := do
  if ← sees ["(", TokenKind.identifier, ","] then
    accept ["("]
    let _ ← separated "," identifier
    accept [")"]
  else
    let _ ← parameters r
  lambdaBody r

def cast (r : Rules) : Parse Unit := do
  accept ["("]
  let _ ← typeName r
  accept [")"]
  r.operand

def superRest (r : Rules) : Parse Unit := do
  if ← tryAccept ["."] then
    if ← sees ["<"] then plainTypeArguments r
    let _ ← identifier
    if ← sees ["("] then arguments r
  else arguments r

/-- The arguments of a new object and the body of its class, if it has one. -/
def creatorRest (r : Rules) : Parse Unit := do
  arguments r
  if ← sees ["\x7b"] then
    let _ ← r.classBody

/-- The dimensions of a new array, or empty brackets and an initializer. -/
def arrayRest (r : Rules) : Parse Unit := do
  if ← sees ["[", "]"] then
    let _ ← dimensions
    arrayInitializer r
  else
    let _ ← repeatWhile (return (← sees ["["]) && !(← sees ["[", "]"])) do
      accept ["["]
      r.expression
      accept ["]"]
    let _ ← dimensions

/-- Type arguments if they are next, which may be left out between the brackets. -/
def argumentsOrDiamond (written : Parse Unit) : Parse Unit := do
  if ← sees ["<"] then
    if !(← tryAccept ["<", ">"]) then written

/-- One part of the name of a class that is created. -/
def createdPart (r : Rules) : Parse Unit := do
  let _ ← identifier
  argumentsOrDiamond (typeArguments r)

/-- What follows `new`. -/
def creator (r : Rules) : Parse Unit := do
  if ← tryAccept [TokenKind.basicType] then arrayRest r
  else
    let isGeneric ← sees ["<"]
    if isGeneric then plainTypeArguments r
    let _ ← separated "." (createdPart r)
    if ← sees ["["] then
      if isGeneric then malformed
      arrayRest r
    else creatorRest r

/-- What follows `new` after an outer object. -/
def innerCreator (r : Rules) : Parse Unit := do
  let _ ← identifier
  argumentsOrDiamond (plainTypeArguments r)
  creatorRest r

/-- The call after explicit type arguments. -/
def genericCallRest (r : Rules) : Parse Unit := do
  if ← tryAccept ["super"] then superRest r
  else
    let _ ← identifier
    arguments r

def genericCall (r : Rules) : Parse Unit := do
  plainTypeArguments r
  genericCallRest r

/-- What follows a name with dots in an expression. -/
def nameRest (r : Rules) : Parse Unit := do
  if ← tryAccept ["[", "]"] then
    let _ ← dimensions
    accept [".", "class"]
  else if ← sees ["("] then arguments r
  else if ← tryAccept [".", "class"] then return ()
  else if ← tryAccept [".", "this"] then return ()
  else if ← sees [".", "<"] then
    accept ["."]
    genericCall r
  else if ← tryAccept [".", "new"] then innerCreator r
  else if ← sees [".", "super", "("] then
    accept [".", "super"]
    arguments r

/-- An **operand** without operators and selectors. -/
def primary (r : Rules) : Parse Unit := do
  if ← tryAccept [TokenKind.literal] then return ()
  else if ← sees ["("] then parenthesized r
  else if ← tryAccept ["this"] then
    if ← sees ["("] then arguments r
  else if ← sees ["super", "::"] then accept ["super"]
  else if ← tryAccept ["super"] then superRest r
  else if ← tryAccept ["new"] then creator r
  else if ← sees ["<"] then
    plainTypeArguments r
    if ← tryAccept ["this"] then arguments r else genericCallRest r
  else if ← tryAccept [TokenKind.identifier] then
    let _ ← repeatWhile (tryAccept [".", TokenKind.identifier]) (return ())
    nameRest r
  else if ← tryAccept [TokenKind.basicType] then
    let _ ← dimensions
    accept [".", "class"]
  else if ← tryAccept ["void"] then accept [".", "class"]
  else malformed

/-- A selector after an operand: an index, a member, or an object made within it. -/
def selector (r : Rules) : Parse Unit := do
  if ← tryAccept ["["] then
    r.expression
    accept ["]"]
  else
    accept ["."]
    if ← tryAccept [TokenKind.identifier] then
      if ← sees ["("] then arguments r
    else if ← sees ["super", "::"] then accept ["super"]
    else if ← sees ["<"] then genericCall r
    else if ← tryAccept ["this"] then return ()
    else if ← tryAccept ["super"] then superRest r
    else if ← tryAccept ["new"] then innerCreator r
    else malformed

/-- Whether a selector is next. The tokens must not end here. -/
def seesSelector : Parse Bool
  | t :: rest => .ok (t.text == "[" || t.text == ".", ⟨t :: rest, List.suffix_rfl⟩)
  | [] => .error .brokenOff

/-- An operand with its selectors and the operators after it. -/
def selected (r : Rules) : Parse Unit := do
  primary r
  let _ ← repeatUpTo seesSelector (selector r) ((← remaining).length + 1)
  let _ ← repeatWhile (seesAny ["++", "--"]) next

/-- An **operand** with the operators before it. A lambda expression comes before a cast. -/
def operand (r : Rules) : Parse Unit := do
  let _ ← repeatWhile (seesAny unaryOperators) next
  if ← sees ["("] then
    if (← attempt (lambda r)).isSome then return ()
    else if (← attempt (cast r)).isSome then return ()
    else selected r
  else selected r

def binaryOperator : Parse Unit := do
  if (← acceptOne TokenKind.operator) == ">" then
    if ← tryAccept [">"] then
      let _ ← tryAccept [">"]

/-- Operands with operators between them. -/
def operation (r : Rules) : Parse Unit := do
  operand r
  let _ ← repeatWhile (seesAny binaryOperators) do
    if ← tryAccept ["instanceof"] then
      let _ ← typeName r
    else
      binaryOperator
      operand r

def referenceRest (r : Rules) : Parse Unit := do
  if ← sees ["<"] then plainTypeArguments r
  if !(← tryAccept ["new"]) then r.expression

/-- A **conditional** expression, a lambda expression or a method reference. -/
def conditional (r : Rules) : Parse Unit := do
  operation r
  if ← tryAccept ["?"] then
    r.expression
    accept [":"]
    r.conditional
  else if ← sees ["->"] then lambdaBody r
  else if ← tryAccept ["::"] then referenceRest r

/-- An **expression**, which may be an assignment. -/
def expression (r : Rules) : Parse Unit := do
  conditional r
  if ← seesAny assignments then
    let _ ← next
    r.expression

end DocTree.Java
