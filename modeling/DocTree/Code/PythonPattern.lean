import DocTree.Code.PythonExpr

/-!
# Patterns of Python

The grammar of the patterns of match statements. Nothing of a pattern is kept; it is only
checked that it is one.
-/

namespace DocTree.Python.Pattern

open Parse Grammar

/-- Whether the next token keeps a name from being captured. -/
def seesNoCapture : Parse Bool := seesAny [".", "(", "="]

/-- A name that captures a value. -/
def capture : Parse Unit := do
  require (!(← seesName "_"))
  let _ ← identifier
  require (!(← seesNoCapture))

/-- A number that is not imaginary, or one that is. -/
def part (imaginary : Bool) : Parse Unit := do
  match ← number with
  | .imaginary _ => require imaginary
  | _ => require (!imaginary)

/-- A number with an optional sign, or a sum of a real and an imaginary number. -/
def signedNumber : Parse Unit := do
  let _ ← accept "-"
  let first ← number
  if ← seesAny ["+", "-"] then
    skip
    match first with
    | .imaginary _ => failure
    | _ => part true

def seesLiteral : Parse Bool := do
  return (← seesAny ["-", "None", "True", "False"]) || (← seesKind .number) ||
    (← seesKind .string)

def literal (rules : Rules) : Parse Unit := do
  if ← seesKind .string then
    let _ ← strings rules
  else if ← seesAny ["None", "True", "False"] then skip
  else signedNumber

/-- The names after points, and how many there are. -/
def moreNames : Parse Nat := do
  let names ← repeatWhile (accept ".") identifier
  return names.length

/-- Patterns after the first comma of a sequence. -/
def moreItems (closing : Parse Bool) (item : Parse Unit) : Parse Unit := do
  let _ ← listUntil closing item

/-- An item of a sequence: a pattern, or, as it tells, a name for all other items. -/
def item (pattern : Parse Unit) : Parse Bool := do
  if ← accept "*" then
    if ← seesName "_" then skip else capture
    return true
  else
    pattern
    return false

/-- A sequence without its brackets. A single pattern without a comma is a pattern by itself. -/
def sequence (closing : Parse Bool) (pattern : Parse Unit) : Parse Unit := do
  let starred ← item pattern
  if ← accept "," then moreItems closing (discard (item pattern))
  else require (!starred)

def mappingEntry (rules : Rules) (pattern : Parse Unit) : Parse Unit := do
  if ← seesLiteral then literal rules
  else
    let _ ← identifier
    let n ← moreNames
    require (n != 0)
  expect ":"
  pattern

/-- The entries of a mapping, at most `n`; what is left of the mapping comes last. -/
def mapping (rules : Rules) (pattern : Parse Unit) : Nat → Parse Unit
  | 0 => failure
  | n + 1 => do
    if ← sees "\x7d" then return ()
    else if ← accept "**" then
      capture
      let _ ← accept ","
      require (← sees "\x7d")
    else
      mappingEntry rules pattern
      if ← accept "," then mapping rules pattern n else require (← sees "\x7d")

/-- The arguments of a class pattern, at most `n`; those with names come last. -/
def classArguments (pattern : Parse Unit) : Nat → (named : Bool) → Parse Unit
  | 0, _ => failure
  | n + 1, named => do
    if ← sees ")" then return ()
    else
      let keyword := (← seesKind .name) && (← seesSecond "=")
      require (keyword || !named)
      if keyword then
        skip
        skip
      pattern
      if ← accept "," then classArguments pattern n keyword else require (← sees ")")

def nameFirst (pattern : Parse Unit) : Parse Unit := do
  if ← seesName "_" then skip
  else
    let _ ← identifier
    let n ← moreNames
    if ← accept "(" then
      classArguments pattern ((← get).length + 1) false
      expect ")"
    else if n == 0 then require (!(← seesNoCapture))
    else require (!(← seesNoCapture))

/-- A pattern that is not made of alternatives. -/
def closed (rules : Rules) (pattern : Parse Unit) : Parse Unit := do
  if ← seesLiteral then literal rules
  else if ← seesKind .name then nameFirst pattern
  else if ← accept "(" then
    if ← accept ")" then return ()
    else
      sequence (sees ")") pattern
      expect ")"
  else if ← accept "[" then
    let _ ← listUntil (sees "]") (item pattern)
    expect "]"
  else if ← accept "\x7b" then
    mapping rules pattern ((← get).length + 1)
    expect "\x7d"
  else failure

def withAlternatives (rules : Rules) (pattern : Parse Unit) : Parse Unit := do
  closed rules pattern
  let _ ← repeatWhile (accept "|") (closed rules pattern)
  if ← accept "as" then capture

/-- A **pattern**, read with a step budget. -/
def parse (rules : Rules) : (fuel : Nat) → Parse Unit
  | 0 => failure
  | fuel + 1 => withAlternatives rules (parse rules fuel)

/-- The pattern of a **case**. -/
def top (rules : Rules) (fuel : Nat) : Parse Unit :=
  sequence (seesAny [":", "if"]) (parse rules fuel)

end DocTree.Python.Pattern
