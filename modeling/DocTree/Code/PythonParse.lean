import DocTree.Code.PythonToken
import DocTree.Text.Compatible

/-!
# Reading tokens

Work that consumes tokens from the left and may fail. What fails consumes nothing, so that
another way can be tried from the same place.
-/

namespace DocTree.Python

/-- Work that consumes **tokens** and may fail. -/
abbrev Parse := StateT (List Token) Option

namespace Parse

def peek : Parse Token := do
  match ← get with
  | t :: _ => return t
  | [] => failure

def peekSecond : Parse (Option Token) := do
  match ← get with
  | _ :: t :: _ => return some t
  | _ => return none

def skip : Parse Unit := modify List.tail

def sees (text : String) : Parse Bool := return (← peek).is text

def seesAny (texts : List String) : Parse Bool := do
  let t ← peek
  return texts.any t.is

def seesKind (kind : TokenKind) : Parse Bool := return (← peek).kind == kind

def seesSecond (text : String) : Parse Bool := do
  match ← peekSecond with
  | some t => return t.is text
  | none => return false

def seesName (text : String) : Parse Bool := do
  let t ← peek
  return t.kind == .name && t.text == text

def accept (text : String) : Parse Bool := do
  if ← sees text then
    skip
    return true
  else return false

def expect (text : String) : Parse Unit := do
  if ← sees text then skip else failure

def expectKind (kind : TokenKind) : Parse Unit := do
  if ← seesKind kind then skip else failure

/-- Consumes a name and gives its compatible form. -/
def identifier : Parse String := do
  let t ← peek
  if t.kind == .name then
    skip
    return Text.compatible t.text
  else failure

def require (condition : Bool) : Parse Unit := if condition then return () else failure

/-- The result of some work, or nothing if it fails. -/
def attempt (work : Parse α) : Parse (Option α) := fun tokens =>
  match work tokens with
  | some (a, rest) => some (some a, rest)
  | none => some (none, tokens)

/-- Repeats some work at most `n` times as long as `more` says so. -/
def repeatUpTo (more : Parse Bool) (work : Parse α) : Nat → Parse (List α)
  | 0 => return []
  | n + 1 => do
    if ← more then
      let a ← work
      return a :: (← repeatUpTo more work n)
    else return []

def repeatWhile (more : Parse Bool) (work : Parse α) : Parse (List α) := do
  repeatUpTo more work (← get).length

/-- One or more pieces **separated** by commas, the last of which is not followed by one. -/
def separated (work : Parse α) : Parse (List α) := do
  let first ← work
  return first :: (← repeatWhile (accept ",") work)

/-- Pieces separated by commas up to a closing token, which stays; a comma may come before
it. -/
def listUntil (closing : Parse Bool) (work : Parse α) : Parse (List α) := do
  if ← closing then return []
  else
    let first ← work
    let rest ← repeatWhile (do
      if ← accept "," then return !(← closing) else return false) work
    return first :: rest

/-- The line on which the next token begins. -/
def line : Parse Nat := return (← peek).line

/-- The line on which the last visible token ended. -/
def lastLine : Parse Nat := return (← peek).before

end Parse

end DocTree.Python
