import DocTree.Outline.Merge
import DocTree.Outline.Rebuild
import DocTree.Tokens

/-!
# Thinning source trees

A class or function whose text is short, with those of all nodes below it, takes over the texts of
its children. Children are thinned before their parents.
-/

namespace DocTree.Code

/-! ### Tokens -/

mutual

/-- The **tokens** of a node and of all nodes below it. -/
def totalTokens (count : Value → Except Failure Nat) : Value → Except Failure Nat
  | .object fields => do
    let own ← count ((Fields.get? fields "text").getD (.str ""))
    return own + (← totalBelow count fields)
  | _ => .error .noOperation

def totalList (count : Value → Except Failure Nat) : List Value → Except Failure Nat
  | [] => .ok 0
  | v :: rest => do
    let here ← totalTokens count v
    return here + (← totalList count rest)

def totalBelow (count : Value → Except Failure Nat) :
    List (String × Value) → Except Failure Nat
  | [] => .ok 0
  | (k, v) :: rest => if k = "nodes" then totalElements count v else totalBelow count rest

def totalElements (count : Value → Except Failure Nat) : Value → Except Failure Nat
  | .list items => totalList count items
  | v => do if (← v.elements).isEmpty then return 0 else throw .noOperation

end

/-! ### Merging -/

/-- A text with that of one more child, which begins on a line of its own. -/
def appendChild (text child : Value) : Except Failure Value := do
  let more ← child.lookupOr "text" (.str "")
  if more.isTruthy then Outline.appendText "\n" text more else return text

/-- The text of a node with **those of its children**. -/
def mergedText (fields : Fields) : Except Failure Value := do
  let children ← ((Fields.get? fields "nodes").getD (.list [])).elements
  children.foldlM appendChild ((Fields.get? fields "text").getD (.str ""))

/-- Whether a node may take over its children: it is a class or a function. -/
def isMergeable (fields : Fields) : Bool :=
  match Fields.get? fields "type" with
  | some (.str type) => ["class", "function", "method"].contains type
  | _ => false

/-- The fields of a node, whose children are thinned already, after thinning. -/
def thinNode (count : Value → Except Failure Nat) (threshold : Value) (fields : Fields) :
    Except Failure Fields := do
  if ((Fields.get? fields "nodes").getD .null).isTruthy then
    let total ← totalTokens count (.object fields)
    if (← Value.less (.ofNat total) threshold) && isMergeable fields then
      return Fields.erase (Fields.set fields "text" (← mergedText fields)) "nodes"
    else return fields
  else return fields

/-- A **thinned** tree: every class or function with few tokens has taken over the texts of its
children. -/
def thin (count : Value → Except Failure Nat) (threshold : Value) (tree : Value) :
    Except Failure Value :=
  Outline.rebuild
    { node := thinNode count threshold
      other := Outline.childless
      throughLists := false
      passEmpty := true }
    tree

/-! ### Files in a tree -/

mutual

/-- Whether there is a **file** in a tree. -/
def hasFiles : Value → Except Failure Bool
  | .object fields =>
    if ((Fields.get? fields "type").getD .null).isStr "file" then .ok true
    else hasFilesBelow fields
  | _ => .error .noOperation

def hasFilesList : List Value → Except Failure Bool
  | [] => .ok false
  | v :: rest => do
    if ← hasFiles v then return true else hasFilesList rest

def hasFilesBelow : List (String × Value) → Except Failure Bool
  | [] => .ok false
  | (k, v) :: rest => if k = "nodes" then hasFilesElements v else hasFilesBelow rest

def hasFilesElements : Value → Except Failure Bool
  | .list items => hasFilesList items
  | v => do if (← v.elements).isEmpty then return false else throw .noOperation

end

end DocTree.Code
