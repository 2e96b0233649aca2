import DocTree.Page
import DocTree.Outline.Preorder

/-!
# Texts of nodes

A node that knows its first and its last page gets the text of these pages.
-/

namespace DocTree.Outline

def pagesOf (fields : Fields) : Value × Value :=
  ((Fields.get? fields "start_index").getD .null, (Fields.get? fields "end_index").getD .null)

mutual

/-- Gives every node the **text** of its pages. -/
def addTexts (textOf : Value → Value → Except Failure String) : Value → Except Failure Value
  | .object fields => do
    let (first, last) := pagesOf fields
    let text ← textOf first last
    let fields ← addTextsBelow textOf fields
    return .object (Fields.set fields "text" (.str text))
  | .list items => do return .list (← addTextsList textOf items)
  | v => .ok v

def addTextsList (textOf : Value → Value → Except Failure String) :
    List Value → Except Failure (List Value)
  | [] => .ok []
  | v :: rest => do
    let v ← addTexts textOf v
    return v :: (← addTextsList textOf rest)

def addTextsBelow (textOf : Value → Value → Except Failure String) :
    List (String × Value) → Except Failure (List (String × Value))
  | [] => .ok []
  | (k, v) :: rest => do
    if k = "nodes" then return (k, ← addTexts textOf v) :: rest
    else return (k, v) :: (← addTextsBelow textOf rest)

end

end DocTree.Outline
