import DocTree.Forest
import DocTree.Outline.Number

/-!
# Trees of sections

Sections are nested by their levels: the parent of a section is the nearest one before it with a
smaller level.
-/

namespace DocTree.Markdown

/-! ### Nesting -/

/-- The open sections, innermost first, after those are closed that a section of a level ends. -/
def closeFor (level : Value) : List (Nat × Value) → Except Failure (List (Nat × Value))
  | [] => .ok []
  | top :: rest => do
    if ← Value.atMost level top.2 then closeFor level rest else return top :: rest

/-- The fields of a section in a tree, in which it is numbered from one on. -/
def treeFields (i : Nat) (s : Value) : Except Failure Fields := do
  return [("title", ← s.field "title"), ("node_id", .str (Outline.identifier (.ofNat (i + 1)))),
    ("text", ← s.field "text"), ("line_num", ← s.field "line_num")]

/-- Sections from place `i` on with the **places of their parents**. -/
def linked (i : Nat) (isOpen : List (Nat × Value)) :
    List Value → Except Failure (List (Option Nat × Fields))
  | [] => .ok []
  | s :: rest => do
    let level ← s.field "level"
    let fields ← treeFields i s
    let above ← closeFor level isOpen
    return (above.head?.map Prod.fst, fields) :: (← linked (i + 1) ((i, level) :: above) rest)

def treeNode (fields : Fields) (children : List Value) : Value :=
  .object (fields ++ [("nodes", .list children)])

def treeOf (sections : List Value) : Except Failure (List Value) := do
  return Forest.ofLinks treeNode (← linked 0 [] sections)

/-- The tree of sections that are given as a value. What counts as nothing has no sections. -/
def treeOfValue (sections : Value) : Except Failure (List Value) := do
  treeOf (← if sections.isTruthy then sections.elements else pure [])

/-! ### Empty children -/

/-- The fields that every node of a tree has. -/
def ownKeys : List String := ["title", "node_id", "text", "line_num"]

mutual

/-- A node **without empty children**. -/
def dropEmpty : Value → Except Failure Value
  | .object fields => do
    let own ← ownKeys.mapM fun key => do return (key, ← (Value.object fields).field key)
    return .object (own ++ (← dropEmptyBelow fields))
  | _ => .error .wrongKind

def dropEmptyList : List Value → Except Failure (List Value)
  | [] => .ok []
  | v :: rest => do
    let v ← dropEmpty v
    return v :: (← dropEmptyList rest)

/-- The field `nodes`, which has to be there, if it is not empty. -/
def dropEmptyBelow : List (String × Value) → Except Failure (List (String × Value))
  | [] => .error (.missingKey (.str "nodes"))
  | (k, v) :: rest =>
    if k = "nodes" then
      if v.isTruthy then do return [("nodes", .list (← dropEmptyElements v))] else .ok []
    else dropEmptyBelow rest

def dropEmptyElements : Value → Except Failure (List Value)
  | .list items => dropEmptyList items
  | _ => .error .wrongKind

end

end DocTree.Markdown
