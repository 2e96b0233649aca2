import DocTree.Value.Access

/-!
# Rebuilding outlines

First the children of a node are rebuilt, then the node itself. What happens at a node and at other
values are parameters.
-/

namespace DocTree.Outline

/-- What happens to the fields of a node whose children are rebuilt, and to a value that is not a
node. Lists of nodes may count as outlines, and a missing field `nodes` may be passed over. -/
structure Rebuilder where
  node : Fields → Except Failure Fields
  other : Value → Except Failure Value
  throughLists : Bool
  passEmpty : Bool

mutual

/-- An outline **rebuilt**. -/
def rebuild (r : Rebuilder) : Value → Except Failure Value
  | .object fields => do
    let fields ← rebuildBelow r fields
    return .object (← r.node fields)
  | .list items => do
    if r.throughLists then return .list (← rebuildList r items) else r.other (.list items)
  | v => r.other v

def rebuildList (r : Rebuilder) : List Value → Except Failure (List Value)
  | [] => .ok []
  | v :: rest => do
    let v ← rebuild r v
    return v :: (← rebuildList r rest)

/-- The field `nodes` rebuilt: its elements, whatever they are, become a list. -/
def rebuildBelow (r : Rebuilder) : List (String × Value) → Except Failure (List (String × Value))
  | [] => .ok []
  | (k, v) :: rest => do
    if k = "nodes" then
      if r.passEmpty && !v.isTruthy then return (k, v) :: rest
      else return (k, .list (← rebuildElements r v)) :: rest
    else return (k, v) :: (← rebuildBelow r rest)

def rebuildElements (r : Rebuilder) : Value → Except Failure (List Value)
  | .list items => rebuildList r items
  | v => do (← v.elements).mapM r.other

end

/-- An outline **without a field** in its nodes. -/
def dropField (key : String) (outline : Value) : Except Failure Value :=
  rebuild
    { node := fun fields => .ok (Fields.erase fields key)
      other := .ok
      throughLists := true
      passEmpty := false }
    outline

/-- A value that has no children, because it is not a node. -/
def childless (v : Value) : Except Failure Value := do
  if ← v.mentions "nodes" then throw .wrongKind else return v

def withoutEmptyNodes (fields : Fields) : Fields :=
  match Fields.get? fields "nodes" with
  | some v => if v.isTruthy then fields else Fields.erase fields "nodes"
  | none => fields

/-- An outline **without empty fields** `nodes`. -/
def dropEmptyNodes (outline : Value) : Except Failure Value :=
  rebuild
    { node := fun fields => .ok (withoutEmptyNodes fields)
      other := childless
      throughLists := false
      passEmpty := false }
    outline

end DocTree.Outline
