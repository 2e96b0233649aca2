import DocTree.Value.Access

/-!
# Outlines in document order

An object is a **node**, a list is a sequence of outlines, and the nodes below a node stand in its
fields. Three readings differ in the fields they descend into: all nodes below `nodes`, the nodes
below every key that contains `nodes`, and the leaves among the latter.
-/

namespace DocTree.Outline

/-- Whether a field holds nodes below a node: its key contains `nodes`. -/
def holdsNodes (key : String) : Bool := Text.contains key "nodes"

/-- The nodes of a part that has to be an outline. -/
def required (found : Option (List Value)) : Except Failure (List Value) :=
  match found with
  | some nodes => .ok nodes
  | none => .error .wrongKind

/-! ### All nodes -/

mutual

/-- The **nodes** of an outline in document order. -/
def nodes : Value → Except Failure (Option (List Value))
  | .object fields => do
    let below ← nodesBelow fields
    return some (.object fields :: below)
  | .list items => do
    return some (← nodesOfList items)
  | _ => .ok none

def nodesOfList : List Value → Except Failure (List Value)
  | [] => .ok []
  | v :: rest => do
    let here ← required (← nodes v)
    return here ++ (← nodesOfList rest)

/-- The nodes below the field `nodes`, if there is one. -/
def nodesBelow : List (String × Value) → Except Failure (List Value)
  | [] => .ok []
  | (k, v) :: rest => do
    if k = "nodes" then required (← nodes v) else nodesBelow rest

end

/-! ### Nodes without their children -/

mutual

/-- The nodes of an outline **without their children**, in document order. -/
def bareNodes : Value → Except Failure (Option (List Value))
  | .object fields => do
    let below ← bareNodesBelow fields
    return some (.object (Fields.erase fields "nodes") :: below)
  | .list items => do
    return some (← bareNodesOfList items)
  | _ => .ok none

def bareNodesOfList : List Value → Except Failure (List Value)
  | [] => .ok []
  | v :: rest => do
    let here ← required (← bareNodes v)
    return here ++ (← bareNodesOfList rest)

/-- The nodes below every field that holds nodes, without their children. -/
def bareNodesBelow : List (String × Value) → Except Failure (List Value)
  | [] => .ok []
  | (k, v) :: rest => do
    if holdsNodes k then
      let here ← required (← bareNodes v)
      return here ++ (← bareNodesBelow rest)
    else bareNodesBelow rest

end

/-! ### Leaves -/

mutual

/-- The **leaves** of an outline: the nodes whose field `nodes` is there and empty, without it. -/
def leaves : Value → Except Failure (Option (List Value))
  | .object fields => do
    let children ← (Value.object fields).field "nodes"
    if children.isTruthy then
      return some (← leavesBelow fields)
    else
      return some [.object (Fields.erase fields "nodes")]
  | .list items => do
    return some (← leavesOfList items)
  | _ => .ok none

def leavesOfList : List Value → Except Failure (List Value)
  | [] => .ok []
  | v :: rest => do
    let here ← required (← leaves v)
    return here ++ (← leavesOfList rest)

def leavesBelow : List (String × Value) → Except Failure (List Value)
  | [] => .ok []
  | (k, v) :: rest => do
    if holdsNodes k then
      let here ← required (← leaves v)
      return here ++ (← leavesBelow rest)
    else leavesBelow rest

end

/-! ### Nodes by identifier -/

/-- The first of two findings that is a node with fields. -/
def orElse (found : Option Fields) (next : Option Fields) : Option Fields :=
  match found with
  | some fields => if fields.isEmpty then next else some fields
  | none => next

mutual

/-- The first node with an identifier. -/
def find? (id : Value) : Value → Option Fields
  | .object fields =>
    if Value.same ((Fields.get? fields "node_id").getD .null) id then some fields
    else findBelow? id fields
  | .list items => findInList? id items
  | _ => none

def findInList? (id : Value) : List Value → Option Fields
  | [] => none
  | v :: rest => orElse (find? id v) (findInList? id rest)

def findBelow? (id : Value) : List (String × Value) → Option Fields
  | [] => none
  | (k, v) :: rest =>
    if holdsNodes k then orElse (find? id v) (findBelow? id rest) else findBelow? id rest

end

/-- Whether there is a node with the identifier and it has **no children**. -/
def isLeaf (outline id : Value) : Bool :=
  match find? id outline with
  | some fields => !fields.isEmpty && !((Fields.get? fields "nodes").getD .null).isTruthy
  | none => false

def last (outline : Value) : Except Failure Value := outline.item (-1)

end DocTree.Outline
