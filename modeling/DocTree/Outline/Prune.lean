import DocTree.Outline.Preorder

/-!
# Removing fields

Ways of dropping fields differ in the fields they drop and in those they descend into: only `nodes`,
every field whose key contains `nodes`, or every field.
-/

namespace DocTree.Outline

mutual

/-- Drops fields from every node that is reached through lists and the field `nodes`. -/
def dropAlong (keys : List String) : Value → Value
  | .object fields =>
    .object ((dropAlongFields keys fields).filter fun f => !keys.contains f.1)
  | .list items => .list (dropAlongList keys items)
  | v => v

def dropAlongList (keys : List String) : List Value → List Value
  | [] => []
  | v :: rest => dropAlong keys v :: dropAlongList keys rest

def dropAlongFields (keys : List String) : List (String × Value) → List (String × Value)
  | [] => []
  | (k, v) :: rest =>
    (k, if k = "nodes" then dropAlong keys v else v) :: dropAlongFields keys rest

end

def dropPages (outline : Value) : Value :=
  dropAlong ["page_number", "start_index", "end_index"] outline

def dropTexts (outline : Value) : Value := dropAlong ["text"] outline

mutual

/-- Drops `page_number` from every node below every field that holds nodes. -/
def dropPageNumbers : Value → Value
  | .object fields => .object ((dropPageNumbersFields fields).filter fun f => f.1 ≠ "page_number")
  | .list items => .list (dropPageNumbersList items)
  | v => v

def dropPageNumbersList : List Value → List Value
  | [] => []
  | v :: rest => dropPageNumbers v :: dropPageNumbersList rest

def dropPageNumbersFields : List (String × Value) → List (String × Value)
  | [] => []
  | (k, v) :: rest =>
    (k, if holdsNodes k then dropPageNumbers v else v) :: dropPageNumbersFields rest

end

mutual

/-- Drops fields from **all objects**. They are given by a list of keys, by those of an object, or
by a text whose parts they are. -/
def removeFields (keys : Value) : Value → Except Failure Value
  | .object fields => do return .object (← removeFieldsFields keys fields)
  | .list items => do return .list (← removeFieldsList keys items)
  | v => .ok v

def removeFieldsList (keys : Value) : List Value → Except Failure (List Value)
  | [] => .ok []
  | v :: rest => do
    let v ← removeFields keys v
    return v :: (← removeFieldsList keys rest)

/-- Drops fields from a list of fields and from the objects in those that stay. -/
def removeFieldsFields (keys : Value) :
    List (String × Value) → Except Failure (List (String × Value))
  | [] => .ok []
  | (k, v) :: rest => do
    if ← keys.mentions k then removeFieldsFields keys rest
    else
      let v ← removeFields keys v
      return (k, v) :: (← removeFieldsFields keys rest)

end

def describingKeys : List String := ["title", "node_id", "summary", "prefix_summary"]

/-- The given fields of an object, in the given order. -/
def pick (keys : List String) (fields : Fields) : Fields :=
  keys.filterMap fun k => (Fields.get? fields k).map fun v => (k, v)

mutual

/-- The outline **for a description**: every node with its describing fields and, if there are
any, its children. -/
def forDescription : Value → Value
  | .object fields => .object (pick describingKeys fields ++ childrenForDescription fields)
  | .list items => .list (forDescriptionList items)
  | v => v

def forDescriptionList : List Value → List Value
  | [] => []
  | v :: rest => forDescription v :: forDescriptionList rest

/-- The field `nodes` for a description, if it is not empty. -/
def childrenForDescription : List (String × Value) → List (String × Value)
  | [] => []
  | (k, v) :: rest =>
    if k = "nodes" then (if v.isTruthy then [("nodes", forDescription v)] else [])
    else childrenForDescription rest

end

end DocTree.Outline
