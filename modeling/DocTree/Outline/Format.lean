import DocTree.Outline.Preorder

/-!
# Order of fields

An outline is shown with the fields of its nodes in a given order, and only with those. A node
without children has no field `nodes`.
-/

namespace DocTree.Outline

/-- The fields named by `order`, **in that order**. -/
def reorder (order : List String) (fields : Fields) : Fields :=
  order.foldl (fun acc k =>
    match Fields.get? fields k with
    | some v => Fields.set acc k v
    | none => acc) []

/-- The keys of an order that is given as a value. Only texts can be keys. -/
def orderKeys (order : Value) : Except Failure (List String) := do
  let keys ← order.elements
  keys.foldrM (fun key acc =>
    match key with
    | .str k => .ok (k :: acc)
    | .list _ | .object _ => .error .wrongKind
    | _ => .ok acc) []

/-- One element of a value that is reordered although it is not an object. -/
def reorderElement (v : Value) (acc : Fields) (key : Value) : Except Failure Fields := do
  match v, key with
  | .str s, .str k => if Text.contains s k then .error .wrongKind else .ok acc
  | .str _, _ => .error .wrongKind
  | .list items, key =>
    if items.any (Value.same key) then
      let x ← v.itemAt key
      return Fields.set acc key.display x
    else return acc
  | _, _ => .error .wrongKind

/-- A value with its fields in the order that another value gives. An empty order changes
nothing. -/
def reorderValue (v order : Value) : Except Failure Value :=
  if order.isTruthy then
    match v with
    | .object fields => do return .object (reorder (← orderKeys order) fields)
    | v => do return .object (← (← order.elements).foldlM (reorderElement v) [])
  else .ok v

/-! ### Formatting -/

/-- The fields of a node once its children are formatted: an empty field `nodes` goes. -/
def settle (fields : Fields) : Fields :=
  if ((Fields.get? fields "nodes").getD .null).isTruthy then fields
  else Fields.erase fields "nodes"

mutual

/-- The outline with the fields of its nodes **in order**. -/
def formatWith (order : Except Failure (List String)) : Value → Except Failure Value
  | .object fields => do
    let fields ← formatFields order fields
    return .object (reorder (← order) (settle fields))
  | .list items => do return .list (← formatList order items)
  | v => .ok v

def formatList (order : Except Failure (List String)) : List Value → Except Failure (List Value)
  | [] => .ok []
  | v :: rest => do
    let v ← formatWith order v
    return v :: (← formatList order rest)

def formatFields (order : Except Failure (List String)) :
    List (String × Value) → Except Failure (List (String × Value))
  | [] => .ok []
  | (k, v) :: rest => do
    if k = "nodes" then return (k, ← formatWith order v) :: rest
    else return (k, v) :: (← formatFields order rest)

end

/-- The outline **formatted** with the given order. An empty order changes nothing. -/
def format (outline order : Value) : Except Failure Value :=
  if order.isTruthy then formatWith (orderKeys order) outline else .ok outline

mutual

/-- The nodes as formatting leaves them behind: all their fields, with formatted children. -/
def leftWith (order : Except Failure (List String)) : Value → Except Failure Value
  | .object fields => do return .object (settle (← formatFields order fields))
  | .list items => do return .list (← leftList order items)
  | v => .ok v

def leftList (order : Except Failure (List String)) : List Value → Except Failure (List Value)
  | [] => .ok []
  | v :: rest => do
    let v ← leftWith order v
    return v :: (← leftList order rest)

end

/-- The outline that was given to `format`, as it is afterwards. -/
def formatted (outline order : Value) : Except Failure Value :=
  if order.isTruthy then leftWith (orderKeys order) outline else .ok outline

end DocTree.Outline
