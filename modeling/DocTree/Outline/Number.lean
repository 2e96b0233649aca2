import DocTree.Outline.Preorder
import DocTree.Value.Arith

/-!
# Node identifiers

The nodes of an outline are numbered in document order. An identifier is the decimal text of
the number, filled up with zeros to four characters.
-/

namespace DocTree.Outline

/-- The **identifier** of a number. -/
def identifier (n : Value) : String := Decimal.zeroFill 4 n.display

mutual

/-- Gives every node its **identifier** in document order, from `n` on, and tells the next
number. -/
def number : Value → Value → Except Failure (Value × Value)
  | .object fields, n => do
    let next ← n.add (.int 1)
    let (fields', next) ← numberFields fields next
    return (.object (Fields.set fields' "node_id" (.str (identifier n))), next)
  | .list items, n => do
    let (items, next) ← numberList items n
    return (.list items, next)
  | v, n => .ok (v, n)

def numberList : List Value → Value → Except Failure (List Value × Value)
  | [], n => .ok ([], n)
  | v :: rest, n => do
    let (v, n) ← number v n
    let (rest, n) ← numberList rest n
    return (v :: rest, n)

def numberFields : List (String × Value) → Value → Except Failure (List (String × Value) × Value)
  | [], n => .ok ([], n)
  | (k, v) :: rest, n => do
    if holdsNodes k then
      let (v, n) ← number v n
      let (rest, n) ← numberFields rest n
      return ((k, v) :: rest, n)
    else
      let (rest, n) ← numberFields rest n
      return ((k, v) :: rest, n)

end

end DocTree.Outline
