/-!
# Forests from parent links

A list in which every element but the roots names an earlier one as its parent is put together from
the end: when an element is reached, all elements below it are complete.
-/

namespace DocTree.Forest

/-- The last position in a list at which a property holds. -/
def lastIndex? (p : α → Bool) : List α → Option Nat
  | [] => none
  | a :: rest =>
    match lastIndex? p rest with
    | some i => some (i + 1)
    | none => if p a then some 0 else none

/-- The elements from position `i` on, with their children, whose parents are not among them. -/
def assemble (make : α → List β → β) (i : Nat) : List (Option Nat × α) → List (Option Nat × β)
  | [] => []
  | (parent, a) :: rest =>
    let open' := assemble make (i + 1) rest
    let children := (open'.filter fun e => e.1 = some i).map Prod.snd
    (parent, make a children) :: open'.filter fun e => e.1 ≠ some i

/-- The **roots** of the forest that the links describe. -/
def ofLinks (make : α → List β → β) (elements : List (Option Nat × α)) : List β :=
  (assemble make 0 elements).map Prod.snd

end DocTree.Forest
