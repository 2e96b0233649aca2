import DocTree.Value.Arith

/-!
# Printed and physical pages

Printed page numbers differ from the physical ones by an offset. Entries that were found on physical
pages vote for it, and it then gives the other entries their pages.
-/

namespace DocTree.Contents

/-! ### Votes -/

/-- The pair of two entries with equal titles, if the second names a physical page at or after
`start`. -/
def pair? (start printed physical : Value) : Except Failure (Option Value) := do
  let title ← physical.lookup "title"
  if title.same (← printed.lookup "title") then
    let page ← physical.lookup "physical_index"
    if page.isNull then return none
    let number ← page.toInteger
    if ← start.atMost (.int number) then
      return some (.object [("title", title), ("page", ← printed.lookup "page"),
        ("physical_index", page)])
    else return none
  else return none

/-- The **pairs** of printed and physical pages of equal titles. -/
def pairs (printed physical start : Value) : Except Failure (List Value) := do
  let found ← (← physical.elements).mapM fun p => do
    (← printed.elements).filterMapM fun q => pair? start q p
  return found.flatten

/-- The difference between the physical and the printed page of a pair; a pair without a difference
has no vote. -/
def vote? (pair : Value) : Except Failure (Option Value) :=
  let difference := do (← pair.field "physical_index").sub (← pair.field "page")
  match difference with
  | .ok d => .ok (some d)
  | .error (.missingKey _) => .ok none
  | .error (.wrongKind _) => .ok none
  | .error why => .error why

/-- Counts a vote in a table whose candidates stand in the order of their first votes. -/
def countVote (vote : Value) : List (Value × Nat) → List (Value × Nat)
  | [] => [(vote, 1)]
  | (v, n) :: rest => if v.same vote then (v, n + 1) :: rest else (v, n) :: countVote vote rest

/-- The first candidate with the most votes. -/
def winner? : List (Value × Nat) → Option (Value × Nat)
  | [] => none
  | c :: rest =>
    match winner? rest with
    | none => some c
    | some d => if c.2 < d.2 then some d else some c

/-- The **offset** with the most votes; null without votes. -/
def offset (pairs : Value) : Except Failure Value := do
  let votes ← (← pairs.elements).filterMapM vote?
  let table := votes.foldl (fun table vote => countVote vote table) []
  return .ofOption ((winner? table).map Prod.fst)

/-! ### Physical pages -/

/-- An entry with its physical page in place of the printed one, if that is a whole number. -/
def applyOffsetTo (offset entry : Value) : Except Failure Value := do
  let page ← entry.lookup "page"
  if page.isInt then
    let entry ← entry.setField "physical_index" (← page.add offset)
    entry.removeField "page"
  else return entry

/-- The entries **with physical pages** in place of printed ones. -/
def applyOffset (entries offset : Value) : Except Failure Value := do
  match entries with
  | .list items => return .list (← items.mapM (applyOffsetTo offset))
  | v =>
    if (← v.size) = 0 then return v
    let _ ← (← v.item 0).lookup "page"
    return v

end DocTree.Contents
