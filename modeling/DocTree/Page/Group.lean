import DocTree.Page
import DocTree.Session

/-!
# Groups of pages

A long document is shown to a model in groups of pages. Every group but the first begins with the
last pages of the group before it, so that nothing is lost at a border.
-/

namespace DocTree.Page

def quotient (a b : Int) : Except Failure Double :=
  if b = 0 then .error .divisionByZero
  else
    match Double.ofRatio (decide (a < 0) != decide (b < 0)) a.natAbs b.natAbs with
    | .infinite _ => .error .overflow
    | x => .ok x

/-- The least whole number that is not below a fraction. -/
def ceiling (x : Double) : Except Failure Int :=
  match x.ceil? with
  | some n => .ok n
  | none => .error .overflow

def fraction (n : Int) : Except Failure Double :=
  match Double.ofInt n with
  | .infinite _ => .error .overflow
  | x => .ok x

/-- The length at which a group is **closed**: halfway between the greatest and the average length
of the fewest groups. -/
def groupLimit (total greatest : Int) : Except Failure Int := do
  let parts ← ceiling (← quotient total greatest)
  let average := (← quotient total parts).add (← fraction greatest)
  match average.div? (Double.ofInt 2) with
  | some half => ceiling half
  | none => .error .divisionByZero

/-- Where a group begins that follows a group ending before page `i`. -/
def overlapStart (overlap : Int) (i : Nat) : Nat := min (max ((i : Int) - overlap) 0).toNat i

/-- The total length of the pages of an interval. -/
def lengthOf (lengths : List Int) (low high : Nat) : Int :=
  total ((lengths.take high).drop low)

/-- The intervals for the pages from `i` on, when the open group begins at `low` and has the length
`size`. -/
def intervalsFrom (limit overlap : Int) (lengths : List Int) :
    List Int → (i low : Nat) → (size : Int) → List (Nat × Nat)
  | [], i, low, _ => if low < i then [(low, i)] else []
  | n :: rest, i, low, size =>
    if limit < size + n then
      let start := overlapStart overlap i
      (low, i) :: intervalsFrom limit overlap lengths rest (i + 1) start
        (lengthOf lengths start i + n)
    else intervalsFrom limit overlap lengths rest (i + 1) low (size + n)

/-- The groups as **intervals** of page positions, the end not included. -/
def intervals (limit overlap : Int) (lengths : List Int) : List (Nat × Nat) :=
  intervalsFrom limit overlap lengths lengths 0 0 0

def intervalText (texts : List String) (interval : Nat × Nat) : String :=
  Text.join "" ((texts.take interval.2).drop interval.1)

/-- The greatest length of a text that is shown to a model. -/
def greatestLength : Int := 20000

/-- The texts of the **groups** of pages with given texts and lengths. Pages that fit together are
one group. -/
def groups (texts : List String) (lengths : List Int) (greatest : Int := greatestLength)
    (overlap : Int := 1) : Run (List String) := do
  let whole := total lengths
  if whole ≤ greatest then return [Text.join "" texts]
  let limit ← groupLimit whole greatest
  let found := (intervals limit overlap (lengths.take texts.length)).map (intervalText texts)
  Run.printLine ("divide page_list to groups " ++ Decimal.natText found.length)
  return found

end DocTree.Page
