import DocTree.Value.Access

/-!
# Pages

The pages of a document with their texts and lengths in tokens, counted from one. A text made from
several pages shows their borders if it is labelled.
-/

namespace DocTree

/-- A **page**: its text and its length in tokens. -/
structure Page where
  text : String
  tokens : Int
deriving DecidableEq

namespace Page

def total (lengths : List Int) : Int := lengths.foldr (· + ·) 0

/-- The text of the page at a position, which may count from the end. -/
def textAt (pages : List Page) (i : Int) : Except Failure String :=
  (Value.itemOf pages i).map Page.text

/-- The texts of `count` pages from position `first` on, each shown by `f`. -/
def collect (f : Int → Except Failure String) : (count : Nat) → (first : Int) →
    Except Failure String
  | 0, _ => .ok ""
  | count + 1, first => do
    let here ← f first
    return here ++ (← collect f count (first + 1))

/-- The texts of the positions from `first` up to, but not including, `last`. -/
def range (f : Int → Except Failure String) (first last : Int) : Except Failure String :=
  collect f (last - first).toNat first

def label (i : Int) : String := "<physical_index_" ++ Decimal.intText i ++ ">"

/-- A page text with its label before and after it. -/
def labelled (i : Int) (text : String) : String :=
  label i ++ "\n" ++ text ++ "\n" ++ label i ++ "\n"

/-- The **text** of the pages from `first` to `last`. -/
def textOf (pages : List Page) (first last : Int) : Except Failure String :=
  range (textAt pages) (first - 1) last

/-- The text of the pages from `first` to `last` with **labels**. -/
def labelledTextOf (pages : List Page) (first last : Int) : Except Failure String :=
  range (fun i => (textAt pages i).map (labelled (i + 1))) (first - 1) last

/-- The bounds of a range of pages that are given as values. -/
def bounds (first last : Value) : Except Failure (Int × Int) := do
  return (← first.integer, ← last.integer)

def textBetween (pages : List Page) (first last : Value) : Except Failure String := do
  let (first, last) ← bounds first last
  textOf pages first last

def labelledTextBetween (pages : List Page) (first last : Value) : Except Failure String := do
  let (first, last) ← bounds first last
  labelledTextOf pages first last

end Page

end DocTree
