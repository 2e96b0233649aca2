import DocTree.Value.Access

/-!
# Arithmetic and order of values

Whole numbers are exact, a fraction makes the result a fraction, texts and lists are joined by the
sum and ordered lexicographically.
-/

namespace DocTree.Value

/-- A number as a fraction. -/
def toDouble : Value → Except Failure Double
  | .float x => .ok x
  | v =>
    match v.int? with
    | none => .error .wrongKind
    | some n =>
      match Double.ofInt n with
      | .infinite _ => .error .overflow
      | x => .ok x

def isNumber : Value → Bool
  | .float _ => true
  | v => v.isInt

/-- Applies an operation to two numbers: the exact one if both are whole. -/
def arith (whole : Int → Int → Int) (fraction : Double → Double → Double)
    (mismatch : Kind → Kind → Mismatch) (a b : Value) : Except Failure Value :=
  match a.int?, b.int? with
  | some m, some n => .ok (.int (whole m n))
  | _, _ =>
    if a.isNumber && b.isNumber then do return .float (fraction (← a.toDouble) (← b.toDouble))
    else .error (.wrongKind (mismatch a.kind b.kind))

/-- The **sum** of numbers, or two texts or lists joined. -/
def add (a b : Value) : Except Failure Value :=
  match a, b with
  | .str s, .str t => .ok (.str (s ++ t))
  | .list s, .list t => .ok (.list (s ++ t))
  | a, b => arith (· + ·) Double.add .noSum a b

/-- The **difference** of numbers. -/
def sub (a b : Value) : Except Failure Value := arith (· - ·) Double.sub .noDifference a b

/-- The sum of a list of numbers, from zero on. -/
def sum (items : List Value) : Except Failure Value :=
  items.foldlM add (.int 0)

/-! ### Order -/

mutual

/-- How two values **compare**; `none` if they are numbers without an order. -/
def compare? : Value → Value → Except Failure (Option Ordering)
  | .str s, .str t => .ok (some (compare s t))
  | .list s, .list t => compareLists s t
  | .float x, .float y => .ok (x.compare? y)
  | .float x, b =>
    match b.int? with
    | some n => .ok (x.compareInt? n)
    | none => .error (.wrongKind (.unordered .float b.kind))
  | a, .float y =>
    match a.int? with
    | some n => .ok ((y.compareInt? n).map Ordering.swap)
    | none => .error (.wrongKind (.unordered a.kind .float))
  | a, b =>
    match a.int?, b.int? with
    | some m, some n => .ok (some (compare m n))
    | _, _ => .error (.wrongKind (.unordered a.kind b.kind))

/-- How two lists compare: by the first difference, or by length. -/
def compareLists : List Value → List Value → Except Failure (Option Ordering)
  | [], [] => .ok (some .eq)
  | [], _ :: _ => .ok (some .lt)
  | _ :: _, [] => .ok (some .gt)
  | a :: as, b :: bs => if same a b then compareLists as bs else compare? a b

end

def less (a b : Value) : Except Failure Bool := do
  return (← compare? a b) == some .lt

def atMost (a b : Value) : Except Failure Bool := do
  let o ← compare? a b
  return o == some .lt || o == some .eq

end DocTree.Value
