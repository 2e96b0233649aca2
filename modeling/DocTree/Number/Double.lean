/-!
# Binary64 numbers

A finite number is `± mantissa · 2 ^ exponent`. Every operation computes its result exactly over the
natural numbers and rounds it once, to the nearest number, a tie going to the even mantissa.
-/

namespace DocTree

/-- A **binary64 number**. The finite ones are `± mantissa · 2 ^ exponent`. -/
inductive Double where
  | nan
  | infinite (negative : Bool)
  | finite (negative : Bool) (mantissa : Nat) (exponent : Int)
deriving DecidableEq, Repr, Inhabited

namespace Double

def minExponent : Int := -1074

def maxExponent : Int := 971

def zero (negative : Bool) : Double := .finite negative 0 minExponent

/-! ### Rounding -/

/-- The quotient `num / den` rounded to a natural number, a tie going to the even one. -/
def roundDiv (num den : Nat) : Nat :=
  let q := num / den
  let r := num % den
  if 2 * r < den then q
  else if den < 2 * r then q + 1
  else if q % 2 = 0 then q else q + 1

/-- The quotient `num / den` divided by `2 ^ e`, again as a quotient. -/
def shiftRatio (num den : Nat) (e : Int) : Nat × Nat :=
  if 0 ≤ e then (num, den * Nat.pow 2 e.toNat) else (num * Nat.pow 2 (-e).toNat, den)

/-- The greatest `b` with `2 ^ b ≤ num / den`, for positive `num` and `den`. -/
def floorLog (num den : Nat) : Int :=
  let b : Int := (num.log2 : Int) - (den.log2 : Int)
  let s := shiftRatio num den b
  if s.2 ≤ s.1 then b else b - 1

/-- The number nearest to `num / den`. A quotient beyond the greatest finite number is
infinite. -/
def ofRatio (negative : Bool) (num den : Nat) : Double :=
  if num = 0 then zero negative
  else
    let e := max (floorLog num den - 52) minExponent
    let s := shiftRatio num den e
    let q := roundDiv s.1 s.2
    let (m, e) := if q = Nat.pow 2 53 then (Nat.pow 2 52, e + 1) else (q, e)
    if maxExponent < e then .infinite negative else .finite negative m e

/-- The number nearest to `m · 2 ^ e`. -/
def ofDyadic (m : Int) (e : Int) : Double :=
  if 0 ≤ e then ofRatio (m < 0) (m.natAbs * Nat.pow 2 e.toNat) 1
  else ofRatio (m < 0) m.natAbs (Nat.pow 2 (-e).toNat)

def ofInt (n : Int) : Double := ofRatio (n < 0) n.natAbs 1

/-- The number nearest to `digits · 10 ^ exponent`. Those far out of range are recognised before any
power is computed. -/
def ofDecimal (negative : Bool) (digits : Nat) (exponent : Int) : Double :=
  if digits = 0 then zero negative
  else
    let size : Int := ((Nat.toDigits 10 digits).length : Int) + exponent
    if 310 < size then .infinite negative
    else if size < -330 then zero negative
    else if 0 ≤ exponent then ofRatio negative (digits * Nat.pow 10 exponent.toNat) 1
    else ofRatio negative digits (Nat.pow 10 (-exponent).toNat)

/-! ### Exact value -/

/-- The exact value of a finite number as `m · 2 ^ e`. -/
def dyadic? : Double → Option (Int × Int)
  | .finite neg m e => some (if neg then -(m : Int) else m, e)
  | _ => none

/-- Whether the sign is negative. A not-a-number has no sign. -/
def isNegative : Double → Bool
  | .nan => false
  | .infinite neg => neg
  | .finite neg _ _ => neg

def isZero : Double → Bool
  | .finite _ 0 _ => true
  | _ => false

/-- Two dyadics over a common exponent. -/
def align (a b : Int × Int) : Int × Int × Int :=
  let e := min a.2 b.2
  (a.1 * (Nat.pow 2 (a.2 - e).toNat : Nat), b.1 * (Nat.pow 2 (b.2 - e).toNat : Nat), e)

/-! ### Arithmetic -/

def neg : Double → Double
  | .nan => .nan
  | .infinite s => .infinite (!s)
  | .finite s m e => .finite (!s) m e

/-- The sum, rounded once. A sum of opposite numbers is the positive zero. -/
def add (x y : Double) : Double :=
  match x, y with
  | .nan, _ | _, .nan => .nan
  | .infinite s, .infinite t => if s = t then .infinite s else .nan
  | .infinite s, _ => .infinite s
  | _, .infinite t => .infinite t
  | .finite s m e, .finite t n f =>
    let (a, b, k) := align (if s then -(m : Int) else m, e) (if t then -(n : Int) else n, f)
    if a + b = 0 then zero (s && t && m == 0 && n == 0) else ofDyadic (a + b) k

/-- The difference, rounded once. -/
def sub (x y : Double) : Double := x.add y.neg

/-- The product, rounded once. -/
def mul (x y : Double) : Double :=
  let s := x.isNegative != y.isNegative
  match x, y with
  | .nan, _ | _, .nan => .nan
  | .infinite _, .finite _ 0 _ | .finite _ 0 _, .infinite _ => .nan
  | .infinite _, _ | _, .infinite _ => .infinite s
  | .finite _ m e, .finite _ n f =>
    if 0 ≤ e + f then ofRatio s (m * n * Nat.pow 2 (e + f).toNat) 1
    else ofRatio s (m * n) (Nat.pow 2 (-(e + f)).toNat)

/-- The quotient, rounded once; `none` for a zero divisor. -/
def div? (x y : Double) : Option Double :=
  let s := x.isNegative != y.isNegative
  match x, y with
  | _, .finite _ 0 _ => none
  | .nan, _ | _, .nan => some .nan
  | .infinite _, .infinite _ => some .nan
  | .infinite _, _ => some (.infinite s)
  | _, .infinite _ => some (zero s)
  | .finite _ m e, .finite _ n f =>
    let r := shiftRatio m n (f - e)
    some (ofRatio s r.1 r.2)

/-! ### Order -/

/-- How two numbers compare; `none` when one of them is not a number. -/
def compare? (x y : Double) : Option Ordering :=
  match x, y with
  | .nan, _ | _, .nan => none
  | .infinite s, .infinite t => some (compare t.toNat s.toNat)
  | .infinite s, _ => some (if s then .lt else .gt)
  | _, .infinite t => some (if t then .gt else .lt)
  | .finite s m e, .finite t n f =>
    let (a, b, _) := align (if s then -(m : Int) else m, e) (if t then -(n : Int) else n, f)
    some (compare a b)

/-- How a number compares with an integer, exactly. -/
def compareInt? (x : Double) (n : Int) : Option Ordering :=
  match x with
  | .nan => none
  | .infinite s => some (if s then .lt else .gt)
  | .finite s m e =>
    let (a, b, _) := align (if s then -(m : Int) else m, e) (n, 0)
    some (compare a b)

/-! ### Neighbouring integers -/

/-- The integer part, rounded toward zero. -/
def truncate? (x : Double) : Option Int :=
  x.dyadic?.map fun (m, e) =>
    if 0 ≤ e then m * (Nat.pow 2 e.toNat : Nat) else Int.tdiv m (Nat.pow 2 (-e).toNat : Nat)

/-- The least integer that is not below the number. -/
def ceil? (x : Double) : Option Int :=
  x.dyadic?.map fun (m, e) =>
    if 0 ≤ e then m * (Nat.pow 2 e.toNat : Nat)
    else -(Int.fdiv (-m) (Nat.pow 2 (-e).toNat : Nat))

end Double

end DocTree
