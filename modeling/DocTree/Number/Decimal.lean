import DocTree.Number.Double

/-!
# Decimal text of numbers

A number is written with the fewest digits that read back as the same number. Between `1e-4` and
`1e16` the notation is positional; outside it has an exponent.
-/

namespace DocTree

namespace Decimal

def natText (n : Nat) : String := String.ofList (Nat.toDigits 10 n)

def intText (n : Int) : String :=
  if n < 0 then "-" ++ natText n.natAbs else natText n.natAbs

/-- The text filled up with zeros on the left to `width` characters, after its sign. -/
def zeroFill (width : Nat) (text : String) : String :=
  let zeros := String.ofList (List.replicate (width - text.length) '0')
  match text.toList with
  | '-' :: rest => "-" ++ zeros ++ String.ofList rest
  | '+' :: rest => "+" ++ zeros ++ String.ofList rest
  | _ => zeros ++ text

/-- The decimal text of an integer with at least `width` characters. -/
def padded (width : Nat) (n : Int) : String := zeroFill width (intText n)

end Decimal

namespace Double

/-! ### Shortest digits -/

/-- The open or closed interval of quotients over `den` that round to one number. -/
structure Neighbourhood where
  value : Nat
  low : Nat
  high : Nat
  den : Nat
  closed : Bool

/-- The reals that round to `mantissa · 2 ^ exponent`, with the ends when the mantissa is even; half
as wide below a power of two. -/
def neighbourhood (mantissa : Nat) (exponent : Int) : Neighbourhood :=
  let below := if mantissa = Nat.pow 2 52 && minExponent < exponent then 1 else 2
  let scale := if 0 ≤ exponent then Nat.pow 2 exponent.toNat else 1
  let den := if 0 ≤ exponent then 4 else 4 * Nat.pow 2 (-exponent).toNat
  { value := 4 * mantissa * scale
    low := (4 * mantissa - below) * scale
    high := (4 * mantissa + 2) * scale
    den := den
    closed := mantissa % 2 == 0 }

/-- Whether `num / den'` lies in the interval. -/
def Neighbourhood.contains (n : Neighbourhood) (num den' : Nat) : Bool :=
  if n.closed then n.low * den' ≤ num * n.den && num * n.den ≤ n.high * den'
  else n.low * den' < num * n.den && num * n.den < n.high * den'

/-- The number of digits before the decimal point of `num / den`: the least `k` with
`num / den < 10 ^ k`. -/
def pointPosition (num den : Nat) : Int :=
  let guess : Int := ((Nat.toDigits 10 num).length : Int) - ((Nat.toDigits 10 den).length : Int)
  let below (k : Int) : Bool :=
    if 0 ≤ k then num < den * Nat.pow 10 k.toNat else num * Nat.pow 10 (-k).toNat < den
  if below (guess - 1) then guess - 1 else if below guess then guess else guess + 1

/-- The nearest decimal with `count` digits, if one reads back: its digits in units of `10 ^ unit`.
-/
def tryDigits (n : Neighbourhood) (point : Int) (count : Nat) : Option (Nat × Int) :=
  let unit := point - count
  let (num, den) :=
    if 0 ≤ unit then (n.value, n.den * Nat.pow 10 unit.toNat)
    else (n.value * Nat.pow 10 (-unit).toNat, n.den)
  let inside (q : Nat) : Bool :=
    if 0 ≤ unit then n.contains (q * Nat.pow 10 unit.toNat) 1
    else n.contains q (Nat.pow 10 (-unit).toNat)
  let q := num / den
  let r := num % den
  match inside q, inside (q + 1) with
  | true, true =>
    if 2 * r < den then some (q, unit)
    else if den < 2 * r then some (q + 1, unit)
    else if q % 2 = 0 then some (q, unit) else some (q + 1, unit)
  | true, false => some (q, unit)
  | false, true => some (q + 1, unit)
  | false, false => none

/-- The first digit count, from `count` on, that reads back. -/
def searchDigits (n : Neighbourhood) (point : Int) : Nat → Nat → Nat × Int
  | 0, count => (n.value, count)
  | tries + 1, count =>
    match tryDigits n point count with
    | some found => found
    | none => searchDigits n point tries (count + 1)

/-- The digits of a natural number without its final zeros. -/
def significant (q : Nat) : List Char :=
  ((Nat.toDigits 10 q).reverse.dropWhile (· == '0')).reverse

/-- The **shortest digits** of a positive number and the position of the point: it is `0.d₁d₂… · 10
^ point`. -/
def shortest (mantissa : Nat) (exponent : Int) : List Char × Int :=
  let n := neighbourhood mantissa exponent
  let found := searchDigits n (pointPosition n.value n.den) 17 1
  (significant found.1, ((Nat.toDigits 10 found.1).length : Int) + found.2)

/-! ### Text -/

/-- Positional notation, or an exponent for a decimal point far away. -/
def layout (digits : List Char) (point : Int) : String :=
  let n := digits.length
  if point ≤ -4 || 16 < point then
    let e := point - 1
    let mark := if e < 0 then "e-" else "e+"
    let fraction :=
      match digits with
      | [] => "0"
      | [d] => String.singleton d
      | d :: rest => String.singleton d ++ "." ++ String.ofList rest
    fraction ++ mark ++ Decimal.zeroFill 2 (Decimal.natText e.natAbs)
  else if point ≤ 0 then
    "0." ++ String.ofList (List.replicate (-point).toNat '0' ++ digits)
  else if n ≤ point.toNat then
    String.ofList (digits ++ List.replicate (point.toNat - n) '0') ++ ".0"
  else
    String.ofList (digits.take point.toNat) ++ "." ++ String.ofList (digits.drop point.toNat)

def text : Double → String
  | .nan => "nan"
  | .infinite s => if s then "-inf" else "inf"
  | .finite s 0 _ => if s then "-0.0" else "0.0"
  | .finite s m e =>
    let (digits, point) := shortest m e
    (if s then "-" else "") ++ layout digits point

/-- The text with exactly `places` digits after the point; a tie goes to the even digit. -/
def fixed (places : Nat) : Double → String
  | .nan => "nan"
  | .infinite s => if s then "-inf" else "inf"
  | .finite s m e =>
    let scaled := m * Nat.pow 10 places
    let q := if 0 ≤ e then scaled * Nat.pow 2 e.toNat else roundDiv scaled (Nat.pow 2 (-e).toNat)
    let body := Decimal.zeroFill (places + 1) (Decimal.natText q)
    let cut := body.length - places
    (if s then "-" else "") ++ String.ofList (body.toList.take cut) ++
      (if places = 0 then "" else "." ++ String.ofList (body.toList.drop cut))

end Double

end DocTree
