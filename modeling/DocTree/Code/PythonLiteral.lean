import DocTree.Code.PythonSyntax
import DocTree.Code.PythonToken
import DocTree.Text.CharName

/-!
# Literals of Python

Numbers in several bases, and texts and bytes with escapes. An escape that is not one stands for
itself.
-/

namespace DocTree.Python

/-! ### Numbers -/

def digitValue (c : Char) : Nat :=
  if isDecimal c then c.toNat - '0'.toNat
  else if 'a' ≤ c && c ≤ 'f' then c.toNat - 'a'.toNat + 10
  else c.toNat - 'A'.toNat + 10

def valueIn (base : Nat) (ds : List Char) : Nat :=
  ds.foldl (fun n d => base * n + digitValue d) 0

/-- The value of an exponent with an optional sign. -/
def exponentValue : List Char → Int
  | '-' :: ds => -(valueIn 10 ds : Int)
  | '+' :: ds => valueIn 10 ds
  | ds => valueIn 10 ds

def fractionValue (cs : List Char) : Double :=
  let whole := cs.takeWhile isDecimal
  let rest := cs.dropWhile isDecimal
  let places := match rest with
    | '.' :: r => r.takeWhile isDecimal
    | _ => []
  let tail := match rest with
    | '.' :: r => r.dropWhile isDecimal
    | r => r
  let exponent := match tail with
    | _ :: e => exponentValue e
    | [] => 0
  Double.ofDecimal false (valueIn 10 (whole ++ places)) (exponent - places.length)

/-- The greatest number of decimal digits of a whole number. -/
def maxDigits : Nat := 4300

/-- The **value of a number**; nothing if it is a whole number with too many digits. -/
def numberValue? (text : String) : Option Constant :=
  let cs := text.toList.filter (· ≠ '_')
  match cs with
  | '0' :: 'x' :: ds | '0' :: 'X' :: ds => some (.int (valueIn 16 ds))
  | '0' :: 'o' :: ds | '0' :: 'O' :: ds => some (.int (valueIn 8 ds))
  | '0' :: 'b' :: ds | '0' :: 'B' :: ds => some (.int (valueIn 2 ds))
  | cs =>
    if cs.all isDecimal then
      if maxDigits < cs.length then none else some (.int (valueIn 10 cs))
    else if cs.getLast? == some 'j' || cs.getLast? == some 'J' then
      some (.imaginary (fractionValue cs.dropLast))
    else some (.float (fractionValue cs))

/-! ### Escapes -/

/-- The value of exactly `n` hexadecimal digits, and what follows. -/
def hexValue? : (n : Nat) → (value : Nat) → List Char → Option (Nat × List Char)
  | 0, value, cs => some (value, cs)
  | n + 1, value, c :: cs =>
    if isHexadecimal c then hexValue? n (16 * value + digitValue c) cs else none
  | _ + 1, _, [] => none

def isOctal (c : Char) : Bool := '0' ≤ c && c ≤ '7'

/-- The value of at most `n` octal digits, and what follows. -/
def octalValue : (n : Nat) → (value : Nat) → List Char → Nat × List Char
  | n + 1, value, c :: cs =>
    if isOctal c then octalValue n (8 * value + digitValue c) cs else (value, c :: cs)
  | _, value, cs => (value, cs)

/-- The character that a letter stands for after a backslash. -/
def letterEscape? : Char → Option Nat
  | '\\' => some 0x5c
  | '\'' => some 0x27
  | '"' => some 0x22
  | 'a' => some 0x7
  | 'b' => some 0x8
  | 'f' => some 0xc
  | 'n' => some 0xa
  | 'r' => some 0xd
  | 't' => some 0x9
  | 'v' => some 0xb
  | _ => none

/-- The code points that an escape stands for, after the backslash, and what follows. -/
def textEscape? : List Char → Option (List Nat × List Char)
  | [] => some ([0x5c], [])
  | '\n' :: cs => some ([], cs)
  | 'x' :: cs => (hexValue? 2 0 cs).map fun (n, rest) => ([n], rest)
  | 'u' :: cs => (hexValue? 4 0 cs).map fun (n, rest) => ([n], rest)
  | 'U' :: cs => do
    let (n, rest) ← hexValue? 8 0 cs
    if n < 0x110000 then some ([n], rest) else none
  | 'N' :: '\x7b' :: cs => do
    let name := cs.takeWhile (· ≠ '\x7d')
    match cs.dropWhile (· ≠ '\x7d') with
    | _ :: rest => (Text.charNamed? name).map fun c => ([c.toNat], rest)
    | [] => none
  | 'N' :: _ => none
  | c :: cs =>
    match letterEscape? c with
    | some n => some ([n], cs)
    | none =>
      if isOctal c then
        let (n, rest) := octalValue 3 0 (c :: cs)
        some ([n], rest)
      else some ([0x5c, c.toNat], cs)

/-- The code points of the **body of a text** with escapes. -/
def decodeText? : (fuel : Nat) → List Char → Option (List Nat)
  | _, [] => some []
  | 0, _ => none
  | fuel + 1, '\\' :: cs => do
    let (points, rest) ← textEscape? cs
    return points ++ (← decodeText? fuel rest)
  | fuel + 1, c :: cs => (decodeText? fuel cs).map (c.toNat :: ·)

/-- The bytes that an escape stands for, after the backslash, and what follows. -/
def bytesEscape? : List Char → Option (List Nat × List Char)
  | [] => none
  | '\n' :: cs => some ([], cs)
  | 'x' :: cs => (hexValue? 2 0 cs).map fun (n, rest) => ([n], rest)
  | c :: cs =>
    match letterEscape? c with
    | some n => some ([n], cs)
    | none =>
      if isOctal c then
        let (n, rest) := octalValue 3 0 (c :: cs)
        some ([n % 256], rest)
      else some ([0x5c, c.toNat], cs)

/-- The bytes of the **body of a byte string** with escapes. -/
def decodeBytes? : (fuel : Nat) → List Char → Option (List Nat)
  | _, [] => some []
  | 0, _ => none
  | fuel + 1, '\\' :: cs => do
    let (bytes, rest) ← bytesEscape? cs
    return bytes ++ (← decodeBytes? fuel rest)
  | fuel + 1, c :: cs => (decodeBytes? fuel cs).map (c.toNat :: ·)

/-! ### String tokens -/

/-- The parts of a string token: its marks and its body. -/
structure StringParts where
  raw : Bool
  bytes : Bool
  formatted : Bool
  marked : Bool
  body : List Char

def splitString (text : String) : StringParts :=
  let cs := text.toList
  let mark := cs.takeWhile fun c => c ≠ '"' && c ≠ '\''
  let quoted := cs.drop mark.length
  let size := match quoted with
    | a :: b :: c :: _ => if a == b && b == c && 6 ≤ quoted.length then 3 else 1
    | _ => 1
  let low := mark.map Char.toLower
  { raw := low.contains 'r'
    bytes := low.contains 'b'
    formatted := low.contains 'f'
    marked := mark.head? == some 'u'
    body := (quoted.drop size).take (quoted.length - 2 * size) }

/-- The code points of a text as it stands, or with its escapes replaced. -/
def textPoints? (raw : Bool) (body : List Char) : Option (List Nat) :=
  if raw then some (body.map Char.toNat) else decodeText? body.length body

/-- The bytes of a byte string, which may hold ASCII characters only. -/
def bytePoints? (raw : Bool) (body : List Char) : Option (List Nat) :=
  if body.any (0x80 ≤ ·.toNat) then none
  else if raw then some (body.map Char.toNat)
  else decodeBytes? body.length body

end DocTree.Python
