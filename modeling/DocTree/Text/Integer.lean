import DocTree.Text.Blank
import DocTree.Text.Digit

/-!
# Whole numbers in text

A sign, decimal digits of any script, and single underscores between them. White space around is
ignored: in ASCII texts only that of ASCII.
-/

namespace DocTree.Text

/-- What a text is when it is read as a whole number. -/
inductive IntegerText where
  | malformed
  | tooLong (digits : Nat)
  | number (n : Int)
deriving DecidableEq, Repr

/-- The greatest number of digits that is read. -/
def digitLimit : Nat := 4300

/-- ASCII white space: tab to carriage return, and the space. -/
def isAsciiBlank (c : Char) : Bool := (0x9 ≤ c.toNat && c.toNat ≤ 0xd) || c == ' '

/-- Reads digits with single underscores between them; `value` and `count` describe the digits
read before. -/
def readDigits (value count : Nat) : List Char → Option (Nat × Nat)
  | [] => some (value, count)
  | '_' :: c :: cs =>
    match digitValue? c with
    | some d => readDigits (10 * value + d) (count + 1) cs
    | none => none
  | c :: cs =>
    match digitValue? c with
    | some d => readDigits (10 * value + d) (count + 1) cs
    | none => none

def readNatural : List Char → Option (Nat × Nat)
  | [] => none
  | '_' :: _ => none
  | cs => readDigits 0 0 cs

def readSigned : List Char → Option (Int × Nat)
  | '-' :: cs => (readNatural cs).map fun (n, k) => (-(n : Int), k)
  | '+' :: cs => (readNatural cs).map fun (n, k) => ((n : Int), k)
  | cs => (readNatural cs).map fun (n, k) => ((n : Int), k)

def readInteger (s : String) : IntegerText :=
  let cs := s.toList
  let blank := if cs.all (·.toNat < 0x80) then isAsciiBlank else isBlank
  match readSigned (dropEnd blank (dropStart blank cs)) with
  | none => .malformed
  | some (n, digits) => if digitLimit < digits then .tooLong digits else .number n

end DocTree.Text
