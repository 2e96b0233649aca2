/-!
# Tables of code points

Properties of characters are given as closed ranges of code points in increasing order. A long list
is a text of numbers: how many code points are left out, and how many follow the first one. Digits
are letters from 0 to 25, the last of a number small, the others capitals.
-/

namespace DocTree.Text

/-- Whether a code point lies in one of the closed **ranges**. -/
def inRanges (ranges : List (Nat × Nat)) (n : Nat) : Bool :=
  ranges.any fun r => r.1 ≤ n && n ≤ r.2

/-- The numbers in a text, the first of which has begun with `n`. Line feeds do not count. -/
def readNumbers (n : Nat) : List Char → List Nat
  | [] => []
  | c :: cs =>
    if c.isUpper then readNumbers (26 * n + (c.toNat - 'A'.toNat)) cs
    else if c.isLower then (26 * n + (c.toNat - 'a'.toNat)) :: readNumbers 0 cs
    else readNumbers n cs

/-- The ranges that are given by numbers, from a code point on. -/
def rangesFrom (code : Nat) : List Nat → List (Nat × Nat)
  | gap :: more :: rest =>
    (code + gap, code + gap + more) :: rangesFrom (code + gap + more + 1) rest
  | _ => []

/-- The ranges from `0x80` on that are **written** in a text. -/
def readRanges (s : String) : List (Nat × Nat) := rangesFrom 0x80 (readNumbers 0 s.toList)

end DocTree.Text
