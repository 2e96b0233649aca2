import DocTree.Text.CharName
import DocTree.Text.CompatibleTable

/-!
# Compatible forms

Texts that differ only in the form of their characters have the same **compatible form**: characters
are decomposed, marks are put into the order of their classes, and characters are composed again.
-/

namespace DocTree.Text

/-! ### Tables -/

/-- The two sides of an entry of a table, before and after its comma. -/
def sides (entry : List Char) : List Char × List Char :=
  (entry.takeWhile (· ≠ ','), (entry.dropWhile (· ≠ ',')).tail)

/-- The code points that are listed in a text. -/
def codePoints (cs : List Char) : List Nat := (splitAtChar ' ' cs).map hexNumber

/-- The code points of the characters of one entry, the first of which is `code`. -/
def readRun (code : Nat) (cs : List Char) : List (Nat × List Nat) :=
  let (listed, count) := cs.span fun c => c ≠ '+' && c ≠ '*'
  let points := codePoints listed
  let step := if count.head? = some '+' then 1 else 0
  (List.range (if count.isEmpty then 1 else hexNumber count.tail)).map fun k =>
    (code + k, points.dropLast ++ points.getLast?.toList.map (· + k * step))

/-- The characters in the entries of a table after one with code point `code`, with the code
points that are listed for them. -/
def readEntries (code : Nat) : List (List Char) → List (Nat × List Nat)
  | [] => []
  | entry :: rest =>
    let (left, right) := sides entry
    let found := readRun (if left.isEmpty then code + 1 else hexNumber left) right
    found ++ readEntries ((found.getLast?.map Prod.fst).getD code) rest

/-- The **tables** of compatible forms. -/
structure Forms where
  /-- Characters and their decompositions. -/
  decompositions : List (Nat × List Nat)
  /-- Characters and the two that compose them. -/
  compositions : List (Nat × List Nat)
  /-- The ends of ranges, and their combining classes. -/
  classes : List (List Nat × Nat)

def readForms (text : List Char) : Forms :=
  let (decompositions, rest) := text.span (· ≠ '~')
  let (compositions, rest) := rest.tail.span (· ≠ '~')
  { decompositions := readEntries 0 (splitAtChar ';' decompositions)
    compositions := readEntries 0 (splitAtChar ';' compositions)
    classes := (splitAtChar ';' rest.tail).map fun entry =>
      (codePoints (sides entry).1, decimalNumber (sides entry).2) }

/-- The tables in a code. They are read when they are used. -/
@[noinline] def formTables (code : String) : Thunk Forms :=
  Thunk.mk fun _ => readForms (decode 25 compatibleSigns compatibleLength code)

def allForms : Thunk Forms := formTables compatibleCode

/-! ### Decomposition -/

def combiningClass (forms : Forms) (n : Nat) : Nat :=
  match forms.classes.find? fun e => e.1.head?.any (· ≤ n) && e.1.getLast?.any (n ≤ ·) with
  | some (_, k) => k
  | none => 0

def syllableParts (n : Nat) : List Nat :=
  let i := n - 0xac00
  let base := [0x1100 + i / 588, 0x1161 + i % 588 / 28]
  if i % 28 == 0 then base else base ++ [0x11a7 + i % 28]

def decompose (forms : Forms) (n : Nat) : List Nat :=
  if n < 0x80 then [n]
  else if 0xac00 ≤ n && n ≤ 0xd7a3 then syllableParts n
  else
    match forms.decompositions.find? fun e => e.1 == n with
    | some (_, parts) => parts
    | none => [n]

/-! ### Order of marks -/

/-- Puts a code point of class `k` after all marks of lower class that follow with no starter before
them. -/
def insertMark (n k : Nat) : List (Nat × Nat) → List (Nat × Nat)
  | [] => [(n, k)]
  | (m, j) :: rest =>
    if j ≠ 0 && j < k then (m, j) :: insertMark n k rest else (n, k) :: (m, j) :: rest

/-- Marks **in the order** of their classes; marks of the same class keep their order. -/
def reorder (forms : Forms) : List Nat → List (Nat × Nat)
  | [] => []
  | n :: rest =>
    let k := combiningClass forms n
    if k == 0 then (n, 0) :: reorder forms rest else insertMark n k (reorder forms rest)

/-! ### Composition -/

/-- The code point that two others compose. -/
def pair? (forms : Forms) (a b : Nat) : Option Nat :=
  if 0x1100 ≤ a && a < 0x1113 && 0x1161 ≤ b && b < 0x1176 then
    some (0xac00 + ((a - 0x1100) * 21 + (b - 0x1161)) * 28)
  else if 0xac00 ≤ a && a ≤ 0xd7a3 && (a - 0xac00) % 28 == 0 && 0x11a8 ≤ b && b < 0x11c3 then
    some (a + (b - 0x11a7))
  else (forms.compositions.find? fun e => e.2 == [a, b]).map Prod.fst

/-- Composes what follows `starter`: `kept` are the marks not composed, in reverse, and `last` is
the class of the last. -/
def composeFrom (forms : Forms) (starter : Nat) (kept : List Nat) (last : Option Nat) :
    List (Nat × Nat) → List Nat
  | [] => starter :: kept.reverse
  | (n, k) :: rest =>
    let blocked :=
      match last with
      | some j => j == 0 || k ≤ j
      | none => false
    match (if blocked then none else pair? forms starter n) with
    | some c => composeFrom forms c kept last rest
    | none =>
      if k == 0 then (starter :: kept.reverse) ++ composeFrom forms n [] none rest
      else composeFrom forms starter (n :: kept) (some k) rest

/-- Characters **composed** where they can be. -/
def compose (forms : Forms) : List (Nat × Nat) → List Nat
  | [] => []
  | (n, k) :: rest =>
    if k == 0 then composeFrom forms n [] none rest else n :: compose forms rest

/-! ### Compatible form -/

/-- The compatible form of a text, after some tables. -/
@[noinline] def compatibleBy (forms : Thunk Forms) (s : String) : String :=
  if s.toList.all (·.toNat < 0x80) then s
  else
    let points := s.toList.flatMap fun c => decompose forms.get c.toNat
    String.ofList ((compose forms.get (reorder forms.get points)).map Char.ofNat)

def compatible (s : String) : String := compatibleBy allForms s

end DocTree.Text
