import DocTree.Text.CharNameTable
import DocTree.Text.Predicted
import DocTree.Text.Search

/-!
# Names of characters

Names of Latin and Greek letters and of common symbols are listed; those of unified ideographs hold
code points, and those of Hangul syllables are put together.
-/

namespace DocTree.Text

/-! ### Listed names -/

/-- The value of a digit in a base up to 36, with letters of either case. -/
def digitOf (c : Char) : Nat :=
  if c.isDigit then c.toNat - '0'.toNat else c.toLower.toNat - 'a'.toNat + 10

def decimalNumber (ds : List Char) : Nat := ds.foldl (fun n d => 10 * n + digitOf d) 0

def hexNumber (ds : List Char) : Nat := ds.foldl (fun n d => 16 * n + digitOf d) 0

/-- The word that is `k` places after `word`, the last one of the name of `code`. -/
def countOn (code k : Nat) (word : List Char) : List Char :=
  let digits := (word.reverse.takeWhile Char.isDigit).reverse
  if word.getLast? = some '#' then
    word.dropLast ++ (Nat.toDigits 16 (code + k)).map Char.toUpper
  else if digits.isEmpty then word
  else
    word.take (word.length - digits.length) ++
      (Nat.toDigits 10 (decimalNumber digits + k)).leftpad digits.length '0'

/-- The name that is `k` places after the one of `code`. -/
def nameAfter (code k : Nat) (name : List (List Char)) : List (List Char) :=
  name.dropLast ++ name.getLast?.toList.map (countOn code k)

/-- Whether a name or a code point begins at a character of a table of names. -/
def beginsPart (c : Char) : Bool := c == ';' || ('a' ≤ c && c ≤ 'l')

/-- The code point of a name among the parts of a table. The next name is that of `code`, and
`before` the name before it. -/
def searchTable? (words : List (List Char)) (code : Nat) (before : List (List Char)) :
    List (List Char) → Option Nat
  | [] => none
  | [] :: rest => searchTable? words code before rest
  | (c :: text) :: rest =>
    if c = ';' then searchTable? words (hexNumber text) before rest
    else
      let (listed, count) := text.span (· ≠ '+')
      let name := before.take (c.toNat - 'a'.toNat) ++ splitAtChar ' ' listed
      let more := decimalNumber count.tail
      match (List.range (more + 1)).find? fun k => nameAfter code k name == words with
      | some k => some (code + k)
      | none => searchTable? words (code + more + 1) (nameAfter code more name) rest

/-- The tables of names and of other names in a code. They are read when they are used. -/
@[noinline] def nameTables (code : String) : Thunk (List (List Char)) :=
  Thunk.mk fun _ =>
    let (names, others) := (decode 25 charNameSigns charNameLength code).span (· ≠ '~')
    [names, others.tail]

def allNames : Thunk (List (List Char)) := nameTables charNameCode

/-- The character of a **listed** name. -/
@[noinline] def listedName? (tables : Thunk (List (List Char))) (words : List (List Char)) :
    Option Char :=
  (tables.get.findSome? fun table =>
    searchTable? words 0 [] (table.splitBy fun _ c => !beginsPart c)).map Char.ofNat

/-! ### Names made by rules -/

def isUnifiedIdeograph (n : Nat) : Bool :=
  (0x3400 ≤ n && n ≤ 0x4dbf) || (0x4e00 ≤ n && n ≤ 0x9fff) || (0x20000 ≤ n && n ≤ 0x2a6df) ||
    (0x2a700 ≤ n && n ≤ 0x2b738) || (0x2b740 ≤ n && n ≤ 0x2b81d) ||
    (0x2b820 ≤ n && n ≤ 0x2cea1) || (0x2ceb0 ≤ n && n ≤ 0x2ebe0) ||
    (0x30000 ≤ n && n ≤ 0x3134a)

/-- The unified **ideograph** of a name. -/
def ideographNamed? (name : List Char) : Option Char :=
  match after? "CJK UNIFIED IDEOGRAPH-".toList name with
  | some digits =>
    let valid := digits.all fun c => c.isDigit || ('A' ≤ c && c ≤ 'F')
    let n := hexNumber digits
    if valid && (digits.length == 4 || digits.length == 5) && isUnifiedIdeograph n then
      some (Char.ofNat n)
    else none
  | none => none

def leadingNames : List String :=
  ["G", "GG", "N", "D", "DD", "R", "M", "B", "BB", "S", "SS", "", "J", "JJ", "C", "K", "T", "P",
   "H"]

def vowelNames : List String :=
  ["A", "AE", "YA", "YAE", "EO", "E", "YEO", "YE", "O", "WA", "WAE", "OE", "YO", "U", "WEO",
   "WE", "WI", "YU", "EU", "YI", "I"]

def trailingNames : List String :=
  ["", "G", "GG", "GS", "N", "NJ", "NH", "D", "L", "LG", "LM", "LB", "LS", "LT", "LP", "LH",
   "M", "B", "BS", "S", "SS", "NG", "J", "C", "K", "T", "P", "H"]

/-- The position of the longest of several names at the beginning of a text, and the rest. -/
def longestName? (names : List String) (cs : List Char) : Option (Nat × List Char) :=
  (names.zipIdx.filterMap fun (name, i) => (after? name.toList cs).map fun rest => (i, rest)).foldl
    (fun best found =>
      match best with
      | none => some found
      | some b => if found.2.length < b.2.length then some found else some b) none

/-- The Hangul **syllable** of a name. -/
def syllableNamed? (name : List Char) : Option Char := do
  let rest ← after? "HANGUL SYLLABLE ".toList name
  let (l, rest) ← longestName? leadingNames rest
  let (v, rest) ← longestName? vowelNames rest
  let (t, rest) ← longestName? trailingNames rest
  if rest.isEmpty then some (Char.ofNat (0xac00 + (l * 21 + v) * 28 + t)) else none

/-! ### All names -/

def charNamed? (name : List Char) : Option Char :=
  let words := splitAtChar ' ' (name.map Char.toUpper)
  (syllableNamed? name).or ((ideographNamed? name).or (listedName? allNames words))

end DocTree.Text
