/-!
# Predicted texts

A long table is kept in few digits by **predicting** it. A character has six bits, and a bit is
predicted by those that came in the same contexts before: the last characters, the word so far, and
the words before and above it. The counts of zeros and ones in a context give a chance, which is
learnt, and the chances are mixed as logarithms of odds, with weights that are learnt, too. The
digits of a code stand for a number in a range, which is divided as a zero and a one are expected;
the part in which it lies tells the bit and is the next range.
-/

namespace DocTree.Text

/-! ### Chances and odds -/

/-- The chance of a one, of 65536, at each of the logarithms of its odds up to 2047. The odds grow
by one part of 256 at each step. -/
def chanceTable : Array Nat :=
  ((List.range 2048).foldl (fun (table, odds) _ =>
    (table.push (Nat.pow 2 48 / (Nat.pow 2 32 + odds)), odds - odds / 256))
    (#[], Nat.pow 2 32)).1

/-- The chance of a one by the logarithm of its odds. -/
def chanceOf (logOdds : Int) : Nat :=
  if 0 ≤ logOdds then chanceTable.getD (min logOdds.toNat 2047) 0
  else 65536 - chanceTable.getD (min (-logOdds).toNat 2047) 0

/-- The logarithms of odds by chances of a half or more, in steps of 16. -/
def logOddsTable : Array Nat :=
  (chanceTable.foldl (fun (table, n) chance =>
    (table ++ Array.replicate (chance / 16 - 2047 - table.size) n, n + 1)) (#[], 0)).1

/-- The logarithm of the odds of a chance. -/
def logOddsOf (chance : Nat) : Int :=
  if 32768 ≤ chance then logOddsTable.getD (chance / 16 - 2048) 2047
  else -logOddsTable.getD (2047 - chance / 16) 2047

/-! ### Predictions -/

/-- What is **learnt**: the counts of all contexts, the chances that they stand for, and the weights
of the contexts. -/
structure Learner where
  counts : ByteArray
  chances : Array Nat
  weights : Array Int

/-- How many places there are for counts. -/
def placeCount : Nat := 33554393

/-- The counts of a context after a bit. -/
def counted (isOne : Bool) (count : UInt8) : UInt8 :=
  let zeros := count.toNat / 16
  let ones := count.toNat % 16
  if isOne then (16 * min zeros 1 + min (ones + 1) 15).toUInt8
  else (16 * min (zeros + 1) 15 + min ones 1).toUInt8

namespace Learner

/-- Nothing is learnt, with `2 ^ k` places for counts. -/
def start (k : Nat) : Learner where
  counts := Nat.repeat (fun counts => counts ++ counts) k (ByteArray.mk #[0])
  chances := (Array.range 2304).map fun n =>
    let zeros := n % 256 / 16
    let ones := n % 16
    65536 * (10 * ones + 4) / (10 * (zeros + ones) + 8)
  weights := Array.replicate 10880 12000

/-- What the contexts at some places say for a one. A context that is new says nothing. -/
def opinions (l : Learner) (places : Array Nat) : Array Int :=
  (places.mapIdx fun i place =>
    let count := l.counts.get! place
    if count = 0 then 0 else logOddsOf (l.chances.getD (256 * i + count.toNat) 0)).push 600

/-- Opinions by the weights of a set. -/
def mixed (l : Learner) (opinions : Array Int) (set : Nat) : Int :=
  Nat.fold 10 (fun i _ sum =>
    sum + l.weights.getD (10 * set + i) 0 * opinions.getD i 0 / 65536) 0

/-- The weights of a set after a bit: they grow for opinions that were right. -/
def weighted (opinions : Array Int) (isOne : Bool) (set : Nat) (logOdds : Int)
    (weights : Array Int) : Array Int :=
  let missed : Int := (if isOne then 65536 else 0) - chanceOf logOdds
  Nat.fold 10 (fun i _ weights =>
    weights.modify (10 * set + i) (· + opinions.getD i 0 * missed / 16384)) weights

/-- What is learnt about contexts after a bit. -/
def taught (places : Array Nat) (isOne : Bool) : Learner → Learner
  | ⟨counts, chances, weights⟩ =>
    let chances := Nat.fold 9 (fun i _ (chances : Array Nat) =>
      chances.modify (256 * i + (counts.get! (places.getD i 0)).toNat) fun chance =>
        if isOne then chance + (65535 - chance) / 64 else chance - (chance + 63) / 64) chances
    ⟨places.foldl (fun counts i => counts.set! i (counted isOne (counts.get! i))) counts, chances,
      weights⟩

end Learner

/-! ### Codes -/

def codeDigits : List Char :=
  "!#$%&()*+,-./0123456789:;<=>?@ABCDEFGHIJKLMNOPQRSTUVWXYZ[]^_abcdefghijklmnopqrstuvwxyz|~".toList

/-- The least range in which a bit is read. -/
def leastRange : Nat := Nat.pow 88 5

/-- A **decoder**: the digits that are left, the range with the place of the number in it, and what
is learnt. -/
structure Decoder where
  digits : List Nat
  range : Nat
  value : Nat
  learner : Learner

/-- Reads digits into the number until the range is large enough, or `n` of them. -/
def Decoder.refill : Nat → Decoder → Decoder
  | 0, d => d
  | n + 1, ⟨digits, range, value, learner⟩ =>
    if leastRange ≤ range then ⟨digits, range, value, learner⟩
    else refill n ⟨digits.tail, 88 * range, 88 * value + digits.headD 0, learner⟩

/-- The **next bit**, in contexts at some places, with two sets of weights. -/
def Decoder.bit (places : Array Nat) (first second : Nat) : Decoder → Bool × Decoder
  | ⟨digits, range, value, learner⟩ =>
    let opinions := learner.opinions places
    let a := learner.mixed opinions first
    let b := learner.mixed opinions second
    let split := range * max 16 (min (chanceOf ((a + b) / 2)) 65520) / 65536
    let isOne := value < split
    let ⟨counts, chances, weights⟩ := learner.taught places isOne
    let weights := Learner.weighted opinions isOne first a weights
    let learner := ⟨counts, chances, Learner.weighted opinions isOne second b weights⟩
    (isOne,
      if isOne then refill 3 ⟨digits, split, value, learner⟩
      else refill 3 ⟨digits, range - split, value - split, learner⟩)

/-- A text that has been **read** up to some character: the decoder, the last five characters, the
word so far and the last two words as numbers, the words before it in its entry and in the one
before, and the text. -/
structure Reading where
  decoder : Decoder
  past : Nat := 0
  word : Nat := 0
  recent : Nat := 0
  words : Array Nat := #[]
  above : Array Nat := #[]
  text : Array Char := #[]

/-- The contexts of a character: the last none, one, two, three and five, and the word so far,
alone, with the word before it, with the one above it and with the last two words. -/
def contextsOf (past word recent : Nat) (words above : Array Nat) : Array Nat :=
  #[0, past % 64, past % Nat.pow 64 2, past % Nat.pow 64 3, past, word,
    31 * word + words.back?.getD 0, 43 * word + above.getD words.size 1, 37 * word + recent]

/-- The number of the next character, of which some bits have been read. The weights are those for
the bits read, by the number of words before, and for the bits left, by the character before. -/
def Decoder.number (contexts : Array Nat) (count last : Nat) :
    (bits soFar : Nat) → Decoder → Nat × Decoder
  | 0, soFar, d => (soFar - 64, d)
  | bits + 1, soFar, d =>
    let places := contexts.mapIdx fun i context => (64 * (16 * context + i) + soFar) % placeCount
    let (isOne, d) := d.bit places (64 * count + soFar) (704 + 6 * last + bits)
    number contexts count last bits (2 * soFar + isOne.toNat) d

/-- Reads the **next character**. Spaces and semicolons end a word. A small letter begins an entry,
and tells how many words it shares. -/
def Reading.next (signs : Array Char) : Reading → Reading
  | ⟨decoder, past, word, recent, words, above, text⟩ =>
    let (n, decoder) := decoder.number (contextsOf past word recent words above)
      (min words.size 10) (past % 64) 6 1
    let c := signs.getD n ' '
    let past := (64 * past + n) % Nat.pow 64 5
    let text := text.push c
    if c.isLower || c = ' ' || c = ';' then
      let recent := (65536 * recent + word % 65536) % Nat.pow 2 32
      let words := words.push word
      if c.isLower then ⟨decoder, past, 0, recent, words.take (c.toNat - 97), words, text⟩
      else ⟨decoder, past, 0, recent, words, above, text⟩
    else ⟨decoder, past, (64 * word + n + 1) % 2147483647, recent, words, above, text⟩

/-- The **text** of a code: so many characters, each of them one of some signs. There are `2 ^ k`
places for counts. -/
def decode (k : Nat) (signs : String) (length : Nat) (code : String) : List Char :=
  let digits := (code.toList.filter (· ≠ '\n')).map codeDigits.idxOf
  let value := (digits.take 6).foldl (fun n d => 88 * n + d) 0
  let start : Reading := { decoder := ⟨digits.drop 6, 88 * leastRange, value, .start k⟩ }
  (Nat.repeat (Reading.next signs.toList.toArray) length start).text.toList

end DocTree.Text
