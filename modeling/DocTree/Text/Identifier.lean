import DocTree.Text.Letter

/-!
# Identifiers

Letters and the underscore begin an identifier, and marks, digits and connectors may follow. A few
characters are exceptions.
-/

namespace DocTree.Text

/-- Letters that are left out of identifiers. -/
def excludedLetters : List (Nat × Nat) :=
  [(0x37a, 0x37a), (0x2e2f, 0x2e2f), (0xfc5e, 0xfc63), (0xfdfa, 0xfdfb), (0xfe70, 0xfe70),
   (0xfe72, 0xfe72), (0xfe74, 0xfe74), (0xfe76, 0xfe76), (0xfe78, 0xfe78), (0xfe7a, 0xfe7a),
   (0xfe7c, 0xfe7c), (0xfe7e, 0xfe7e)]

/-- Letters that may stand in an identifier but not begin it. -/
def inexpressibleStarts : List (Nat × Nat) :=
  [(0xe33, 0xe33), (0xeb3, 0xeb3), (0xff9e, 0xff9f)]

/-- Characters that begin identifiers although they are not letters. -/
def extraStarts : List (Nat × Nat) := [(0x1885, 0x1886), (0x2118, 0x2118), (0x212e, 0x212e)]

/-- Characters that go on in identifiers although they are no marks or digits. -/
def extraContinues : List (Nat × Nat) :=
  [(0xb7, 0xb7), (0x387, 0x387), (0x1369, 0x1371), (0x19da, 0x19da), (0x2118, 0x2118),
   (0x212e, 0x212e)]

/-- Whether a character can **begin** an identifier. -/
def startsIdentifier (c : Char) : Bool :=
  let n := c.toNat
  if n < 0x80 then c.isAlpha || c == '_'
  else
    (isLetter c && !inRanges excludedLetters n && !inRanges inexpressibleStarts n) ||
      inRanges extraStarts n

/-- Whether a character can **go on** in an identifier. -/
def continuesIdentifier (c : Char) : Bool :=
  let n := c.toNat
  if n < 0x80 then c.isAlphanum || c == '_'
  else
    ((isLetter c || isMarkOrDigit c || isConnector c) && !inRanges excludedLetters n) ||
      inRanges extraContinues n

def isIdentifier : List Char → Bool
  | [] => false
  | c :: cs => startsIdentifier c && cs.all continuesIdentifier

end DocTree.Text
