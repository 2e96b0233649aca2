import DocTree.Failure

/-!
# Places in a configuration text

A cursor is a place in a text: the characters that follow it, and its line and column. Four
characters end a line.
-/

namespace DocTree.Yaml

/-! ### Characters -/

def isBreak (c : Char) : Bool := c == '\n' || c == '\x85' || c == '\u2028' || c == '\u2029'

def isGap (c : Char) : Bool := c == ' ' || c == '\t'

def isNameChar (c : Char) : Bool := c.isAlphanum || c == '-' || c == '_'

/-- Whether a character may stand in a text. -/
def isPrintable (c : Char) : Bool :=
  c == '\t' || c == '\n' || c == '\r' || c == '\x85' ||
    (0x20 ≤ c.toNat && c.toNat ≤ 0x7e) || (0xa0 ≤ c.toNat && c.toNat ≤ 0xfffd) ||
    0x10000 ≤ c.toNat

/-- Whether a line ends before what may be a character. -/
def endsLine : Option Char → Bool
  | none => true
  | some c => isBreak c

/-- Whether a piece without spaces ends before what may be a character. -/
def endsPiece : Option Char → Bool
  | none => true
  | some c => c == ' ' || isBreak c

/-- Whether a word ends before what may be a character. -/
def endsWord : Option Char → Bool
  | none => true
  | some c => isGap c || isBreak c

/-! ### Cursors -/

/-- A **place** in a text. -/
structure Cursor where
  rest : List Char
  index : Nat := 0
  line : Nat := 0
  column : Nat := 0

namespace Cursor

/-- The place after the next character. A byte order mark has no width. -/
def step (c : Cursor) : Cursor :=
  match c.rest with
  | [] => c
  | ch :: rest =>
    if isBreak ch then { rest := rest, index := c.index + 1, line := c.line + 1, column := 0 }
    else
      { c with
        rest := rest, index := c.index + 1
        column := if ch == '\ufeff' then c.column else c.column + 1 }

def advance : Nat → Cursor → Cursor
  | 0, c => c
  | n + 1, c => advance n c.step

/-- The character some characters later. -/
def peek (c : Cursor) (n : Nat := 0) : Option Char := c.rest[n]?

/-- The **characters of a class** that follow, and the place after them. -/
def takeWhile (p : Char → Bool) (c : Cursor) : List Char × Cursor :=
  let taken := c.rest.takeWhile p
  (taken, advance taken.length c)

def skipWhile (p : Char → Bool) (c : Cursor) : Cursor := (c.takeWhile p).2

def skipSpaces (c : Cursor) : Cursor := c.skipWhile (· == ' ')

def skipComment (c : Cursor) : Cursor :=
  if c.peek == some '#' then c.skipWhile (!isBreak ·) else c

/-- The **end of a line**, if it is here. The plain ends of lines are all one. -/
def lineBreak (c : Cursor) : List Char × Cursor :=
  match c.peek with
  | some ch =>
    if ch == '\n' || ch == '\x85' then (['\n'], c.step)
    else if isBreak ch then ([ch], c.step)
    else ([], c)
  | none => ([], c)

/-- Whether three characters stand here as a word. -/
def atWord (c : Cursor) (word : List Char) : Bool :=
  c.rest.take 3 == word && endsWord (c.peek 3)

/-- Whether a document **begins or ends** here. -/
def atMark (c : Cursor) : Bool := c.atWord ['-', '-', '-'] || c.atWord ['.', '.', '.']

/-- The rest of a line that may hold nothing but a comment. -/
def skipLine (c : Cursor) : Except Failure Cursor :=
  let c := c.skipSpaces.skipComment
  if endsLine c.peek then .ok c.lineBreak.2 else .error (.malformedConfig .token)

end Cursor

end DocTree.Yaml
