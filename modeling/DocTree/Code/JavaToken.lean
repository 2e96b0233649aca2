import DocTree.Text.Blank
import DocTree.Text.Digit
import DocTree.Text.Letter
import DocTree.Text.Search

/-!
# Tokens of Java source text

First the escapes for single characters are replaced, then the text is cut into blanks, comments and
tokens. A token knows its line and the documentation comment before it.
-/

namespace DocTree.Java

inductive TokenKind where
  | keyword
  | modifier
  | basicType
  | literal
  | separator
  | operator
  | atSign
  | identifier
deriving DecidableEq

/-- A **token** with its line and the documentation comment before it. -/
structure Token where
  kind : TokenKind
  text : String
  line : Nat
  doc : Option String

/-- Why a source text has no tokens. -/
inductive ScanFault where
  /-- A character, a literal or a comment is malformed. -/
  | unreadable
  /-- The text ends within a number. -/
  | brokenOff
  /-- An escape does not name a character. -/
  | notACharacter

/-! ### Escapes -/

/-- The digits of an escape, of which single underscores may be between two. -/
def hexDigitsFrom (value : Nat) : List Char → Option Nat
  | [] => some value
  | ['_'] => none
  | '_' :: '_' :: _ => none
  | '_' :: cs => hexDigitsFrom value cs
  | c :: cs =>
    match Text.digitValue? c with
    | some d => hexDigitsFrom (16 * value + d) cs
    | none =>
      if 'a' ≤ c && c ≤ 'f' then hexDigitsFrom (16 * value + (c.toNat - 'a'.toNat + 10)) cs
      else if 'A' ≤ c && c ≤ 'F' then hexDigitsFrom (16 * value + (c.toNat - 'A'.toNat + 10)) cs
      else none

/-- A hexadecimal number, before which `0x` may stand. -/
def hexNatural? : List Char → Option Nat
  | ['0', 'x'] | ['0', 'X'] | [] => none
  | '0' :: 'x' :: '_' :: '_' :: _ | '0' :: 'X' :: '_' :: '_' :: _ => none
  | '0' :: 'x' :: cs | '0' :: 'X' :: cs => hexDigitsFrom 0 cs
  | '_' :: _ => none
  | cs => hexDigitsFrom 0 cs

/-- A hexadecimal number with an optional sign; the blanks around it do not count. -/
def hexInteger? (cs : List Char) : Option Int :=
  match Text.trimList cs with
  | '-' :: cs => (hexNatural? cs).map fun n => -(n : Int)
  | '+' :: cs => (hexNatural? cs).map fun n => (n : Int)
  | cs => (hexNatural? cs).map fun n => (n : Int)

def escaped (digits : List Char) : Except ScanFault Char :=
  match hexInteger? digits with
  | none => .error .unreadable
  | some n => if n < 0 then .error .notACharacter else .ok (Char.ofNat n.toNat)

/-- How much of an escape has been read. -/
inductive EscapeStage where
  | outside
  | backslash
  | marker (count : Nat)
  | digits (read : List Char)

/-- Source text **without escapes**; `since` is the text since the last one, latest first. An escape
that the text ends in repeats it. -/
def unescapeFrom (since : List Char) : EscapeStage → List Char → Except ScanFault (List Char)
  | .outside, [] => .ok since.reverse
  | .backslash, [] => .ok ('\\' :: since).reverse
  | .marker n, [] => .ok (since.reverse ++ since.reverse ++ '\\' :: List.replicate n 'u')
  | .digits read, [] => do return since.reverse ++ [← escaped read.reverse]
  | .outside, c :: cs =>
    if c = '\\' then unescapeFrom since .backslash cs else unescapeFrom (c :: since) .outside cs
  | .backslash, c :: cs =>
    if c = 'u' then unescapeFrom since (.marker 1) cs
    else unescapeFrom (c :: '\\' :: since) .outside cs
  | .marker n, c :: cs =>
    if c = 'u' then unescapeFrom since (.marker (n + 1)) cs
    else unescapeFrom since (.digits [c]) cs
  | .digits read, c :: cs =>
    if read.length < 3 then unescapeFrom since (.digits (c :: read)) cs
    else do
      let char ← escaped (c :: read).reverse
      return since.reverse ++ char :: (← unescapeFrom [] .outside cs)

def unescape (cs : List Char) : Except ScanFault (List Char) := unescapeFrom [] .outside cs

/-! ### Numbers -/

/-- How far digits reach. Underscores count only before a digit, and a letter behind the digits if it
marks a long number. `read` characters are accepted, and `gap` underscores have been seen since;
`last` is the last character. -/
def digitsReach (isDigit : Char → Bool) (read gap : Nat) (last : Option Char) :
    List Char → Except ScanFault Nat
  | c :: cs =>
    if isDigit c then digitsReach isDigit (read + gap + 1) 0 (some c) cs
    else if c = '_' then digitsReach isDigit read (gap + 1) (some c) cs
    else .ok (if c = 'l' || c = 'L' then read + 1 else read)
  | [] =>
    match last with
    | none => .error .brokenOff
    | some _ => .ok read

/-- How far digits reach at the beginning of a text. -/
def digits (isDigit : Char → Bool) (cs : List Char) : Except ScanFault Nat :=
  digitsReach isDigit 0 0 none cs

def isDecimal (c : Char) : Bool := '0' ≤ c && c ≤ '9'

def isOctal (c : Char) : Bool := '0' ≤ c && c ≤ '7'

def isBinary (c : Char) : Bool := c == '0' || c == '1'

def isHexadecimal (c : Char) : Bool :=
  isDecimal c || ('a' ≤ c && c ≤ 'f') || ('A' ≤ c && c ≤ 'F')

/-- Whether the character at a position is one of several. -/
def charAt (cs : List Char) (i : Nat) (choices : List Char) : Bool :=
  match cs[i]? with
  | some c => choices.contains c
  | none => false

/-- How far a fraction reaches after its whole digits, which end at `i`. -/
def fractionReach (cs : List Char) (i : Nat) : Except ScanFault Nat :=
  if charAt cs i ['.'] then do return i + 1 + (← digits isDecimal (cs.drop (i + 1))) else .ok i

/-- How far an exponent reaches that may begin at `i`. -/
def exponentReach (cs : List Char) (i : Nat) : Except ScanFault Nat :=
  if charAt cs i ['e', 'E'] then do
    let j := if charAt cs (i + 1) ['-', '+'] then i + 2 else i + 1
    return j + (← digits isDecimal (cs.drop j))
  else .ok i

/-- How far a **decimal** number reaches. -/
def decimalReach (cs : List Char) : Except ScanFault Nat := do
  let i ← digits isDecimal cs
  if charAt cs i ['.', 'e', 'E', 'f', 'F', 'd', 'D'] then
    let i ← exponentReach cs (← fractionReach cs i)
    return if charAt cs i ['f', 'F', 'd', 'D'] then i + 1 else i
  else return i

/-- The character at a position that has to be there. -/
def charThere (cs : List Char) (i : Nat) : Except ScanFault Char :=
  match cs[i]? with
  | some c => .ok c
  | none => .error .brokenOff

/-- How far the exponent of a hexadecimal fraction reaches, which has to begin at `i`. -/
def binaryExponentReach (cs : List Char) (i : Nat) : Except ScanFault Nat := do
  let mark ← charThere cs i
  if mark = 'p' || mark = 'P' then
    let sign ← charThere cs (i + 1)
    let j := if sign = '-' || sign = '+' then i + 2 else i + 1
    let j := j + (← digits isDecimal (cs.drop j))
    let suffix ← charThere cs j
    return if ['f', 'F', 'd', 'D'].contains suffix then j + 1 else j
  else throw .unreadable

/-- How far a **hexadecimal** number reaches, which begins with `0x`. -/
def hexadecimalReach (cs : List Char) : Except ScanFault Nat := do
  let i := 2 + (← digits isHexadecimal (cs.drop 2))
  if charAt cs i ['.'] then
    binaryExponentReach cs (i + 1 + (← digits isHexadecimal (cs.drop (i + 1))))
  else if charAt cs i ['p', 'P'] then binaryExponentReach cs i
  else return i

/-- How far a **number** reaches that begins with a digit. -/
def numberReach : List Char → Except ScanFault Nat
  | ['0'] => .error .brokenOff
  | '0' :: c :: cs =>
    if c = 'x' || c = 'X' then hexadecimalReach ('0' :: c :: cs)
    else if c = 'b' || c = 'B' then do return 2 + (← digits isBinary cs)
    else if isOctal c then do return 1 + (← digits isOctal (c :: cs))
    else decimalReach ('0' :: c :: cs)
  | cs => decimalReach cs

/-! ### Words and operators -/

/-- The reserved words that are neither modifiers nor basic types. -/
def keywords : List String :=
  ["assert", "break", "case", "catch", "class", "const", "continue", "do", "else", "enum",
   "extends", "finally", "for", "goto", "if", "implements", "import", "instanceof", "interface",
   "new", "package", "return", "super", "switch", "this", "throw", "throws", "try", "void",
   "while"]

def modifiers : List String :=
  ["abstract", "default", "final", "native", "private", "protected", "public", "static",
   "strictfp", "synchronized", "transient", "volatile"]

def basicTypes : List String :=
  ["boolean", "byte", "char", "double", "float", "int", "long", "short"]

def wordLiterals : List String := ["true", "false", "null"]

def wordKind (word : String) : TokenKind :=
  if keywords.contains word then .keyword
  else if modifiers.contains word then .modifier
  else if basicTypes.contains word then .basicType
  else if wordLiterals.contains word then .literal
  else .identifier

def startsWord (c : Char) : Bool := Text.isLetter c || Text.isConnector c || Text.isCurrency c

def continuesWord (c : Char) : Bool := startsWord c || Text.isMarkOrDigit c

def separators : List Char := ['(', ')', '\x7b', '\x7d', '[', ']', ';', ',', '.']

/-- The operators, longer ones first. Shifts to the right are several tokens, like the ends of type
arguments. -/
def operators : List String :=
  [">>>=", ">>=", "<<=", "...", "%=", "^=", "|=", "&=", "/=", "*=", "-=", "+=", "<<", "--",
   "++", "||", "&&", "!=", ">=", "<=", "==", "->", "::", "%", "^", "|", "&", "/", "*", "-", "+",
   ":", "?", "~", "!", "<", ">", "="]

def operatorLength? (cs : List Char) : Option Nat :=
  (operators.find? fun o => Text.beginsWith o.toList cs).map String.length

/-- How far a quoted literal reaches after its opening quote. -/
def quotedReach (quote : Char) : List Char → Except ScanFault Nat
  | [] => .error .unreadable
  | '\\' :: c :: cs =>
    if "btnfr\"'\\01234567".toList.contains c then do return 2 + (← quotedReach quote cs)
    else .error .unreadable
  | c :: cs => if c = quote then .ok 1 else do return 1 + (← quotedReach quote cs)

/-! ### Lexemes -/

/-- What a source text is cut into. -/
inductive Lexeme where
  | blank
  | comment
  | token (kind : TokenKind)

/-- How far a comment reaches that begins with two slashes; `cs` is what follows them. -/
def lineCommentReach (cs : List Char) : Nat :=
  let body := cs.takeWhile (· != '\n')
  if body.length < cs.length then body.length + 1 else body.length

/-- A number as a lexeme; the count is that of the characters after the first one. -/
def numberLexeme (reach : Except ScanFault Nat) : Except ScanFault (Lexeme × Nat) := do
  return (.token .literal, (← reach) - 1)

/-- An operator or nothing that can be read. -/
def operatorLexeme (cs : List Char) : Except ScanFault (Lexeme × Nat) :=
  match operatorLength? cs with
  | some n => .ok (.token .operator, n - 1)
  | none => .error .unreadable

/-- What **begins at a character**, with the number of characters after it that belong to it. -/
def lexeme (c : Char) (cs : List Char) : Except ScanFault (Lexeme × Nat) :=
  if Text.isBlank c then .ok (.blank, (cs.takeWhile Text.isBlank).length)
  else if c = '/' && charAt cs 0 ['/'] then .ok (.comment, 1 + lineCommentReach (cs.drop 1))
  else if c = '/' && charAt cs 0 ['*'] then
    match Text.cutFirst? ['*', '/'] (cs.drop 1) with
    | some (body, _) => .ok (.comment, 1 + body.length + 2)
    | none => .error .unreadable
  else if c = '.' && Text.beginsWith ['.', '.'] cs then .ok (.token .operator, 2)
  else if c = '@' then .ok (.token .atSign, 0)
  else if c = '.' && (cs.head?.any Text.isDigit) then numberLexeme (decimalReach (c :: cs))
  else if separators.contains c then .ok (.token .separator, 0)
  else if c = '"' || c = '\'' then do return (.token .literal, ← quotedReach c cs)
  else if isDecimal c then numberLexeme (numberReach (c :: cs))
  else if startsWord c then
    let rest := cs.takeWhile continuesWord
    .ok (.token (wordKind (String.ofList (c :: rest))), rest.length)
  else operatorLexeme (c :: cs)

/-- The documentation comment after a comment has been read. -/
def docAfter (doc : Option String) (comment : List Char) : Option String :=
  if Text.beginsWith ['/', '*', '*'] comment then some (String.ofList comment) else doc

/-- The tokens of a text that begins at a line, after a documentation comment if there is one. -/
def tokensFrom (line : Nat) (doc : Option String) : List Char → Except ScanFault (List Token)
  | [] => .ok []
  | c :: cs => do
    let (found, n) ← lexeme c cs
    let text := c :: cs.take n
    match found with
    | .blank => tokensFrom (line + text.count '\n') doc (cs.drop n)
    | .comment => tokensFrom (line + text.count '\n') (docAfter doc text) (cs.drop n)
    | .token kind =>
      return ⟨kind, String.ofList text, line, doc⟩ :: (← tokensFrom line none (cs.drop n))
termination_by cs => cs.length
decreasing_by all_goals (simp only [List.length_drop, List.length_cons]; omega)

def tokens (source : String) : Except ScanFault (List Token) := do
  tokensFrom 1 none (← unescape source.toList)

end DocTree.Java
