import DocTree.Text.Identifier
import DocTree.Text.Search

/-!
# Tokens of Python source text

The ends of logical lines and the changes of indentation are tokens of their own. Every token knows
its lines, and the line on which the last visible token before it ended.
-/

namespace DocTree.Python

inductive TokenKind where
  | name
  | keyword
  | number
  | string
  | operator
  | newline
  | indent
  | dedent
  | finish
deriving DecidableEq

/-- A **token**: its text, its lines, and the line on which the last visible token before it ended.
-/
structure Token where
  kind : TokenKind
  text : String
  line : Nat
  endLine : Nat
  before : Nat

def Token.is (t : Token) (text : String) : Bool :=
  (t.kind == .keyword || t.kind == .operator) && t.text == text

def keywords : List String :=
  ["False", "None", "True", "and", "as", "assert", "async", "await", "break", "class",
   "continue", "def", "del", "elif", "else", "except", "finally", "for", "from", "global", "if",
   "import", "in", "is", "lambda", "nonlocal", "not", "or", "pass", "raise", "return", "try",
   "while", "with", "yield"]

/-! ### Line ends -/

/-- Source text with uniform line ends, also after its last line. A final carriage return and line
feed add an empty line. -/
def unifyLines : List Char → List Char
  | [] => ['\n']
  | ['\n'] => ['\n']
  | ['\r'] => ['\n']
  | ['\r', '\n'] => ['\n', '\n']
  | '\r' :: '\n' :: cs => '\n' :: unifyLines cs
  | '\r' :: cs => '\n' :: unifyLines cs
  | c :: cs => c :: unifyLines cs

/-! ### Characters -/

def isDecimal (c : Char) : Bool := '0' ≤ c && c ≤ '9'

/-- Whether a character may belong to a name: also any character beyond ASCII. -/
def isNamePart (c : Char) : Bool := c.isAlphanum || c == '_' || 0x80 ≤ c.toNat

def isNameStart (c : Char) : Bool := c.isAlpha || c == '_' || 0x80 ≤ c.toNat

def isHexadecimal (c : Char) : Bool :=
  isDecimal c || ('a' ≤ c && c ≤ 'f') || ('A' ≤ c && c ≤ 'F')

/-! ### Numbers -/

/-- More digits, with single underscores before digits. -/
def moreDigits? (isDigit : Char → Bool) : List Char → Option (List Char × List Char)
  | [] => some ([], [])
  | ['_'] => none
  | '_' :: c :: cs =>
    if isDigit c then (moreDigits? isDigit cs).map fun (ds, rest) => ('_' :: c :: ds, rest)
    else none
  | c :: cs =>
    if isDigit c then (moreDigits? isDigit cs).map fun (ds, rest) => (c :: ds, rest)
    else some ([], c :: cs)

/-- Whether a number can end before `rest`: no name may follow, except a word that can stand after a
number. -/
def numberEnds : List Char → Bool
  | [] => true
  | 'a' :: 'n' :: 'd' :: _ => true
  | 'e' :: 'l' :: 's' :: 'e' :: _ => true
  | 'f' :: 'o' :: 'r' :: _ => true
  | 'i' :: 'f' :: _ => true
  | 'i' :: 'n' :: _ => true
  | 'i' :: 's' :: _ => true
  | 'o' :: 'r' :: _ => true
  | 'n' :: 'o' :: 't' :: _ => true
  | c :: _ => !isNamePart c

/-- A number that ends before `rest`, if it can. -/
def endNumber? (digits rest : List Char) : Option (List Char × List Char) :=
  if numberEnds rest then some (digits, rest) else none

/-- The end of a number that may be imaginary. -/
def imaginary? (digits rest : List Char) : Option (List Char × List Char) :=
  match rest with
  | 'j' :: cs => endNumber? (digits ++ ['j']) cs
  | 'J' :: cs => endNumber? (digits ++ ['J']) cs
  | cs => endNumber? digits cs

/-- The digits of an exponent, after its letter and its sign. -/
def exponentDigits? (digits : List Char) : List Char → Option (List Char × List Char)
  | [] => none
  | c :: cs =>
    if isDecimal c then do
      let (ds, rest) ← moreDigits? isDecimal cs
      imaginary? (digits ++ c :: ds) rest
    else none

/-- The exponent of a number, if there is one, and what follows. -/
def exponent? (digits rest : List Char) : Option (List Char × List Char) :=
  match rest with
  | c :: cs =>
    if c == 'e' || c == 'E' then
      match cs with
      | '+' :: cs => exponentDigits? (digits ++ [c, '+']) cs
      | '-' :: cs => exponentDigits? (digits ++ [c, '-']) cs
      | d :: _ =>
        if isDecimal d then exponentDigits? (digits ++ [c]) cs else endNumber? digits rest
      | [] => endNumber? digits rest
    else imaginary? digits rest
  | [] => imaginary? digits rest

/-- The fraction of a number after its point. -/
def fraction? (digits : List Char) : List Char → Option (List Char × List Char)
  | [] => exponent? digits []
  | c :: cs =>
    if isDecimal c then do
      let (ds, rest) ← moreDigits? isDecimal cs
      exponent? (digits ++ c :: ds) rest
    else exponent? digits (c :: cs)

/-- The digits of a number in a base that its second character tells. -/
def basedDigits? (isDigit : Char → Bool) (digits : List Char) (cs : List Char) :
    Option (List Char × List Char) := do
  let found ←
    match cs with
    | '_' :: c :: rest => if isDigit c then some (['_', c], rest) else none
    | c :: rest => if isDigit c then some ([c], rest) else none
    | [] => none
  let (ds, rest) ← moreDigits? isDigit found.2
  if (rest.head?.map isDecimal).getD false then none
  else endNumber? (digits ++ found.1 ++ ds) rest

/-- Whether digits have zeros in front of others. -/
def hasLeadingZero (digits : List Char) : Bool :=
  digits.head? == some '0' && digits.any fun d => d ≠ '0' && d ≠ '_'

/-- The end of a whole number. Leading zeros are for fractions only. -/
def endWhole? (digits rest : List Char) : Option (List Char × List Char) :=
  if hasLeadingZero digits then none else endNumber? digits rest

/-- A decimal number that begins with a digit. -/
def decimal? (first : Char) (cs : List Char) : Option (List Char × List Char) := do
  let (ds, rest) ← moreDigits? isDecimal cs
  let digits := first :: ds
  match rest with
  | [] => endWhole? digits rest
  | c :: more =>
    if c == '.' then fraction? (digits ++ ['.']) more
    else if c == 'e' || c == 'E' then exponent? digits rest
    else if c == 'j' || c == 'J' then imaginary? digits rest
    else endWhole? digits rest

/-- A **number** at the beginning of a text that begins with a digit or with a point and a
digit. -/
def scanNumber? : List Char → Option (List Char × List Char)
  | '.' :: cs => fraction? ['.'] cs
  | '0' :: c :: cs =>
    if c == 'x' || c == 'X' then basedDigits? isHexadecimal ['0', c] cs
    else if c == 'o' || c == 'O' then basedDigits? (fun d => '0' ≤ d && d ≤ '7') ['0', c] cs
    else if c == 'b' || c == 'B' then basedDigits? (fun d => d == '0' || d == '1') ['0', c] cs
    else decimal? '0' (c :: cs)
  | c :: cs => decimal? c cs
  | [] => none

/-! ### Strings -/

/-- The letters before the opening quote of a string, and the rest from the quote on. -/
def stringMark? : List Char → Option (List Char × List Char)
  | c :: cs =>
    if c == '"' || c == '\'' then some ([], c :: cs)
    else
      match cs with
      | d :: rest =>
        if d == '"' || d == '\'' then
          if "bBuUrRfF".toList.contains c then some ([c], d :: rest) else none
        else
          match rest with
          | q :: _ =>
            if (q == '"' || q == '\'') &&
                [['b', 'r'], ['r', 'b'], ['f', 'r'], ['r', 'f']].contains [c.toLower, d.toLower]
            then some ([c, d], rest) else none
          | [] => none
      | [] => none
  | [] => none

/-- The body of a string up to its closing quotes; `run` quotes have just been read. -/
def stringBody? (quote : Char) (size : Nat) : (run : Nat) → List Char →
    Option (List Char × List Char)
  | _, [] => none
  | run, c :: cs =>
    if c == quote then
      if run + 1 == size then some ([c], cs)
      else (stringBody? quote size (run + 1) cs).map fun (body, rest) => (c :: body, rest)
    else if c == '\n' && size == 1 then none
    else if c == '\\' then
      match cs with
      | d :: cs => (stringBody? quote size 0 cs).map fun (body, rest) => (c :: d :: body, rest)
      | [] => none
    else (stringBody? quote size 0 cs).map fun (body, rest) => (c :: body, rest)

/-- A **string** at the beginning of a text. -/
def scanString? (cs : List Char) : Option (List Char × List Char) := do
  let (mark, rest) ← stringMark? cs
  match rest with
  | q :: a :: b :: rest =>
    if a == q && b == q then
      let (body, rest) ← stringBody? q 3 0 rest
      return (mark ++ q :: a :: b :: body, rest)
    else if a == q then return (mark ++ [q, a], b :: rest)
    else
      let (body, rest) ← stringBody? q 1 0 (a :: b :: rest)
      return (mark ++ q :: body, rest)
  | q :: rest =>
    let (body, rest) ← stringBody? q 1 0 rest
    return (mark ++ q :: body, rest)
  | [] => none

/-! ### Operators -/

/-- The operators of more than one character, longest first. -/
def longOperators : List String :=
  ["**=", "//=", ">>=", "<<=", "...", "!=", "%=", "&=", "**", "*=", "+=", "-=", "->", "//",
   "/=", ":=", "<<", "<=", "==", ">=", ">>", "@=", "^=", "|="]

def shortOperators : List Char := "()[]{}:,;+-*/|&<>=.%~^@".toList

/-- An **operator** at the beginning of a text. The pair `<>` is none. -/
def scanOperator? (cs : List Char) : Option (List Char × List Char) :=
  match longOperators.findSome? fun op =>
      (Text.after? op.toList cs).map fun rest => (op.toList, rest) with
  | some found => some found
  | none =>
    match cs with
    | '<' :: '>' :: _ => none
    | c :: rest => if shortOperators.contains c then some ([c], rest) else none
    | [] => none

/-! ### Single tokens -/

/-- The next token of a text that does not begin with a blank, a comment or a line end. -/
def scanToken? (cs : List Char) : Option (TokenKind × List Char × List Char) :=
  match cs with
  | [] => none
  | c :: rest =>
    match stringMark? cs with
    | some _ => (scanString? cs).map fun (text, rest) => (.string, text, rest)
    | none =>
      if isNameStart c then
        let text := cs.takeWhile isNamePart
        let rest := cs.dropWhile isNamePart
        if text.all (·.toNat < 0x80) || Text.isIdentifier text then
          let kind := if keywords.contains (String.ofList text) then .keyword else .name
          some (kind, text, rest)
        else none
      else if isDecimal c || (c == '.' && (rest.head?.map isDecimal).getD false) then
        (scanNumber? cs).map fun (text, rest) => (.number, text, rest)
      else (scanOperator? cs).map fun (text, rest) => (.operator, text, rest)

/-! ### Indentation -/

/-- The width of the beginning of a line, with tabs to every eighth column and of one column, and
before a continuation mark. -/
structure Margin where
  column : Nat := 0
  narrow : Nat := 0
  continued : Nat := 0

/-- The margin of a line, the number of the line on which it ends, and the rest. -/
def margin? (line : Nat) (m : Margin) : List Char → Option (Margin × Nat × List Char)
  | ' ' :: cs => margin? line { m with column := m.column + 1, narrow := m.narrow + 1 } cs
  | '\t' :: cs =>
    margin? line { m with column := (m.column / 8 + 1) * 8, narrow := m.narrow + 1 } cs
  | '\x0c' :: cs => margin? line { m with column := 0, narrow := 0 } cs
  | ['\\', '\n'] => none
  | '\\' :: '\n' :: cs =>
    margin? (line + 1)
      { m with continued := if m.continued == 0 then m.column else m.continued } cs
  | '\\' :: _ => none
  | cs => some (m, line, cs)

/-- The width that counts, in both measures. -/
def Margin.width (m : Margin) : Nat × Nat :=
  if m.continued == 0 then (m.column, m.narrow) else (m.continued, m.continued)

def maxIndents : Nat := 100

def maxBrackets : Nat := 200

/-- The open indentations after a line of less width, and how many have been closed. -/
def closeIndents (width : Nat) : List (Nat × Nat) → Nat × List (Nat × Nat)
  | [] => (0, [])
  | (column, narrow) :: rest =>
    if width < column && !rest.isEmpty then
      let (n, left) := closeIndents width rest
      (n + 1, left)
    else (0, (column, narrow) :: rest)

/-! ### The scanner -/

/-- The state of the scanner: line, brackets, indentations, the line of the last visible token, and
the tokens, last first. -/
structure Scan where
  line : Nat := 1
  brackets : List Char := []
  indents : List (Nat × Nat) := [(0, 0)]
  before : Nat := 1
  found : List Token := []

/-- Adds a token that is not visible. -/
def Scan.mark (s : Scan) (kind : TokenKind) : Scan :=
  { s with found := ⟨kind, "", s.line, s.line, s.before⟩ :: s.found }

def Scan.add (s : Scan) (kind : TokenKind) (text : List Char) : Scan :=
  let last := s.line + text.count '\n'
  { s with
    line := last
    before := last
    found := ⟨kind, String.ofList text, s.line, last, s.before⟩ :: s.found }

/-- The indentation tokens of a line of a given width. -/
def Scan.indent? (s : Scan) (width narrow : Nat) : Option Scan :=
  match s.indents with
  | [] => none
  | (column, alternative) :: rest =>
    if width == column then
      if narrow == alternative then some s else none
    else if column < width then
      if maxIndents ≤ s.indents.length || narrow ≤ alternative then none
      else some { (s.mark .indent) with indents := (width, narrow) :: s.indents }
    else
      let (n, left) := closeIndents width ((column, alternative) :: rest)
      match left with
      | (column, alternative) :: _ =>
        if width == column && narrow == alternative then
          let marked := (List.range n).foldl (fun s _ => s.mark .dedent) s
          some { marked with indents := left }
        else none
      | [] => none

/-- The open brackets after an operator. -/
def brackets? (opened : List Char) (kind : TokenKind) (text : List Char) :
    Option (List Char) :=
  if kind ≠ .operator then some opened
  else
    match text with
    | ['('] | ['['] | ['\x7b'] =>
      if maxBrackets ≤ opened.length then none else some (text ++ opened)
    | [')'] =>
      match opened with
      | '(' :: opened => some opened
      | _ => none
    | [']'] =>
      match opened with
      | '[' :: opened => some opened
      | _ => none
    | ['\x7d'] =>
      match opened with
      | '\x7b' :: opened => some opened
      | _ => none
    | _ => some opened

def isSkipped (c : Char) : Bool := c == ' ' || c == '\t' || c == '\x0c'

mutual

def scanLine? : (fuel : Nat) → Scan → List Char → Option Scan
  | 0, _, _ => none
  | fuel + 1, s, cs => do
    let (m, line, rest) ← margin? s.line {} cs
    let s := { s with line := line }
    let blank := rest.head? == some '#' || rest.head? == some '\n'
    if blank then
      match rest.dropWhile (· ≠ '\n') with
      | _ :: rest => scanLine? fuel { s with line := s.line + 1 } rest
      | [] => none
    else if s.brackets.isEmpty then
      let s ← s.indent? m.width.1 m.width.2
      scanRest? fuel s rest
    else scanRest? fuel s rest

def scanRest? : (fuel : Nat) → Scan → List Char → Option Scan
  | 0, _, _ => none
  | fuel + 1, s, cs =>
    match cs.dropWhile isSkipped with
    | [] => if s.brackets.isEmpty then some (s.mark .finish) else none
    | '#' :: rest => scanRest? fuel s (rest.dropWhile (· ≠ '\n'))
    | '\n' :: rest =>
      let s := if s.brackets.isEmpty then s.mark .newline else s
      scanLine? fuel { s with line := s.line + 1 } rest
    | ['\\', '\n'] => none
    | '\\' :: '\n' :: rest => scanRest? fuel { s with line := s.line + 1 } rest
    | rest => do
      let (kind, text, rest) ← scanToken? rest
      let opened ← brackets? s.brackets kind text
      scanRest? fuel { (s.add kind text) with brackets := opened } rest

end

/-- All **tokens** of a source text; nothing if it is malformed. -/
def tokens? (cs : List Char) : Option (List Token) :=
  let text := unifyLines cs
  (scanLine? (2 * text.length + 4) {} text).map fun s => s.found.reverse

end DocTree.Python
