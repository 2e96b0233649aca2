import DocTree.Text.Integer
import DocTree.Text.Search
import DocTree.Value.Basic

/-!
# Reading JSON

Fields keep the order of the text; a key that comes twice keeps its first place and takes its last
value. The words `NaN`, `Infinity` and `-Infinity` are read, and whole numbers of at most
`Text.digitLimit` digits. How deep brackets may be nested is up to whoever reads.
-/

namespace DocTree.Json

/-- Why a text is not read as JSON. -/
inductive Fault where
  | malformed
  | tooManyDigits (digits : Nat)
  | tooDeep
deriving DecidableEq, Repr

/-! ### White space and words -/

def isSpace (c : Char) : Bool := c == ' ' || c == '\t' || c == '\n' || c == '\r'

def skipSpace (cs : List Char) : List Char := cs.dropWhile isSpace

/-! ### Strings -/

def hexValue? (c : Char) : Option Nat :=
  if '0' ≤ c && c ≤ '9' then some (c.toNat - '0'.toNat)
  else if 'a' ≤ c && c ≤ 'f' then some (c.toNat - 'a'.toNat + 10)
  else if 'A' ≤ c && c ≤ 'F' then some (c.toNat - 'A'.toNat + 10)
  else none

def hexUnit? : List Char → Option (Nat × List Char)
  | a :: b :: c :: d :: rest => do
    let a ← hexValue? a
    let b ← hexValue? b
    let c ← hexValue? c
    let d ← hexValue? d
    return (((a * 16 + b) * 16 + c) * 16 + d, rest)
  | _ => none

/-- The character of a lone UTF-16 unit. A half of a pair has one of the last private characters in
its place. -/
def loneUnit (n : Nat) : Char :=
  Char.ofNat (if 0xd800 ≤ n && n < 0xe000 then n + 0x102000 else n)

/-- A character given by its UTF-16 units, after the escape's letter. -/
def escapedUnits? (cs : List Char) : Option (Char × List Char) := do
  let (high, rest) ← hexUnit? cs
  if 0xd800 ≤ high && high < 0xdc00 then
    match rest with
    | '\\' :: 'u' :: more =>
      match hexUnit? more with
      | some (low, rest') =>
        if 0xdc00 ≤ low && low < 0xe000 then
          return (Char.ofNat (0x10000 + (high - 0xd800) * 0x400 + (low - 0xdc00)), rest')
        else return (loneUnit high, rest)
      | none => return (loneUnit high, rest)
    | _ => return (loneUnit high, rest)
  else return (loneUnit high, rest)

def escapedLetter? : Char → Option Char
  | '"' => some '"'
  | '\\' => some '\\'
  | '/' => some '/'
  | 'b' => some (Char.ofNat 0x8)
  | 'f' => some (Char.ofNat 0xc)
  | 'n' => some '\n'
  | 'r' => some '\r'
  | 't' => some '\t'
  | _ => none

/-- The rest of a string after its quotation mark. Each step reads a character, so the length of the
text suffices. -/
def stringRest : Nat → List Char → List Char → Except Fault (List Char × List Char)
  | 0, _, _ => .error .malformed
  | _ + 1, _, [] => .error .malformed
  | fuel + 1, acc, c :: cs =>
    if c = '"' then .ok (acc.reverse, cs)
    else if c = '\\' then
      match cs with
      | 'u' :: rest =>
        match escapedUnits? rest with
        | some (d, rest') => stringRest fuel (d :: acc) rest'
        | none => .error .malformed
      | e :: rest =>
        match escapedLetter? e with
        | some d => stringRest fuel (d :: acc) rest
        | none => .error .malformed
      | [] => .error .malformed
    else if c.toNat < 0x20 then .error .malformed
    else stringRest fuel (c :: acc) cs

def string (cs : List Char) : Except Fault (String × List Char) := do
  let (chars, rest) ← stringRest (cs.length + 1) [] cs
  return (String.ofList chars, rest)

/-! ### Numbers -/

def digitsValue (ds : List Char) : Nat := ds.foldl (fun n d => 10 * n + (d.toNat - '0'.toNat)) 0

/-- The digits of a whole number: a zero alone, or digits that do not start with a zero. -/
def wholeDigits? : List Char → Option (List Char × List Char)
  | '0' :: cs => some (['0'], cs)
  | c :: cs =>
    if c.isDigit then some (c :: cs.takeWhile Char.isDigit, cs.dropWhile Char.isDigit) else none
  | [] => none

/-- The digits after a decimal point, if there is a point with a digit after it. -/
def fractionDigits : List Char → List Char × List Char
  | '.' :: c :: cs =>
    if c.isDigit then (c :: cs.takeWhile Char.isDigit, cs.dropWhile Char.isDigit)
    else ([], '.' :: c :: cs)
  | cs => ([], cs)

/-- The exponent, if there is a complete one. -/
def exponent? (cs : List Char) : Option (Int × List Char) :=
  match cs with
  | e :: rest =>
    if e = 'e' || e = 'E' then
      let (sign, rest) : Int × List Char :=
        match rest with
        | '-' :: r => (-1, r)
        | '+' :: r => (1, r)
        | r => (1, r)
      let ds := rest.takeWhile Char.isDigit
      if ds.isEmpty then none
      else some (sign * (digitsValue ds : Int), rest.dropWhile Char.isDigit)
    else none
  | [] => none

/-- A number after its sign. -/
def number (negative : Bool) (cs : List Char) : Except Fault (Value × List Char) :=
  match wholeDigits? cs with
  | none => .error .malformed
  | some (whole, rest) =>
    let (fraction, rest) := fractionDigits rest
    match exponent? rest, fraction with
    | none, [] =>
      if Text.digitLimit < whole.length then .error (.tooManyDigits whole.length)
      else
        let n : Int := digitsValue whole
        .ok (.int (if negative then -n else n), rest)
    | none, fraction =>
      .ok (.float (Double.ofDecimal negative (digitsValue (whole ++ fraction))
        (-(fraction.length : Int))), rest)
    | some (e, rest), fraction =>
      .ok (.float (Double.ofDecimal negative (digitsValue (whole ++ fraction))
        (e - (fraction.length : Int))), rest)

/-! ### Values -/

def wordValues : List (List Char × Value) :=
  [("null".toList, .null), ("true".toList, .bool true), ("false".toList, .bool false),
   ("NaN".toList, .float .nan), ("Infinity".toList, .float (.infinite false)),
   ("-Infinity".toList, .float (.infinite true))]

def word? (cs : List Char) : Option (Value × List Char) :=
  wordValues.findSome? fun (w, v) => (Text.after? w cs).map fun rest => (v, rest)

mutual

/-- Reads a value. `room` is the nesting that is still allowed. -/
def value : (fuel room : Nat) → List Char → Except Fault (Value × List Char)
  | 0, _, _ => .error .malformed
  | fuel + 1, room, cs =>
    match cs with
    | '"' :: rest => do
      let (s, rest) ← string rest
      return (.str s, rest)
    | '[' :: rest =>
      match room with
      | 0 => .error .tooDeep
      | room + 1 =>
        match skipSpace rest with
        | ']' :: rest => .ok (.list [], rest)
        | rest => do
          let (items, rest) ← listItems fuel room rest
          return (.list items, rest)
    | '\x7b' :: rest =>
      match room with
      | 0 => .error .tooDeep
      | room + 1 =>
        match skipSpace rest with
        | '\x7d' :: rest => .ok (.object [], rest)
        | rest => do
          let (fields, rest) ← objectFields fuel room [] rest
          return (.object fields, rest)
    | cs =>
      match word? cs with
      | some found => .ok found
      | none =>
        match cs with
        | '-' :: rest => number true rest
        | cs => number false cs

/-- Reads the items of a list up to its closing bracket. -/
def listItems : (fuel room : Nat) → List Char → Except Fault (List Value × List Char)
  | 0, _, _ => .error .malformed
  | fuel + 1, room, cs => do
    let (v, rest) ← value fuel room cs
    match skipSpace rest with
    | ']' :: rest => return ([v], rest)
    | ',' :: rest =>
      let (vs, rest) ← listItems fuel room (skipSpace rest)
      return (v :: vs, rest)
    | _ => .error .malformed

/-- Reads the fields of an object up to its closing brace, after the fields read before. -/
def objectFields : (fuel room : Nat) → Fields → List Char → Except Fault (Fields × List Char)
  | 0, _, _, _ => .error .malformed
  | fuel + 1, room, fields, cs =>
    match cs with
    | '"' :: rest => do
      let (key, rest) ← string rest
      match skipSpace rest with
      | ':' :: rest =>
        let (v, rest) ← value fuel room (skipSpace rest)
        let fields := fields.set key v
        match skipSpace rest with
        | '\x7d' :: rest => return (fields, rest)
        | ',' :: rest => objectFields fuel room fields (skipSpace rest)
        | _ => .error .malformed
      | _ => .error .malformed
    | _ => .error .malformed

end

/-- **Reads a JSON text** of one value, with brackets that are nested at most `nesting` deep. Every
two steps read a character, which bounds the budget. -/
def parseList (nesting : Nat) (cs : List Char) : Except Fault Value := do
  let (v, rest) ← value (2 * cs.length + 2) nesting (skipSpace cs)
  if (skipSpace rest).isEmpty then return v else .error .malformed

def parse (nesting : Nat) (s : String) : Except Fault Value := parseList nesting s.toList

end DocTree.Json
