import DocTree.Value.Literal

/-!
# JSON text of values

The JSON text of a value, on one line or with an indentation. With the ASCII alphabet every other
character is written as an escape of its UTF-16 units.
-/

namespace DocTree.Json

/-- How JSON text is laid out: with ASCII characters only or not, and with an **indentation** or on
one line. -/
structure Style where
  ascii : Bool
  indent : Option String

def Style.line : Style := { ascii := false, indent := none }

def escapeUnit (n : Nat) : List Char := '\\' :: 'u' :: Text.hexDigits 4 n

/-- The escape of a code point by its one or two UTF-16 units. -/
def escapePoint (n : Nat) : List Char :=
  if n < 0x10000 then escapeUnit n
  else
    let m := n - 0x10000
    escapeUnit (0xd800 + m / 0x400) ++ escapeUnit (0xdc00 + m % 0x400)

/-- How one character is written inside a JSON string. -/
def escapeChar (ascii : Bool) (c : Char) : List Char :=
  if c = '"' then ['\\', '"']
  else if c = '\\' then ['\\', '\\']
  else if c = '\n' then ['\\', 'n']
  else if c = '\r' then ['\\', 'r']
  else if c = '\t' then ['\\', 't']
  else if c.toNat = 0x8 then ['\\', 'b']
  else if c.toNat = 0xc then ['\\', 'f']
  else if c.toNat < 0x20 then escapeUnit c.toNat
  else if ascii && 0x7f ≤ c.toNat then escapePoint c.toNat
  else [c]

/-- The characters of a **JSON string**, with its quotation marks. -/
def quoteList (ascii : Bool) (cs : List Char) : List Char :=
  '"' :: (cs.flatMap (escapeChar ascii) ++ ['"'])

def quote (ascii : Bool) (s : String) : String := String.ofList (quoteList ascii s.toList)

def floatText : Double → String
  | .nan => "NaN"
  | .infinite s => if s then "-Infinity" else "Infinity"
  | x => x.text

/-- A line break with the indentation of a level, or nothing on a single line. -/
def lineBreak (style : Style) (level : Nat) : String :=
  match style.indent with
  | none => ""
  | some unit => "\n" ++ String.join (List.replicate level unit)

def separator (style : Style) (level : Nat) : String :=
  match style.indent with
  | none => ", "
  | some _ => "," ++ lineBreak style level

/-- Rendered items between an opening and a closing bracket. -/
def enclose (style : Style) (level : Nat) (opening closing : String) (items : List String) :
    String :=
  if items.isEmpty then opening ++ closing
  else
    opening ++ lineBreak style (level + 1) ++ Text.join (separator style (level + 1)) items ++
      lineBreak style level ++ closing

mutual

/-- The JSON text of a value inside `level` brackets. -/
def renderAt (style : Style) (level : Nat) : Value → String
  | .null => "null"
  | .bool b => if b then "true" else "false"
  | .int n => Decimal.intText n
  | .float x => floatText x
  | .str s => quote style.ascii s
  | .list items => enclose style level "[" "]" (renderItems style (level + 1) items)
  | .object fields => enclose style level "\x7b" "\x7d" (renderFields style (level + 1) fields)

def renderItems (style : Style) (level : Nat) : List Value → List String
  | [] => []
  | v :: rest => renderAt style level v :: renderItems style level rest

def renderFields (style : Style) (level : Nat) : List (String × Value) → List String
  | [] => []
  | (k, v) :: rest =>
    (quote style.ascii k ++ ": " ++ renderAt style level v) :: renderFields style level rest

end

def render (style : Style) (v : Value) : String := renderAt style 0 v

end DocTree.Json
