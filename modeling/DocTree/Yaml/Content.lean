import DocTree.Json.Printer
import DocTree.Value.Access
import DocTree.Yaml.Node

/-!
# Contents of nodes

A plain scalar without a tag is a number, a truth value or nothing if it is written like one, and a
text otherwise. Mappings can be merged into a mapping.
-/

namespace DocTree.Yaml

/-! ### What plain scalars stand for -/

/-- **What a scalar stands for**. -/
inductive Meaning where
  | nothing
  | truth
  | integer
  | fraction
  | text
  | merge
  | default
deriving DecidableEq

def truthWords : List (String × Bool) :=
  [("yes", true), ("no", false), ("true", true), ("false", false), ("on", true), ("off", false)]

/-- A word in lower case, with a capital, and in capitals. -/
def cases (word : String) : List String :=
  [word, word.capitalize, String.ofList (word.toList.map Char.toUpper)]

def unsigned : List Char → List Char
  | '-' :: cs | '+' :: cs => cs
  | cs => cs

/-- Whether a character is a digit or an underscore. -/
def isSpacedDigit (c : Char) : Bool := c.isDigit || c == '_'

/-- Whether characters are one of the numbers below sixty, after a colon each, and at least one. -/
def areSixtieths : List Char → Bool
  | ':' :: d :: e :: rest =>
    if d.isDigit && e.isDigit then
      d.toNat < 54 && (rest.isEmpty || areSixtieths rest)
    else d.isDigit && areSixtieths (e :: rest)
  | [':', d] => d.isDigit
  | _ => false

/-- Whether characters are those of a number that begins with another digit than zero. -/
def isPositive : List Char → Bool
  | c :: cs => c.isDigit && c != '0' && cs.all isSpacedDigit
  | [] => false

/-- Whether a scalar is written like an **integer**. -/
def isInteger (cs : List Char) : Bool :=
  match unsigned cs with
  | '0' :: 'b' :: rest => !rest.isEmpty && rest.all fun c => c == '0' || c == '1' || c == '_'
  | '0' :: 'x' :: rest => !rest.isEmpty && rest.all fun c => (hexDigit? c).isSome || c == '_'
  | ['0'] => true
  | '0' :: rest => rest.all fun c => ('0' ≤ c && c ≤ '7') || c == '_'
  | rest =>
    isPositive (rest.takeWhile isSpacedDigit) &&
      match rest.dropWhile isSpacedDigit with
      | [] => true
      | tail => areSixtieths tail

/-- Whether characters are an exponent with a sign, or nothing. -/
def isExponent : List Char → Bool
  | [] => true
  | e :: sign :: digits =>
    (e == 'e' || e == 'E') && (sign == '-' || sign == '+') && !digits.isEmpty &&
      digits.all Char.isDigit
  | _ => false

/-- Whether a scalar is written like a **fraction**. -/
def isFraction (cs : List Char) : Bool :=
  let rest := unsigned cs
  let whole := rest.takeWhile isSpacedDigit
  let tail := rest.dropWhile isSpacedDigit
  let special := fun words => words.any fun w : String => w.toList == cs
  special [".nan", ".NaN", ".NAN"] ||
  [".inf", ".Inf", ".INF"].any (fun w => w.toList == rest) ||
  match whole, tail with
  | [], '.' :: d :: after =>
    cs.head? == some '.' && d.isDigit && isExponent (after.dropWhile isSpacedDigit)
  | d :: _, '.' :: after => d.isDigit && isExponent (after.dropWhile isSpacedDigit)
  | d :: _, ':' :: _ =>
    match tail.dropWhile (fun c => c == ':' || c.isDigit) with
    | '.' :: after =>
      d.isDigit && after.all isSpacedDigit &&
        areSixtieths (tail.takeWhile fun c => c == ':' || c.isDigit)
    | _ => false
  | _, _ => false

/-- **What a plain scalar stands for**. -/
def meaningOf (text : String) : Meaning :=
  let cs := text.toList
  if ["", "~", "null", "Null", "NULL"].contains text then .nothing
  else if truthWords.any fun w => (cases w.1).contains text then .truth
  else if isFraction cs then .fraction
  else if isInteger cs then .integer
  else if text == "<<" then .merge
  else if text == "=" then .default
  else .text

/-! ### Values of scalars -/

def badContent : Failure := .malformedConfig .content

def numberOf (base : Nat) (cs : List Char) : Nat :=
  cs.foldl (fun n c => base * n + (hexDigit? c).getD 0) 0

def colonParts (cs : List Char) : List (List Char) :=
  cs.foldr
    (fun c parts =>
      match c, parts with
      | ':', parts => [] :: parts
      | c, part :: rest => (c :: part) :: rest
      | c, [] => [[c]])
    [[]]

def integerValue (text : String) : Except Failure Value := do
  let cs := text.toList.filter (· != '_')
  let sign : Int := if cs.head? == some '-' then -1 else 1
  let rest := unsigned cs
  let read := fun (s : List Char) =>
    match Text.readInteger (String.ofList s) with
    | .number n => pure n
    | .tooLong digits => throw (Failure.complaint (.tooManyDigits digits))
    | .malformed => throw (Failure.complaint (.notAnInteger (String.ofList s)))
  match rest with
  | ['0'] => return .int 0
  | '0' :: 'b' :: digits => return .int (sign * numberOf 2 digits)
  | '0' :: 'x' :: digits => return .int (sign * numberOf 16 digits)
  | '0' :: digits => return .int (sign * numberOf 8 digits)
  | rest =>
    if rest.contains ':' then
      let parts ← (colonParts rest).mapM read
      return .int (sign * parts.foldl (fun n p => 60 * n + p) 0)
    else return .int (sign * (← read rest))

/-- The digits of a decimal without its point, and how many stand after the point. -/
def decimalOf (negative : Bool) (cs : List Char) : Double :=
  let mantissa := cs.takeWhile fun c => c != 'e'
  let exponent := (cs.dropWhile fun c => c != 'e').drop 1
  let digits := mantissa.filter Char.isDigit
  let places := (mantissa.dropWhile (· != '.')).length - 1
  let power : Int :=
    match exponent with
    | '-' :: ds => -(numberOf 10 ds : Int)
    | '+' :: ds => numberOf 10 ds
    | ds => numberOf 10 ds
  Double.ofDecimal negative (numberOf 10 digits) (power - places)

def fractionValue (text : String) : Value :=
  let cs := Text.lowerList (text.toList.filter (· != '_'))
  let negative := cs.head? == some '-'
  let rest := unsigned cs
  if rest == ".inf".toList then .float (.infinite negative)
  else if rest == ".nan".toList then .float .nan
  else if rest.contains ':' then
    let parts := ((colonParts rest).map (decimalOf false)).reverse
    let sum := parts.foldl
      (fun (acc : Double × Nat) p =>
        (acc.1.add (p.mul (Double.ofInt acc.2)), acc.2 * 60))
      (Double.zero false, 1)
    .float (if negative then sum.1.neg else sum.1)
  else .float (decimalOf negative rest)

/-- What a tag stands for, if it is one for scalars. -/
def tagMeaning? (tag : String) : Option Meaning :=
  [("null", Meaning.nothing), ("bool", .truth), ("int", .integer), ("float", .fraction),
   ("str", .text), ("merge", .merge)].findSome? fun (name, meaning) =>
    if tag = "tag:yaml.org,2002:" ++ name then some meaning else none

def scalarMeaning (tag? : Option String) (isPlain : Bool) (text : String) : Except Failure Meaning :=
  match tag? with
  | some tag => (tagMeaning? tag).elim (.error badContent) .ok
  | none => .ok (if isPlain then meaningOf text else .text)

def scalarValue (meaning : Meaning) (text : String) : Except Failure Value := do
  match meaning with
  | .nothing => return .null
  | .text => return .str text
  | .truth =>
    match truthWords.lookup (String.ofList (Text.lowerList text.toList)) with
    | some b => return .bool b
    | none => throw (.missingKey (.str (String.ofList (Text.lowerList text.toList))))
  | .integer => integerValue text
  | .fraction =>
    if isFraction text.toList then return fractionValue text
    else if isInteger text.toList then return .float (decimalOf false text.toList)
    else throw badContent
  | .merge | .default => throw badContent

/-! ### Contents -/

/-- The **content of a node**: a value, or a mapping whose keys are values. -/
inductive Content where
  | scalar (value : Value)
  | sequence (items : List Content)
  | mapping (entries : List (Value × Content))

namespace Content

/-- The entries with one more; a known key keeps its place. -/
def set (key : Value) (content : Content) :
    List (Value × Content) → List (Value × Content)
  | [] => [(key, content)]
  | (k, c) :: rest =>
    if k.same key then (k, content) :: rest else (k, c) :: set key content rest

/-- The text of a key, as it is written in JSON. -/
def keyText : Value → String
  | .str s => s
  | key => Json.render Json.Style.line key

mutual

/-- The content as a value; keys become texts. -/
def toValue : Content → Value
  | .scalar v => v
  | .sequence items => .list (toValues items)
  | .mapping entries => .object (toFields entries)

def toValues : List Content → List Value
  | [] => []
  | c :: rest => toValue c :: toValues rest

def toFields : List (Value × Content) → Fields
  | [] => []
  | (k, c) :: rest => (keyText k, toValue c) :: toFields rest

end

end Content

namespace Node

/-- Whether a node is the key that merges. -/
def isMerge : Node → Bool
  | .scalar (some tag) _ _ => tag = "tag:yaml.org,2002:merge"
  | .scalar none true text => text = "<<"
  | _ => false

/-- The entries of a mapping **with those merged into it** before them. Sequences of mappings are
merged from the last on. -/
def flatten : (fuel : Nat) → List (Node × Node) → Except Failure (List (Node × Node))
  | 0, _ => .error .outOfFuel
  | fuel + 1, entries => do
    let merged ← (entries.filter fun e => e.1.isMerge).mapM fun (_, from') => do
      match from' with
      | .mapping _ more => flatten fuel more
      | .sequence _ items =>
        let lists ← items.mapM fun item =>
          match item with
          | .mapping _ more => flatten fuel more
          | _ => .error badContent
        return lists.reverse.flatten
      | .scalar _ _ _ => throw badContent
    return merged.flatten ++ entries.filter fun e => !e.1.isMerge

def keyValue : Node → Except Failure Value
  | .scalar tag? isPlain text => do
    match ← scalarMeaning tag? isPlain text with
    | .default => return .str text
    | meaning => scalarValue meaning text
  | _ => .error badContent

/-- Whether a collection may have a tag. -/
def checkTag (tag? : Option String) (name : String) : Except Failure Unit :=
  match tag? with
  | none => .ok ()
  | some tag => if tag = "tag:yaml.org,2002:" ++ name then .ok () else .error badContent

def content : (fuel : Nat) → Node → Except Failure Content
  | 0, _ => .error .outOfFuel
  | _ + 1, .scalar tag? isPlain text => do
    return .scalar (← scalarValue (← scalarMeaning tag? isPlain text) text)
  | fuel + 1, .sequence tag? items => do
    checkTag tag? "seq"
    return .sequence (← items.mapM (content fuel))
  | fuel + 1, .mapping tag? entries => do
    checkTag tag? "map"
    let entries ← flatten fuel entries
    let pairs ← entries.mapM fun (k, v) => do
      let key ← keyValue k
      return (key, ← content fuel v)
    return .mapping (pairs.foldl (fun found (k, c) => Content.set k c found) [])

end Node

/-- The content of a **whole text**, if there is any. -/
def read (text : String) : Except Failure (Option Content) := do
  let cs := text.toList
  if !cs.all isPrintable then throw (.malformedConfig .character)
  let (tokens, failure?) := Token.scan cs
  match ← Node.ofTokens tokens failure? with
  | some node => return some (← node.content (tokens.length + 2))
  | none => return none

end DocTree.Yaml
