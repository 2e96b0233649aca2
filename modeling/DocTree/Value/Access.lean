import DocTree.Failure
import DocTree.Text.Integer

/-!
# Looking into values

Parts of a value whose kind is not known beforehand. Each operation fails with a cause of its own on
kinds without such parts.
-/

namespace DocTree.Value

/-! ### Fields -/

/-- The field of an object. It has to be there. -/
def field (v : Value) (key : String) : Except Failure Value :=
  match v with
  | .object fields =>
    match Fields.get? fields key with
    | some x => .ok x
    | none => .error (.missingKey (.str key))
  | v => .error (.wrongKind (.noFields v.kind))

/-- The field of an object, or `other` if it is not there. -/
def lookupOr (v : Value) (key : String) (other : Value) : Except Failure Value :=
  match v with
  | .object fields => .ok ((Fields.get? fields key).getD other)
  | v => .error (.noOperation (some v.kind))

/-- The field of an object, or null if it is not there. -/
def lookup (v : Value) (key : String) : Except Failure Value := v.lookupOr key .null

def setField (v : Value) (key : String) (x : Value) : Except Failure Value :=
  match v with
  | .object fields => .ok (.object (Fields.set fields key x))
  | _ => .error .wrongKind

/-- The object without a field, which has to be there. -/
def removeField (v : Value) (key : String) : Except Failure Value :=
  match v with
  | .object fields =>
    if Fields.has fields key then .ok (.object (Fields.erase fields key))
    else .error (.missingKey (.str key))
  | _ => .error .wrongKind

/-- An object without a field; any other value as it is. -/
def without (v : Value) (key : String) : Value :=
  match v with
  | .object fields => .object (Fields.erase fields key)
  | v => v

/-- The field of an object; nothing for any other value. -/
def field? (v : Value) (key : String) : Option Value :=
  match v with
  | .object fields => Fields.get? fields key
  | _ => none

/-- Whether a text is a key of an object, an item of a list or a part of a text. -/
def mentions (v : Value) (key : String) : Except Failure Bool :=
  match v with
  | .object fields => .ok (Fields.has fields key)
  | .list items => .ok (items.any fun x => x.isStr key)
  | .str s => .ok (Text.contains s key)
  | v => .error (.wrongKind (.notAContainer v.kind))

/-! ### Sequences -/

/-- The elements of a value: the items of a list, the keys of an object, the characters of a
text. -/
def elements : Value → Except Failure (List Value)
  | .list items => .ok items
  | .object fields => .ok ((Fields.keys fields).map .str)
  | .str s => .ok (s.toList.map fun c => .str (String.singleton c))
  | _ => .error .wrongKind

def size : Value → Except Failure Nat
  | .list items => .ok items.length
  | .object fields => .ok fields.length
  | .str s => .ok s.length
  | _ => .error .wrongKind

/-- The place that a position means in a sequence: a negative one counts from the end. -/
def place? (length : Nat) (i : Int) : Option Nat :=
  if 0 ≤ i then (if i.toNat < length then some i.toNat else none)
  else if (-i).toNat ≤ length then some (length - (-i).toNat) else none

/-- The item of a list at a position, which may count from the end. -/
def itemOf (items : List α) (i : Int) : Except Failure α :=
  match (place? items.length i).bind (items[·]?) with
  | some x => .ok x
  | none => .error .outOfRange

/-- The element of a list or a text at a position. -/
def item (v : Value) (i : Int) : Except Failure Value :=
  match v with
  | .list items => itemOf items i
  | .str s => (itemOf s.toList i).map fun c => .str (String.singleton c)
  | .object _ => .error (.missingKey (.int i))
  | _ => .error .wrongKind

/-- The element of a value at a position given as a value. -/
def itemAt (v : Value) (i : Value) : Except Failure Value :=
  match v, i with
  | .object fields, .str key => (Value.object fields).field key
  | .object _, .list _ | .object _, .object _ => .error .wrongKind
  | .object _, i => .error (.missingKey i)
  | v, i =>
    match i.int? with
    | some n => v.item n
    | none => .error .wrongKind

/-- The end of a cut: a negative one counts from the end, and both are held inside. -/
def cutPoint (length : Nat) (i : Int) : Nat :=
  if 0 ≤ i then min i.toNat length else length - (-i).toNat

/-- The part of a list from position `first` up to, but not including, position `last`. -/
def sliceList (items : List α) (first last : Int) : List α :=
  let a := cutPoint items.length first
  let b := cutPoint items.length last
  (items.take b).drop a

/-- The part of a list or a text between two positions. -/
def slice (v : Value) (first last : Int) : Except Failure Value :=
  match v with
  | .list items => .ok (.list (sliceList items first last))
  | .str s => .ok (.str (String.ofList (sliceList s.toList first last)))
  | _ => .error .wrongKind

/-! ### Conversions -/

/-- The text of a value that is a text. -/
def text : Value → Except Failure String
  | .str s => .ok s
  | _ => .error .wrongKind

/-- The text of a value on which a text operation is called. -/
def asText : Value → Except Failure String
  | .str s => .ok s
  | _ => .error .noOperation

/-- The whole number of a value that is one. -/
def integer (v : Value) : Except Failure Int :=
  match v.int? with
  | some n => .ok n
  | none => .error (.wrongKind (.notWhole v.kind))

/-- The whole number written in a text. -/
def parseInteger (s : String) : Except Failure Int :=
  match Text.readInteger s with
  | .number n => .ok n
  | .malformed => .error (.complaint (.notAnInteger s))
  | .tooLong digits => .error (.complaint (.tooManyDigits digits))

/-- The whole number that a value stands for: texts are read, fractions lose their fractional
part. -/
def toInteger : Value → Except Failure Int
  | .int n => .ok n
  | .bool b => .ok (if b then 1 else 0)
  | .str s => parseInteger s
  | .float .nan => .error (.complaint .notANumber)
  | .float x =>
    match x.truncate? with
    | some n => .ok n
    | none => .error .overflow
  | _ => .error .wrongKind

end DocTree.Value
