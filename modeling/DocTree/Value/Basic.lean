import DocTree.Number.Decimal

/-!
# Values

Entries of tables, nodes of outlines, replies and options are **values**: null, booleans, numbers,
texts, lists, and objects whose fields keep the order in which they were added.
-/

namespace DocTree

/-- A **value**: a piece of structured data. -/
inductive Value where
  | null
  | bool (b : Bool)
  | int (n : Int)
  | float (x : Double)
  | str (s : String)
  | list (items : List Value)
  | object (fields : List (String × Value))
deriving Inhabited

/-- The **kinds** of values. -/
inductive Value.Kind where
  | null
  | bool
  | int
  | float
  | str
  | list
  | object
deriving DecidableEq

def Value.Kind.word : Value.Kind → String
  | .null => "NoneType"
  | .bool => "bool"
  | .int => "int"
  | .float => "float"
  | .str => "str"
  | .list => "list"
  | .object => "dict"

def Value.kind : Value → Value.Kind
  | .null => .null
  | .bool _ => .bool
  | .int _ => .int
  | .float _ => .float
  | .str _ => .str
  | .list _ => .list
  | .object _ => .object

/-- The fields of an object, in the order in which their keys were first added. -/
abbrev Fields := List (String × Value)

/-! ### Fields -/

namespace Fields

def get? (fields : Fields) (key : String) : Option Value :=
  match fields with
  | [] => none
  | (k, v) :: rest => if k = key then some v else get? rest key

def has (fields : Fields) (key : String) : Bool := (get? fields key).isSome

/-- The fields with one of them **set**: an existing key keeps its place, a new one goes last. -/
def set (fields : Fields) (key : String) (value : Value) : Fields :=
  match fields with
  | [] => [(key, value)]
  | (k, v) :: rest => if k = key then (k, value) :: rest else (k, v) :: set rest key value

def erase (fields : Fields) (key : String) : Fields := fields.filter fun f => f.1 ≠ key

def keys (fields : Fields) : List String := fields.map Prod.fst

/-- All fields of `more` set in turn. -/
def union (fields more : Fields) : Fields :=
  more.foldl (fun acc f => acc.set f.1 f.2) fields

/-! ### Laws of fields -/

/-- A field just set is found. -/
@[simp] theorem get?_set_self (fields : Fields) (key : String) (value : Value) :
    (fields.set key value).get? key = some value := by
  induction fields with
  | nil => simp [set, get?]
  | cons f rest ih =>
    by_cases h : f.1 = key
    · simp [set, get?, h]
    · simp [set, get?, h, ih]

/-- Setting a field does not disturb the others. -/
theorem get?_set_of_ne (fields : Fields) {key other : String} (value : Value)
    (h : key ≠ other) : (fields.set key value).get? other = fields.get? other := by
  induction fields with
  | nil => simp [set, get?, h]
  | cons f rest ih =>
    obtain ⟨k, v⟩ := f
    by_cases hk : k = key
    · subst hk
      simp [set, get?, h]
    · by_cases ho : k = other
      · subst ho
        simp [set, get?, hk]
      · simp [set, get?, hk, ho, ih]

/-- An erased field is not found. -/
@[simp] theorem get?_erase_self (fields : Fields) (key : String) :
    (fields.erase key).get? key = none := by
  induction fields with
  | nil => rfl
  | cons f rest ih =>
    by_cases h : f.1 = key
    · simpa [erase, h] using ih
    · simpa [erase, h, get?] using ih

end Fields

namespace Value

/-! ### Equality -/

mutual

def beq : Value → Value → Bool
  | .null, .null => true
  | .bool a, .bool b => a == b
  | .int a, .int b => a == b
  | .float a, .float b => a == b
  | .str a, .str b => a == b
  | .list a, .list b => beqList a b
  | .object a, .object b => beqFields a b
  | _, _ => false

def beqList : List Value → List Value → Bool
  | [], [] => true
  | a :: as, b :: bs => beq a b && beqList as bs
  | _, _ => false

def beqFields : List (String × Value) → List (String × Value) → Bool
  | [], [] => true
  | (k, a) :: as, (l, b) :: bs => k == l && beq a b && beqFields as bs
  | _, _ => false

end

mutual

theorem eq_of_beq : ∀ {a b : Value}, beq a b = true → a = b
  | .null, .null, _ => rfl
  | .bool _, .bool _, h => by simpa [beq] using h
  | .int _, .int _, h => by simpa [beq] using h
  | .float _, .float _, h => by simpa [beq] using h
  | .str _, .str _, h => by simpa [beq] using h
  | .list a, .list b, h => congrArg Value.list (eq_of_beqList (a := a) (b := b) (by rwa [beq] at h))
  | .object a, .object b, h =>
    congrArg Value.object (eq_of_beqFields (a := a) (b := b) (by rwa [beq] at h))

theorem eq_of_beqList : ∀ {a b : List Value}, beqList a b = true → a = b
  | [], [], _ => rfl
  | _ :: _, _ :: _, h => by
    rw [beqList, Bool.and_eq_true] at h
    rw [eq_of_beq h.1, eq_of_beqList h.2]

theorem eq_of_beqFields : ∀ {a b : List (String × Value)}, beqFields a b = true → a = b
  | [], [], _ => rfl
  | (_, _) :: _, (_, _) :: _, h => by
    rw [beqFields, Bool.and_eq_true, Bool.and_eq_true] at h
    rw [eq_of_beqFields h.2, eq_of_beq h.1.2, of_decide_eq_true h.1.1]

end

mutual

theorem beq_refl : ∀ a : Value, beq a a = true
  | .null => rfl
  | .bool _ => by simp [beq]
  | .int _ => by simp [beq]
  | .float _ => by simp [beq]
  | .str _ => by simp [beq]
  | .list items => by rw [beq]; exact beqList_refl items
  | .object fields => by rw [beq]; exact beqFields_refl fields

theorem beqList_refl : ∀ a : List Value, beqList a a = true
  | [] => rfl
  | a :: as => by rw [beqList, beq_refl a, beqList_refl as]; rfl

theorem beqFields_refl : ∀ a : List (String × Value), beqFields a a = true
  | [] => rfl
  | (k, a) :: as => by rw [beqFields, beq_refl a, beqFields_refl as]; simp

end

/-- Equality of values can be decided. -/
instance : DecidableEq Value := fun a b =>
  if h : beq a b = true then .isTrue (eq_of_beq h)
  else .isFalse fun e => h (e ▸ beq_refl a)

/-! ### Distinct keys -/

mutual

/-- No object in the value has a **key twice**. -/
def DistinctKeys : Value → Prop
  | .list items => DistinctKeysList items
  | .object fields => (Fields.keys fields).Nodup ∧ DistinctKeysFields fields
  | _ => True

def DistinctKeysList : List Value → Prop
  | [] => True
  | v :: rest => DistinctKeys v ∧ DistinctKeysList rest

def DistinctKeysFields : List (String × Value) → Prop
  | [] => True
  | (_, v) :: rest => DistinctKeys v ∧ DistinctKeysFields rest

end

/-! ### Presence -/

/-- Whether a value counts as **present**: null, false, zero and everything empty do not. -/
def isTruthy : Value → Bool
  | .null => false
  | .bool b => b
  | .int n => n != 0
  | .float x => !x.isZero
  | .str s => !s.isEmpty
  | .list items => !items.isEmpty
  | .object fields => !fields.isEmpty

def isNull : Value → Bool
  | .null => true
  | _ => false

/-- The whole number a value stands for: `true` is one and `false` is zero. -/
def int? : Value → Option Int
  | .int n => some n
  | .bool b => some (if b then 1 else 0)
  | _ => none

def isInt (v : Value) : Bool := v.int?.isSome

/-! ### Equality of content -/

/-- Whether two numbers are equal; `none` if one of the values is not a number. -/
def sameNumber? : Value → Value → Option Bool
  | .float x, .float y => some (x.compare? y == some .eq)
  | .float x, b => b.int?.map fun n => x.compareInt? n == some .eq
  | a, .float y => a.int?.map fun n => y.compareInt? n == some .eq
  | a, b => do return (← a.int?) == (← b.int?)

mutual

/-- Whether two values have the **same content**: numbers as numbers, and objects in whatever order
of fields. -/
def same : Value → Value → Bool
  | .null, .null => true
  | .str a, .str b => a == b
  | .list a, .list b => sameList a b
  | .object a, .object b => a.length == b.length && sameFields a b
  | a, b => (sameNumber? a b).getD false

def sameList : List Value → List Value → Bool
  | [], [] => true
  | a :: as, b :: bs => same a b && sameList as bs
  | _, _ => false

/-- Whether every field is found, with the same content, among the others. -/
def sameFields : List (String × Value) → List (String × Value) → Bool
  | [], _ => true
  | (k, a) :: as, others =>
    (match Fields.get? others k with
      | some b => same a b
      | none => false) && sameFields as others

end

/-- Whether a value is exactly the given text. -/
def isStr (v : Value) (s : String) : Bool :=
  match v with
  | .str t => t == s
  | _ => false

/-! ### Building -/

/-- An optional value, null if it is missing. -/
def ofOption : Option Value → Value
  | some v => v
  | none => .null

def ofTexts (texts : List String) : Value := .list (texts.map .str)

def ofNat (n : Nat) : Value := .int n

end Value

end DocTree
