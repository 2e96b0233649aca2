import DocTree.Value.Arith
import Mathlib.Data.List.Forall2

/-!
# Laws of reading and changing values

What operations on values give where they succeed. A whole number may be given by a boolean, so the
laws are stated for every value that stands for one.
-/

namespace DocTree

open List

variable {k m n : Int} {key other : String} {a b v x : Value}

variable {α β : Type} {as : List α} {bs : List β}

/-! ### Pure results -/

/-- **One pure result after another** succeeds exactly if both do. -/
theorem bind_eq_ok {ε : Type} {x : Except ε α} {f : α → Except ε β} {b : β} :
    (x >>= f) = .ok b ↔ ∃ a, x = .ok a ∧ f a = .ok b := by
  cases x with
  | error why =>
    constructor
    · intro h
      cases h
    · rintro ⟨a, h, -⟩
      cases h
  | ok a =>
    constructor
    · exact fun h => ⟨a, rfl, h⟩
    · rintro ⟨_, h, hb⟩
      cases h
      exact hb

/-- Two pure results that succeed, one after the other. -/
theorem bind_ok {ε : Type} {x : Except ε α} {f : α → Except ε β} {a : α} {b : β} (h : x = .ok a)
    (hf : f a = .ok b) : (x >>= f) = .ok b :=
  bind_eq_ok.mpr ⟨a, h, hf⟩

/-- The image of a pure result is that of a success. -/
theorem map_eq_ok_iff {ε : Type} {f : α → β} {x : Except ε α} {b : β} :
    f <$> x = .ok b ↔ ∃ a, x = .ok a ∧ b = f a := by
  cases x with
  | error why => simp [Functor.map, Except.map]
  | ok a => simp [Functor.map, Except.map, eq_comm]

/-- A list has **results for its elements** exactly if every element has one. -/
theorem mapM_eq_ok_iff {f : α → Except Failure β} :
    as.mapM f = .ok bs ↔ Forall₂ (fun a b => f a = .ok b) as bs := by
  induction as generalizing bs with
  | nil =>
    rw [mapM_nil, forall₂_nil_left_iff]
    exact ⟨fun h => (Except.ok.inj h).symm, fun h => congrArg Except.ok h.symm⟩
  | cons a as ih =>
    rw [mapM_cons, forall₂_cons_left_iff, bind_eq_ok]
    constructor
    · rintro ⟨b, hb, h⟩
      obtain ⟨rest, hrest, h⟩ := bind_eq_ok.mp h
      exact ⟨b, rest, hb, ih.mp hrest, (Except.ok.inj h).symm⟩
    · rintro ⟨b, rest, hb, hrest, rfl⟩
      exact ⟨b, hb, bind_ok (ih.mpr hrest) rfl⟩

/-- A function that goes through a list **element by element**. -/
theorem eq_mapM {f : α → Except Failure β} {g : List α → Except Failure (List β)}
    (hnil : g [] = .ok []) (hcons : ∀ a as, g (a :: as) = do return (← f a) :: (← g as))
    (as : List α) : g as = as.mapM f := by
  induction as with
  | nil => exact hnil
  | cons a as ih => rw [hcons, mapM_cons, ih]

/-- Where each element has a partner, there is a list of partners. -/
theorem exists_forall₂ {R : α → β → Prop} (h : ∀ a ∈ as, ∃ b, R a b) :
    ∃ bs, Forall₂ R as bs := by
  induction as with
  | nil => exact ⟨[], .nil⟩
  | cons a as ih =>
    obtain ⟨b, hb⟩ := h a (.head _)
    obtain ⟨bs, hbs⟩ := ih fun a ha => h a (.tail _ ha)
    exact ⟨b :: bs, .cons hb hbs⟩

/-- A relation that follows for each element holds of the lists. -/
theorem forall₂_imp_of_mem {R S : α → β → Prop} (h : Forall₂ R as bs)
    (himp : ∀ a ∈ as, ∀ b, R a b → S a b) : Forall₂ S as bs := by
  induction h with
  | nil => exact .nil
  | @cons a b as bs hab _ ih =>
    exact .cons (himp a (.head _) b hab)
      (ih fun a ha => himp a (.tail _ ha))

/-- In lists that are related element by element, the partners are elements as well. -/
theorem forall₂_and_mem {R : α → β → Prop} (h : Forall₂ R as bs) :
    Forall₂ (fun a b => R a b ∧ b ∈ bs) as bs :=
  (forall₂_imp_of_mem h.flip fun _ hb _ hab => ⟨hab, hb⟩).flip

/-- What a filter with an accumulator keeps. -/
private theorem mem_filterAuxM_iff {p : α → Except Failure Bool} {as acc bs : List α}
    (h : List.filterAuxM p as acc = .ok bs) (b : α) :
    b ∈ bs ↔ b ∈ acc ∨ b ∈ as ∧ p b = .ok true := by
  induction as generalizing acc with
  | nil =>
    cases h
    simp
  | cons a as ih =>
    obtain ⟨keep, hkeep, h⟩ := bind_eq_ok.mp h
    rw [ih h]
    cases keep with
    | false =>
      have hne : p b = .ok true → b ≠ a := by
        rintro hb rfl
        cases hkeep.symm.trans hb
      simp only [cond_false, mem_cons]
      grind
    | true =>
      simp only [cond_true, mem_cons]
      grind

/-- What is kept of a list is what **has the property**. -/
theorem mem_filterM_iff {p : α → Except Failure Bool} {as bs : List α}
    (h : as.filterM p = .ok bs) (b : α) : b ∈ bs ↔ b ∈ as ∧ p b = .ok true := by
  obtain ⟨kept, hkept, h⟩ := bind_eq_ok.mp h
  cases h
  rw [mem_reverse, mem_filterAuxM_iff hkept]
  simp

/-- What is kept of the **results for the elements** of a list. -/
theorem exists_of_filterMapM {f : α → Except Failure (Option β)} (h : as.filterMapM f = .ok bs) :
    ∃ os, Forall₂ (fun a o => f a = .ok o) as os ∧ bs = os.filterMap id := by
  induction as generalizing bs with
  | nil =>
    cases h
    exact ⟨[], .nil, rfl⟩
  | cons a as ih =>
    rw [filterMapM_cons] at h
    obtain ⟨o, ho, h⟩ := bind_eq_ok.mp h
    cases o with
    | none =>
      obtain ⟨os, hos, rfl⟩ := ih h
      exact ⟨none :: os, .cons ho hos, rfl⟩
    | some b =>
      obtain ⟨rest, hrest, h⟩ := bind_eq_ok.mp h
      obtain ⟨os, hos, rfl⟩ := ih hrest
      cases h
      exact ⟨some b :: os, .cons ho hos, rfl⟩

/-! ### Fields -/

namespace Fields

/-- A field that is set twice keeps the second value only. -/
@[simp] theorem set_set (fields : Fields) (key : String) (u v : Value) :
    (fields.set key u).set key v = fields.set key v := by
  induction fields with
  | nil => simp [set]
  | cons f rest ih =>
    by_cases h : f.1 = key
    · simp [set, h]
    · simp [set, h, ih]

/-- Fields that are there can be set in any order. -/
theorem set_comm {fields : Fields} (hkey : fields.get? key = some v) (hne : key ≠ other)
    (x y : Value) : (fields.set key x).set other y = (fields.set other y).set key x := by
  induction fields with
  | nil => cases hkey
  | cons f rest ih =>
    obtain ⟨k, u⟩ := f
    by_cases hk : k = key
    · subst hk
      simp [set, hne]
    · rw [get?, if_neg hk] at hkey
      by_cases ho : k = other
      · subst ho
        simp [set, hk]
      · simp [set, hk, ho, ih hkey]

/-- A new field is put at the end. -/
theorem set_of_not_mem_keys {fields : Fields} (h : key ∉ fields.keys) (v : Value) :
    fields.set key v = fields ++ [(key, v)] := by
  induction fields with
  | nil => rfl
  | cons f fields ih =>
    obtain ⟨hne, hk⟩ := not_or.mp (mt mem_cons.mpr h)
    rw [set, if_neg (Ne.symm hne), ih hk, cons_append]

/-- Setting a field to what it is changes nothing. -/
theorem set_of_get? {fields : Fields} (h : fields.get? key = some v) :
    fields.set key v = fields := by
  induction fields with
  | nil => cases h
  | cons f rest ih =>
    obtain ⟨k, u⟩ := f
    by_cases hk : k = key
    · simp only [get?, hk, if_true, Option.some.injEq] at h
      simp [set, hk, h]
    · simp only [get?, hk, if_false] at h
      simp [set, hk, ih h]

/-- Erasing a field does not disturb the others. -/
theorem get?_erase_of_ne (fields : Fields) (h : key ≠ other) :
    (fields.erase key).get? other = fields.get? other := by
  induction fields with
  | nil => rfl
  | cons f rest ih =>
    obtain ⟨k, v⟩ := f
    by_cases hk : k = key
    · subst hk
      simpa [erase, get?, h] using ih
    · by_cases ho : k = other
      · subst ho
        simp [erase, get?, hk]
      · simpa [erase, get?, hk, ho] using ih

end Fields

namespace Value

/-- The field of an object is looked up in its fields. -/
@[simp] theorem field?_object (fields : Fields) (key : String) :
    (Value.object fields).field? key = fields.get? key := rfl

/-- Only objects have fields. -/
theorem exists_object_of_field? (h : v.field? key = some x) :
    ∃ fields, v = .object fields ∧ Fields.get? fields key = some x := by
  cases v with
  | object fields => exact ⟨fields, rfl, h⟩
  | _ => cases h

/-- A field that has to be there is found if it is. -/
theorem field_eq_ok_iff : v.field key = .ok x ↔ v.field? key = some x := by
  cases v with
  | object fields =>
    rw [field, field?_object]
    cases Fields.get? fields key <;> simp
  | _ => simp [field, field?]

/-- A field that may be missing is null then. -/
theorem lookup_eq_ok_iff :
    v.lookup key = .ok x ↔
      ∃ fields, v = .object fields ∧ (Fields.get? fields key).getD .null = x := by
  cases v with
  | object fields => simp [lookup, lookupOr]
  | _ => simp [lookup, lookupOr]

/-- A field that is there is looked up. -/
theorem lookup_of_field? (h : v.field? key = some x) : v.lookup key = .ok x := by
  obtain ⟨fields, rfl, hx⟩ := exists_object_of_field? h
  exact lookup_eq_ok_iff.mpr ⟨fields, rfl, by rw [hx]; rfl⟩

/-- A default is not needed for a field that is there. -/
theorem lookupOr_of_field? (h : v.field? key = some x) (default : Value) :
    v.lookupOr key default = .ok x := by
  obtain ⟨fields, rfl, hx⟩ := exists_object_of_field? h
  rw [lookupOr, hx]
  rfl

/-- Fields are set in objects. -/
theorem setField_eq_ok_iff {w : Value} :
    v.setField key x = .ok w ↔
      ∃ fields, v = .object fields ∧ w = .object (Fields.set fields key x) := by
  cases v with
  | object fields => simp [setField, eq_comm]
  | _ => simp [setField]

/-! ### Whole numbers -/

/-- The whole number in a field. -/
def intField? (v : Value) (key : String) : Option Int := (v.field? key).bind int?

/-- The whole number in a field. -/
theorem intField?_eq_some_iff :
    v.intField? key = some n ↔ ∃ x, v.field? key = some x ∧ x.int? = some n :=
  Option.bind_eq_some_iff

/-- A field that is missing has no whole number in it, as if it were null. -/
theorem intField?_eq_getD (v : Value) (key : String) :
    v.intField? key = ((v.field? key).getD .null).int? := by
  rw [intField?]
  cases v.field? key <;> rfl

/-- The whole number in a field that was set. -/
@[simp] theorem intField?_set_self (fields : Fields) (key : String) (x : Value) :
    (Value.object (fields.set key x)).intField? key = x.int? := by
  rw [intField?, field?_object, Fields.get?_set_self]
  rfl

/-- Setting a field keeps the numbers in the others. -/
theorem intField?_set_of_ne (fields : Fields) (x : Value) (h : key ≠ other) :
    (Value.object (fields.set key x)).intField? other = (Value.object fields).intField? other := by
  rw [intField?, intField?, field?_object, field?_object, Fields.get?_set_of_ne _ _ h]

/-- A value that stands for a whole number is one, or a boolean. -/
theorem int?_eq_some_iff :
    v.int? = some n ↔ v = .int n ∨ ∃ b, v = .bool b ∧ n = if b then 1 else 0 := by
  cases v with
  | int m => simp [int?]
  | bool b => simp [int?, eq_comm]
  | _ => simp [int?]

/-- A whole number is not null. -/
theorem isNull_of_int? (h : v.int? = some n) : v.isNull = false := by
  obtain rfl | ⟨b, rfl, -⟩ := int?_eq_some_iff.mp h <;> rfl

/-- Only null is null. -/
theorem eq_null_of_isNull (h : v.isNull = true) : v = .null := by
  cases v with
  | null => rfl
  | _ => cases h

/-- Only whole numbers are integers. -/
theorem integer_eq_ok_iff : v.integer = .ok n ↔ v.int? = some n := by
  rw [integer]
  cases v.int? <;> simp

/-- A whole number is read as itself. -/
theorem toInteger_of_int? (h : v.int? = some n) : v.toInteger = .ok n := by
  obtain rfl | ⟨b, rfl, rfl⟩ := int?_eq_some_iff.mp h <;> rfl

section

variable (ha : a.int? = some m) (hb : b.int? = some n)
include ha hb

/-- Whole numbers are subtracted. -/
theorem sub_of_int? : a.sub b = .ok (.int (m - n)) := by
  rw [sub, arith, ha, hb]

/-- Whole numbers are added. -/
theorem add_of_int? : a.add b = .ok (.int (m + n)) := by
  obtain rfl | ⟨x, rfl, rfl⟩ := int?_eq_some_iff.mp ha <;>
    rw [add, arith, ha, hb] <;> rintro _ _ ⟨⟩

/-- Whole numbers are compared. -/
theorem compare?_of_int? : compare? a b = .ok (some (compare m n)) := by
  obtain rfl | ⟨x, rfl, rfl⟩ := int?_eq_some_iff.mp ha <;>
    obtain rfl | ⟨y, rfl, rfl⟩ := int?_eq_some_iff.mp hb <;> simp [compare?, int?]

/-- Whole numbers are ordered strictly. -/
theorem less_of_int? : a.less b = .ok (decide (m < n)) := by
  rw [less, compare?_of_int? ha hb]
  change Except.ok _ = Except.ok _
  rw [Except.ok.injEq, Bool.eq_iff_iff, beq_iff_eq, Option.some.injEq, Int.compare_eq_lt,
    decide_eq_true_iff]

/-- Whole numbers are ordered. -/
theorem atMost_of_int? : a.atMost b = .ok (decide (m ≤ n)) := by
  rw [atMost, compare?_of_int? ha hb]
  change Except.ok _ = Except.ok _
  rw [Except.ok.injEq, Bool.eq_iff_iff, Bool.or_eq_true, beq_iff_eq, beq_iff_eq,
    Option.some.injEq, Option.some.injEq, Int.compare_eq_lt, Int.compare_eq_eq,
    ← Int.le_iff_lt_or_eq, decide_eq_true_iff]

end

/-- A whole number that comes out of an operation on numbers comes from whole numbers. -/
theorem int?_of_arith_eq_ok {whole : Int → Int → Int} {fraction : Double → Double → Double}
    {mismatch : Kind → Kind → Mismatch} {c : Value} (h : arith whole fraction mismatch a b = .ok c)
    (hc : c.int? = some k) (hb : b.int? = some n) : ∃ m, a.int? = some m ∧ k = whole m n := by
  rw [arith, hb] at h
  cases ha : a.int? with
  | some m =>
    rw [ha] at h
    cases h
    exact ⟨m, rfl, (Option.some.inj hc).symm⟩
  | none =>
    rw [ha] at h
    dsimp only at h
    split at h
    · obtain ⟨x, -, h⟩ := bind_eq_ok.mp h
      obtain ⟨y, -, h⟩ := bind_eq_ok.mp h
      cases h
      cases hc
    · cases h

/-- A difference that is a whole number is one of whole numbers. -/
theorem int?_of_sub_eq_ok {d : Value} (h : a.sub b = .ok d) (hd : d.int? = some k)
    (hb : b.int? = some n) : a.int? = some (k + n) := by
  obtain ⟨m, hm, rfl⟩ := int?_of_arith_eq_ok h hd hb
  rw [hm, Int.sub_add_cancel]

/-- A sum that is a whole number is one of whole numbers. -/
theorem int?_of_add_eq_ok {c : Value} (h : a.add b = .ok c) (hc : c.int? = some k)
    (hb : b.int? = some n) : a.int? = some (k - n) := by
  unfold add at h
  split at h
  · cases hb
  · cases hb
  · obtain ⟨m, hm, rfl⟩ := int?_of_arith_eq_ok h hc hb
    rw [hm, Int.add_sub_cancel]

/-- Whole numbers are the same if they are equal. -/
@[simp] theorem same_int (m n : Int) : same (.int m) (.int n) = (m == n) := by
  simp [same, sameNumber?, int?]

/-- Texts are the same if they are equal. -/
@[simp] theorem same_str (s t : String) : same (.str s) (.str t) = (s == t) := by
  simp [same]

/-- Only a text is that text. -/
theorem isStr_iff {v : Value} {s : String} : v.isStr s = true ↔ v = .str s := by
  cases v <;> simp [isStr]

end Value

end DocTree
