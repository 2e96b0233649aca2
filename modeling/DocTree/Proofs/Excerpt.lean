import DocTree.Excerpt
import DocTree.Proofs.Value

/-!
# Pages that are read

An excerpt has texts for the pages up to its last one. A page before its first one is **counted from
the end**.
-/

namespace DocTree

/-- A position has a place less than a length behind the beginning, or a length before the end. -/
theorem Value.place?_eq_some_iff {length : Nat} {i : Int} {k : Nat} :
    Value.place? length i = some k ↔
      (0 ≤ i ∧ i < length ∧ (k : Int) = i) ∨ (i < 0 ∧ -length ≤ i ∧ (k : Int) = i + length) := by
  rw [place?]
  split
  · split
    · rw [Option.some.injEq]
      omega
    · constructor
      · rintro ⟨⟩
      · omega
  · split
    · rw [Option.some.injEq]
      omega
    · constructor
      · rintro ⟨⟩
      · omega

/-- The item at a place. -/
theorem Value.itemOf_of_place? {α : Type} {items : List α} {i : Int} {k : Nat}
    (h : Value.place? items.length i = some k) (hk : k < items.length) :
    Value.itemOf items i = .ok items[k] := by
  rw [itemOf, h, Option.bind_some, List.getElem?_eq_getElem hk]

/-- An item that is found is one of the items. -/
theorem Value.mem_of_itemOf {α : Type} {items : List α} {i : Int} {x : α}
    (h : Value.itemOf items i = .ok x) : x ∈ items := by
  rw [itemOf] at h
  split at h
  · rename_i hplace
    cases h
    obtain ⟨k, -, hk⟩ := Option.bind_eq_some_iff.mp hplace
    exact List.mem_of_getElem? hk
  · cases h

/-- The item at a position of a mapped list. -/
theorem Value.itemOf_map {α β : Type} (f : α → β) (items : List α) (i : Int) :
    Value.itemOf (items.map f) i = f <$> Value.itemOf items i := by
  rw [itemOf, itemOf, List.length_map]
  cases h : place? items.length i with
  | none => rfl
  | some k =>
    rw [Option.bind_some, Option.bind_some, List.getElem?_map]
    cases items[k]? <;> rfl

namespace Excerpt

variable {e : Excerpt} {page : Value}

/-- The excerpt **reads** a page: it has a text for it. -/
def Reads (e : Excerpt) (page : Value) : Prop := ∃ text, e.textOf page = .ok text

/-- A whole number is read at its distance from the first page. -/
theorem textOf_of_int? {n : Int} (h : page.int? = some n) :
    e.textOf page = Page.textAt e.pages (n - e.first) := by
  rw [textOf, Value.sub_of_int? h rfl]
  rfl

/-- **The pages that are read** reach from a length of the excerpt before the first page to the
last. -/
theorem reads_iff :
    e.Reads page ↔ ∃ n, page.int? = some n ∧ e.first - e.pages.length ≤ n ∧ n ≤ e.last := by
  constructor
  · rintro ⟨text, h⟩
    obtain ⟨position, hsub, h⟩ := bind_eq_ok.mp h
    cases hi : position.int? with
    | none =>
      rw [hi] at h
      cases h
    | some i =>
      rw [hi] at h
      refine ⟨i + e.first, Value.int?_of_sub_eq_ok hsub hi rfl, ?_⟩
      cases hplace : Value.place? e.pages.length i with
      | none =>
        have hitem : Value.itemOf e.pages i = .error .outOfRange := by
          rw [Value.itemOf, hplace]
          rfl
        dsimp only at h
        rw [Page.textAt, hitem] at h
        cases h
      | some k =>
        rw [Value.place?_eq_some_iff] at hplace
        rw [last]
        omega
  · rintro ⟨n, hn, hlow, hhigh⟩
    rw [last] at hhigh
    obtain ⟨k, hplace, hk⟩ : ∃ k, Value.place? e.pages.length (n - e.first) = some k ∧
        k < e.pages.length := by
      simp only [Value.place?_eq_some_iff]
      by_cases hfirst : e.first ≤ n
      · exact ⟨(n - e.first).toNat, by omega, by omega⟩
      · exact ⟨(n - e.first + e.pages.length).toNat, by omega, by omega⟩
    refine ⟨e.pages[k].text, ?_⟩
    rw [textOf_of_int? hn, Page.textAt, Value.itemOf_of_place? hplace hk]
    rfl

/-- A page before the first one is **counted from the end**: it is read a length later. -/
theorem textOf_of_before {n : Int} (h : page.int? = some n) (hlow : e.first - e.pages.length ≤ n)
    (hbefore : n < e.first) : e.textOf page = e.textOf (.int (n + e.pages.length)) := by
  rw [textOf_of_int? h, textOf_of_int? rfl, Page.textAt, Page.textAt]
  obtain ⟨k, hk⟩ : ∃ k : Nat, (k : Int) = n - e.first + e.pages.length :=
    ⟨(n - e.first + e.pages.length).toNat, by omega⟩
  have hlt : k < e.pages.length := by omega
  rw [Value.itemOf_of_place? (Value.place?_eq_some_iff.mpr (.inr (by omega))) hlt,
    Value.itemOf_of_place? (Value.place?_eq_some_iff.mpr (.inl (by omega))) hlt]

end Excerpt

end DocTree
