import DocTree.Outline.Format
import DocTree.Outline.Number
import DocTree.Outline.PageText
import DocTree.Outline.Prune
import DocTree.Outline.Rebuild
import DocTree.Outline.Summary
import DocTree.Proofs.Run
import DocTree.Proofs.Value
import Mathlib.Data.Option.Basic

/-!
# Operations that walk through outlines

Adding texts, formatting, assigning values and dropping texts all walk through lists and the field
`nodes`. What they do is said by looking fields up.
-/

namespace DocTree.Outline

open List

variable {fs gs : Fields} {keyOf : Fields → Option String} {order : List String}
  {items : List Value} {key : String} {v w : Value} {textOf : Value → Value → Except Failure String}
  {R : Value → Value → Prop}

/-! ### Looking fields up -/

/-- The fields `gs` are the fields `fs`, of which only `nodes` is **changed**. -/
structure Lifts (R : Value → Value → Prop) (fs gs : Fields) : Prop where
  other : ∀ key, key ≠ "nodes" → gs.get? key = fs.get? key
  nodes : Option.Rel R (fs.get? "nodes") (gs.get? "nodes")

/-- Without branches there is nothing to relate. -/
theorem Lifts.nil : Lifts R [] [] := ⟨fun _ _ => rfl, .none⟩

/-- At the field of branches. -/
theorem Lifts.here (h : R v w) (rest : Fields) :
    Lifts R (("nodes", v) :: rest) (("nodes", w) :: rest) := by
  refine ⟨fun key hkey => ?_, .some h⟩
  rw [Fields.get?, Fields.get?, if_neg hkey.symm, if_neg hkey.symm]

/-- At another field. -/
theorem Lifts.there (h : Lifts R fs gs) {k : String} (hk : k ≠ "nodes") (v : Value) :
    Lifts R ((k, v) :: fs) ((k, v) :: gs) := by
  refine ⟨fun key hkey => ?_, ?_⟩
  · rw [Fields.get?, Fields.get?, h.other key hkey]
  · rw [Fields.get?, Fields.get?, if_neg hk, if_neg hk]
    exact h.nodes

/-- Fields without `nodes` have none afterwards. -/
theorem Lifts.get?_eq_none (h : Lifts R fs gs) (hfs : fs.get? "nodes" = none) :
    gs.get? "nodes" = none := by
  have hnodes := h.nodes
  rw [hfs] at hnodes
  generalize gs.get? "nodes" = found at hnodes ⊢
  cases hnodes
  rfl

/-- Branches are related to branches. -/
theorem Lifts.exists_of_get? (h : Lifts R fs gs) (hfs : fs.get? "nodes" = some v) :
    ∃ w, gs.get? "nodes" = some w ∧ R v w := by
  have hnodes := h.nodes
  rw [hfs] at hnodes
  generalize gs.get? "nodes" = found at hnodes ⊢
  cases hnodes with
  | some hvw => exact ⟨_, rfl, hvw⟩

/-- The fields with `nodes` changed by an operation. -/
def mapNodes (f : Value → Except Failure Value) : Fields → Except Failure Fields
  | [] => .ok []
  | (k, v) :: rest => do
    if k = "nodes" then return (k, ← f v) :: rest else return (k, v) :: (← mapNodes f rest)

/-- Changing branches relates them. -/
theorem lifts_of_mapNodes {f : Value → Except Failure Value} (h : mapNodes f fs = .ok gs) :
    Lifts (fun v w => f v = .ok w) fs gs := by
  induction fs generalizing gs with
  | nil =>
    cases h
    exact .nil
  | cons field rest ih =>
    obtain ⟨k, v⟩ := field
    rw [mapNodes] at h
    split at h
    · rename_i hk
      subst hk
      obtain ⟨w, hw, h⟩ := bind_eq_ok.mp h
      cases h
      exact .here hw rest
    · rename_i hk
      obtain ⟨gs, hgs, h⟩ := bind_eq_ok.mp h
      cases h
      exact (ih hgs).there hk v

/-- Branches that can be changed are. -/
theorem exists_mapNodes {f : Value → Except Failure Value}
    (h : ∀ v, fs.get? "nodes" = some v → ∃ w, f v = .ok w) :
    ∃ gs, mapNodes f fs = .ok gs := by
  induction fs with
  | nil => exact ⟨[], rfl⟩
  | cons field rest ih =>
    obtain ⟨k, v⟩ := field
    by_cases hk : k = "nodes"
    · obtain ⟨w, hw⟩ := h v (by rw [Fields.get?, if_pos hk])
      refine ⟨(k, w) :: rest, ?_⟩
      rw [mapNodes, if_pos hk, hw]
      rfl
    · obtain ⟨gs, hgs⟩ := ih fun u hu => h u (by rwa [Fields.get?, if_neg hk])
      refine ⟨(k, v) :: gs, ?_⟩
      rw [mapNodes, if_neg hk, hgs]
      rfl

/-- What is filtered by keys is found by its key. -/
theorem get?_filter (p : String → Bool) (fs : Fields) (key : String) :
    Fields.get? (fs.filter fun f => p f.1) key = if p key then fs.get? key else none := by
  induction fs with
  | nil => simp [Fields.get?]
  | cons f rest ih =>
    obtain ⟨k, v⟩ := f
    by_cases hk : k = key
    · subst hk
      cases hp : p k <;> simp [Fields.get?, hp, ih]
    · cases hp : p k <;> simp [Fields.get?, hp, hk, ih]

/-- A field of two parts. -/
theorem get?_append (fs gs : Fields) (key : String) :
    Fields.get? (fs ++ gs) key = (fs.get? key).or (gs.get? key) := by
  induction fs with
  | nil => rfl
  | cons f rest ih =>
    rw [cons_append, Fields.get?, Fields.get?]
    split
    · rfl
    · exact ih

/-- A field is picked **when its key comes up**, and stays until it is picked again. -/
theorem get?_foldl_pick (fs : Fields) {pick : Fields → String → Fields}
    (hself : ∀ acc, Fields.get? (pick acc key) key = (fs.get? key).or (acc.get? key))
    (hother : ∀ acc k, k ≠ key → Fields.get? (pick acc k) key = acc.get? key)
    (order : List String) (acc : Fields) :
    Fields.get? (order.foldl pick acc) key =
      if key ∈ order then (fs.get? key).or (acc.get? key)
      else acc.get? key := by
  induction order generalizing acc with
  | nil => simp
  | cons k order ih =>
    rw [foldl_cons, ih]
    by_cases hk : k = key
    · subst hk
      rw [hself]
      cases fs.get? k <;> simp
    · rw [hother acc k hk]
      simp [Ne.symm hk]

/-- Fields in an order are those that the order names. -/
theorem get?_reorder (order : List String) (fs : Fields) (key : String) :
    Fields.get? (reorder order fs) key = if key ∈ order then fs.get? key else none := by
  refine (get?_foldl_pick fs (fun acc => ?_) (fun acc k hk => ?_) order []).trans ?_
  · cases fs.get? key with
    | none => rfl
    | some v => exact Fields.get?_set_self acc key v
  · cases fs.get? k with
    | none => rfl
    | some v => exact Fields.get?_set_of_ne acc v hk
  · simp [Fields.get?]

/-! ### Induction -/

/-- A field that is found is there. -/
theorem mem_of_get? (h : fs.get? key = some v) : (key, v) ∈ fs := by
  induction fs with
  | nil => cases h
  | cons f rest ih =>
    obtain ⟨k, u⟩ := f
    rw [Fields.get?] at h
    split at h
    · rename_i hk
      cases h
      rw [hk]
      exact .head _
    · exact .tail _ (ih h)

/-- **Induction on outlines**, through lists and the field `nodes`. -/
theorem outline_induction {motive : Value → Prop}
    (list : ∀ items, (∀ v ∈ items, motive v) → motive (.list items))
    (object : ∀ fs, (∀ v, Fields.get? fs "nodes" = some v → motive v) → motive (.object fs))
    (other : ∀ v, (∀ items, v ≠ .list items) → (∀ fs, v ≠ .object fs) → motive v) :
    ∀ v, motive v
  | .list items => list items fun v _ => outline_induction list object other v
  | .object fs => object fs fun v _ => outline_induction list object other v
  | .null => other _ nofun nofun
  | .bool _ => other _ nofun nofun
  | .int _ => other _ nofun nofun
  | .float _ => other _ nofun nofun
  | .str _ => other _ nofun nofun
termination_by v => sizeOf v
decreasing_by
  · have hlt := sizeOf_lt_of_mem ‹v ∈ items›
    simp only [Value.list.sizeOf_spec]
    omega
  · have hlt := sizeOf_lt_of_mem (mem_of_get? ‹Fields.get? fs "nodes" = some v›)
    simp only [Value.object.sizeOf_spec, Prod.mk.sizeOf_spec] at hlt ⊢
    omega

/-! ### Adding texts -/

/-- Texts are added item by item. -/
theorem addTextsList_eq_mapM (textOf : Value → Value → Except Failure String) (items : List Value) :
    addTextsList textOf items = items.mapM (addTexts textOf) :=
  eq_mapM (g := addTextsList textOf) rfl (fun _ _ => rfl) items

/-- Texts are added below to the branches. -/
theorem addTextsBelow_eq_mapNodes (textOf : Value → Value → Except Failure String) (fs : Fields) :
    addTextsBelow textOf fs = mapNodes (addTexts textOf) fs := by
  induction fs with
  | nil => rfl
  | cons f rest ih => rw [addTextsBelow, mapNodes, ih]

/-- A list with texts is a list. -/
theorem exists_of_addTexts_list (h : addTexts textOf (.list items) = .ok w) :
    ∃ ws, w = .list ws ∧ Forall₂ (fun v u => addTexts textOf v = .ok u) items ws := by
  obtain ⟨ws, hws, h⟩ := bind_eq_ok.mp h
  cases h
  rw [addTextsList_eq_mapM] at hws
  exact ⟨ws, rfl, mapM_eq_ok_iff.mp hws⟩

/-! ### Formatting -/

/-- An order of texts. -/
theorem orderKeys_ofTexts (order : List String) : orderKeys (.ofTexts order) = .ok order := by
  induction order with
  | nil => rfl
  | cons key rest ih =>
    obtain ⟨keys, hkeys, hrest⟩ := bind_eq_ok.mp ih
    cases hkeys
    refine bind_ok rfl ?_
    rw [map_cons, foldrM_cons, hrest]
    rfl

/-- Formatting by an order. -/
theorem format_ofTexts (h : order ≠ []) (v : Value) :
    format v (.ofTexts order) = formatWith (.ok order) v := by
  have htruthy : (Value.ofTexts order).isTruthy = true := by
    cases order with
    | nil => exact absurd rfl h
    | cons key rest => rfl
  rw [format, if_pos htruthy, orderKeys_ofTexts]

/-- Lists are formatted item by item. -/
theorem formatList_eq_mapM (order : Except Failure (List String)) (items : List Value) :
    formatList order items = items.mapM (formatWith order) :=
  eq_mapM (g := formatList order) rfl (fun _ _ => rfl) items

/-- Below a node, its branches are formatted. -/
theorem formatFields_eq_mapNodes (order : Except Failure (List String)) (fs : Fields) :
    formatFields order fs = mapNodes (formatWith order) fs := by
  induction fs with
  | nil => rfl
  | cons f rest ih => rw [formatFields, mapNodes, ih]

/-- A formatted list is a list. -/
theorem exists_of_formatWith_list {order : Except Failure (List String)}
    (h : formatWith order (.list items) = .ok w) :
    ∃ ws, w = .list ws ∧ Forall₂ (fun v u => formatWith order v = .ok u) items ws := by
  obtain ⟨ws, hws, h⟩ := bind_eq_ok.mp h
  cases h
  rw [formatList_eq_mapM] at hws
  exact ⟨ws, rfl, mapM_eq_ok_iff.mp hws⟩

/-- Other values are left alone. -/
theorem formatWith_of_other {order : Except Failure (List String)}
    (hlist : ∀ items, v ≠ .list items) (hobject : ∀ fs, v ≠ .object fs) :
    formatWith order v = .ok v := by
  cases v with
  | list items => exact absurd rfl (hlist items)
  | object fs => exact absurd rfl (hobject fs)
  | _ => rw [formatWith] <;> exact fun _ h => nomatch h

/-- A formatted node has the fields of the order, without empty `nodes`. -/
theorem exists_of_formatWith_object (h : formatWith (.ok order) (.object fs) = .ok w) :
    ∃ gs, w = .object gs ∧
      (∀ key, key ≠ "nodes" →
        Fields.get? gs key = if key ∈ order then Fields.get? fs key else none) ∧
      (Fields.get? fs "nodes" = none → Fields.get? gs "nodes" = none) ∧
      ∀ v, fs.get? "nodes" = some v → ∃ u, formatWith (.ok order) v = .ok u ∧
        Fields.get? gs "nodes" = if "nodes" ∈ order ∧ u.isTruthy = true then some u else none := by
  obtain ⟨hs, hhs, h⟩ := bind_eq_ok.mp h
  cases h
  rw [formatFields_eq_mapNodes] at hhs
  have hlifts := lifts_of_mapNodes hhs
  have hsettle : ∀ key, key ≠ "nodes" → Fields.get? (settle hs) key = Fields.get? hs key := by
    intro key hkey
    rw [settle]
    split
    · rfl
    · exact Fields.get?_erase_of_ne _ hkey.symm
  refine ⟨_, rfl, fun key hkey => ?_, fun hnone => ?_, fun v hv => ?_⟩
  · rw [get?_reorder, hsettle key hkey, hlifts.other key hkey]
  · have hempty : Fields.get? (settle hs) "nodes" = none := by
      simp [settle, hlifts.get?_eq_none hnone, Value.isTruthy]
    rw [get?_reorder, hempty, ite_self]
  · obtain ⟨u, hu, hvu⟩ := hlifts.exists_of_get? hv
    refine ⟨u, hvu, ?_⟩
    rw [get?_reorder, settle, hu]
    by_cases htruthy : u.isTruthy = true
    · simp [htruthy, hu]
    · simp [htruthy]

/-- Every outline can be formatted. -/
theorem exists_formatWith (order : List String) (v : Value) :
    ∃ w, formatWith (.ok order) v = .ok w := by
  induction v using outline_induction with
  | other v hlist hobject => exact ⟨v, formatWith_of_other hlist hobject⟩
  | object fs ih =>
    obtain ⟨gs, hgs⟩ := exists_mapNodes ih
    rw [formatWith, formatFields_eq_mapNodes, hgs]
    exact ⟨_, rfl⟩
  | list items ih =>
    obtain ⟨ws, hws⟩ := exists_forall₂ ih
    rw [formatWith, formatList_eq_mapM, mapM_eq_ok_iff.mpr hws]
    exact ⟨_, rfl⟩

/-! ### Writing values into nodes -/

/-- Values are assigned to the branches. -/
theorem lifts_assignBelow (keyOf : Fields → Option String) (fs : Fields) (values : List Value) :
    Lifts (fun v w => ∃ values, w = (assign keyOf v values).1) fs
      (assignBelow keyOf fs values).1 := by
  induction fs generalizing values with
  | nil => exact .nil
  | cons f rest ih =>
    obtain ⟨k, v⟩ := f
    rw [assignBelow]
    split
    · rename_i hk
      subst hk
      exact .here ⟨values, rfl⟩ rest
    · rename_i hk
      exact (ih values).there hk v

/-- Values are assigned item by item. -/
theorem forall₂_assignList (keyOf : Fields → Option String) (items values : List Value) :
    Forall₂ (fun v w => ∃ values, w = (assign keyOf v values).1) items
      (assignList keyOf items values).1 := by
  induction items generalizing values with
  | nil => exact .nil
  | cons v rest ih =>
    rw [assignList]
    exact .cons ⟨values, rfl⟩ (ih _)

/-- The elements of something that is not a list are texts. -/
theorem exists_str_of_elements (hlist : ∀ items, v ≠ .list items) {es : List Value}
    (h : v.elements = .ok es) : ∀ e ∈ es, ∃ text, e = .str text := by
  intro e he
  cases v with
  | list items => exact absurd rfl (hlist items)
  | object fs =>
    cases h
    obtain ⟨k, -, rfl⟩ := mem_map.mp he
    exact ⟨k, rfl⟩
  | str s =>
    cases h
    obtain ⟨c, -, rfl⟩ := mem_map.mp he
    exact ⟨_, rfl⟩
  | _ => cases h

/-! ### Leaving texts out -/

/-- Fields are dropped along the branches. -/
theorem lifts_dropAlongFields (keys : List String) (fs : Fields) :
    Lifts (fun v w => w = dropAlong keys v) fs (dropAlongFields keys fs) := by
  induction fs with
  | nil => exact .nil
  | cons f rest ih =>
    obtain ⟨k, v⟩ := f
    rw [dropAlongFields]
    by_cases hk : k = "nodes"
    · subst hk
      rw [if_pos rfl]
      refine ⟨fun key hkey => ?_, .some rfl⟩
      rw [Fields.get?, Fields.get?, if_neg hkey.symm, if_neg hkey.symm, ih.other key hkey]
    · rw [if_neg hk]
      exact ih.there hk v

/-- Texts are dropped item by item. -/
theorem dropTexts_list (items : List Value) :
    dropTexts (.list items) = .list (items.map dropTexts) := by
  have hmap : dropAlongList ["text"] items = items.map dropTexts := by
    induction items with
    | nil => rfl
    | cons v rest ih =>
      rw [dropAlongList, ih]
      rfl
  rw [dropTexts, dropAlong, hmap]

/-- Leaving texts out, one looks fields up as before, but for texts and for `nodes`. -/
theorem exists_of_dropTexts_object (fs : Fields) :
    ∃ gs, dropTexts (.object fs) = .object gs ∧ Fields.get? gs "text" = none ∧
      Lifts (fun v w => w = dropTexts v) (fs.erase "text") gs := by
  have hlifts := lifts_dropAlongFields ["text"] fs
  have hget := get?_filter (fun key => !(["text"].contains key)) (dropAlongFields ["text"] fs)
  refine ⟨_, by rw [dropTexts, dropAlong], by rw [hget]; rfl, fun key hkey => ?_, ?_⟩
  · rw [hget, hlifts.other key hkey]
    by_cases htext : key = "text"
    · rw [htext, Fields.get?_erase_self]
      rfl
    · rw [Fields.get?_erase_of_ne _ (Ne.symm htext)]
      simp [htext]
  · rw [hget, Fields.get?_erase_of_ne _ (by decide)]
    exact hlifts.nodes

end DocTree.Outline
