import DocTree.Proofs.Parallel

/-!
# Formatting as a projection

Formatting shows of every object the fields of an order, after what is below it is formatted, and
leaves out an empty field `nodes`. What is formatted stays as it is.
-/

namespace DocTree.Outline

open List

variable {fs gs : Fields} {order : List String} {key : String} {v w : Value}

/-! ### Objects in document order -/

mutual

/-- The **objects** of a value that are reached through lists and `nodes`, in document order. -/
def objects : Value → List Fields
  | .object fields => fields :: objectsBelow fields
  | .list items => objectsOf items
  | _ => []

def objectsOf : List Value → List Fields
  | [] => []
  | v :: rest => objects v ++ objectsOf rest

/-- The objects below an object. -/
def objectsBelow : List (String × Value) → List Fields
  | [] => []
  | (k, v) :: rest => if k = "nodes" then objects v else objectsBelow rest

end

/-- The objects of a list. -/
theorem objects_list (items : List Value) : objects (.list items) = items.flatMap objects := by
  rw [objects]
  induction items with
  | nil => rfl
  | cons v rest ih => rw [objectsOf, ih, flatMap_cons]

/-- An object comes before those below it. -/
theorem objects_object (fs : Fields) :
    objects (.object fs) = fs :: (fs.get? "nodes").elim [] objects := by
  rw [objects]
  congr 1
  induction fs with
  | nil => rfl
  | cons f rest ih =>
    obtain ⟨k, v⟩ := f
    rw [objectsBelow, Fields.get?]
    split
    · rfl
    · exact ih

/-- Other values have no objects. -/
theorem objects_of_other (hlist : ∀ items, v ≠ .list items) (hobject : ∀ fs, v ≠ .object fs) :
    objects v = [] := by
  cases v with
  | list items => exact absurd rfl (hlist items)
  | object fs => exact absurd rfl (hobject fs)
  | _ => rfl

/-! ### Fields in order -/

/-- An object is **in order**: its keys come as in the order, each once, and no others. -/
def InOrder (order : List String) (fs : Fields) : Prop :=
  fs.keys.Sublist order ∧ fs.keys.Nodup

/-- Reordering puts in order. -/
theorem inOrder_reorder (order : List String) (fs : Fields) : InOrder order (reorder order fs) := by
  induction order using List.reverseRecOn with
  | nil => exact ⟨Sublist.refl _, nodup_nil⟩
  | append_singleton order key ih =>
    obtain ⟨hsub, hnodup⟩ := ih
    cases hget : fs.get? key with
    | none =>
      rw [reorder_concat_of_none hget]
      exact ⟨hsub.trans (sublist_append_left _ _), hnodup⟩
    | some v =>
      rw [reorder_concat_of_some hget]
      refine ⟨?_, nodup_keys_set hnodup key v⟩
      by_cases hkey : key ∈ Fields.keys (reorder order fs)
      · rw [keys_set_of_mem hkey]
        exact hsub.trans (sublist_append_left _ _)
      · rw [keys_set_of_not_mem hkey]
        exact hsub.append (Sublist.refl _)

/-- Fields in an order depend on the **fields of the order** only. -/
theorem reorder_congr (h : ∀ key ∈ order, fs.get? key = gs.get? key) :
    reorder order fs = reorder order gs :=
  foldl_ext _ _ _ fun acc key hkey => by rw [h key hkey]

/-- Once is enough. -/
theorem reorder_reorder (order : List String) (fs : Fields) :
    reorder order (reorder order fs) = reorder order fs :=
  reorder_congr fun key hkey => by rw [get?_reorder, if_pos hkey]

/-- Branches that stay. -/
theorem mapNodes_eq_self {f : Value → Except Failure Value}
    (h : ∀ v, fs.get? "nodes" = some v → f v = .ok v) : mapNodes f fs = .ok fs := by
  induction fs with
  | nil => rfl
  | cons field rest ih =>
    obtain ⟨k, v⟩ := field
    rw [mapNodes]
    by_cases hk : k = "nodes"
    · rw [if_pos hk, h v (by rw [Fields.get?, if_pos hk])]
      rfl
    · rw [if_neg hk, ih fun u hu => h u (by rwa [Fields.get?, if_neg hk])]
      rfl

/-- Nothing goes from fields whose `nodes`, if there are any, are **not empty**. -/
theorem settle_eq_self (h : ∀ v, fs.get? "nodes" = some v → v.isTruthy = true) :
    settle fs = fs := by
  rw [settle]
  cases hnodes : fs.get? "nodes" with
  | some v => exact if_pos (h v hnodes)
  | none =>
    refine (if_neg Bool.false_ne_true).trans (filter_eq_self.mpr fun f hf => ?_)
    have hne : f.1 ≠ "nodes" := fun heq =>
      mem_keys_iff.mp (heq ▸ mem_map_of_mem hf) hnodes
    simpa using hne

/-! ### What formatting leaves -/

/-- An object with the fields of an order, as far as they are not `nodes`. -/
def PicksFrom (order : List String) (fs gs : Fields) : Prop :=
  ∀ key, key ≠ "nodes" → gs.get? key = if key ∈ order then fs.get? key else none

/-- The second value is the **projection** of the first: every object has the fields of the order,
in order, and its projected `nodes` if they are not empty. -/
inductive Projected (order : List String) : Value → Value → Prop
  | other {v : Value} (hlist : ∀ items, v ≠ .list items) (hobject : ∀ fs, v ≠ .object fs) :
      Projected order v v
  | list {vs ws : List Value} (h : Forall₂ (Projected order) vs ws) :
      Projected order (.list vs) (.list ws)
  | leaf {fs gs : Fields} (horder : InOrder order gs) (hpicks : PicksFrom order fs gs)
      (hfs : fs.get? "nodes" = none) (hgs : gs.get? "nodes" = none) :
      Projected order (.object fs) (.object gs)
  | inner {fs gs : Fields} {v w : Value} (horder : InOrder order gs)
      (hpicks : PicksFrom order fs gs) (hfs : fs.get? "nodes" = some v)
      (h : Projected order v w)
      (hgs : gs.get? "nodes" =
        if "nodes" ∈ order ∧ w.isTruthy = true then some w else none) :
      Projected order (.object fs) (.object gs)

/-- An object is reordered. -/
theorem exists_reorder_of_formatWith (h : formatWith (.ok order) (.object fs) = .ok w) :
    ∃ hs, w = .object (reorder order hs) := by
  obtain ⟨hs, -, h⟩ := bind_eq_ok.mp h
  cases h
  exact ⟨_, rfl⟩

/-- **Formatting projects** a value. -/
theorem projected_of_formatWith (h : formatWith (.ok order) v = .ok w) : Projected order v w := by
  induction v using outline_induction generalizing w with
  | other v hlist hobject =>
    cases (formatWith_of_other hlist hobject).symm.trans h
    exact .other hlist hobject
  | list items ih =>
    obtain ⟨ws, rfl, hws⟩ := exists_of_formatWith_list h
    exact .list (forall₂_imp_of_mem hws fun v hv w hw => ih v hv hw)
  | object fs ih =>
    obtain ⟨hs, rfl⟩ := exists_reorder_of_formatWith h
    obtain ⟨gs, hgs, hpicks, hnone, hsome⟩ := exists_of_formatWith_object h
    cases hgs
    have horder := inOrder_reorder order hs
    cases hfs : fs.get? "nodes" with
    | none => exact .leaf horder hpicks hfs (hnone hfs)
    | some v =>
      obtain ⟨u, hu, hget⟩ := hsome v hfs
      exact .inner horder hpicks hfs (ih v hfs hu) hget

/-- **What is formatted stays** when it is formatted again. -/
theorem formatWith_self (h : formatWith (.ok order) v = .ok w) :
    formatWith (.ok order) w = .ok w := by
  induction v using outline_induction generalizing w with
  | other v hlist hobject =>
    cases (formatWith_of_other hlist hobject).symm.trans h
    exact formatWith_of_other hlist hobject
  | list items ih =>
    obtain ⟨ws, rfl, hws⟩ := exists_of_formatWith_list h
    have hself : Forall₂ (fun v u => formatWith (.ok order) v = .ok u) ws ws := by
      refine forall₂_same.mpr fun w hw => ?_
      obtain ⟨v, hv, hvw⟩ := Run.exists_left_of_forall₂ hws w hw
      exact ih v hv hvw
    rw [formatWith, formatList_eq_mapM, mapM_eq_ok_iff.mpr hself]
    rfl
  | object fs ih =>
    obtain ⟨hs, rfl⟩ := exists_reorder_of_formatWith h
    obtain ⟨gs, hgs, -, hnone, hsome⟩ := exists_of_formatWith_object h
    cases hgs
    have hnodes : ∀ u, Fields.get? (reorder order hs) "nodes" = some u →
        formatWith (.ok order) u = .ok u ∧ u.isTruthy = true := by
      intro u hu
      cases hfs : fs.get? "nodes" with
      | none => cases (hnone hfs).symm.trans hu
      | some v =>
        obtain ⟨u', hu', hget⟩ := hsome v hfs
        rw [hget] at hu
        split at hu
        · rename_i htruthy
          cases hu
          exact ⟨ih v hfs hu', htruthy.2⟩
        · cases hu
    rw [formatWith, formatFields_eq_mapNodes, mapNodes_eq_self fun u hu => (hnodes u hu).1]
    change Except.ok (Value.object (reorder order (settle (reorder order hs)))) = _
    rw [settle_eq_self fun u hu => (hnodes u hu).2, reorder_reorder]

/-! ### Objects of a projection -/

/-- All objects of a projection are in order, and none of them has empty `nodes`. -/
theorem Projected.inOrder (h : Projected order v w) : ∀ gs ∈ objects w, InOrder order gs ∧
    ∀ x, gs.get? "nodes" = some x → x.isTruthy = true := by
  induction v using outline_induction generalizing w with
  | other v hlist hobject =>
    cases h with
    | other =>
      rw [objects_of_other hlist hobject]
      exact forall_mem_nil _
    | list => exact absurd rfl (hlist _)
    | leaf => exact absurd rfl (hobject _)
    | inner => exact absurd rfl (hobject _)
  | list items ih =>
    cases h with
    | other hlist => exact absurd rfl (hlist items)
    | list hws =>
      rw [objects_list]
      intro gs hgs
      obtain ⟨w, hw, hgs⟩ := mem_flatMap.mp hgs
      obtain ⟨v, hv, hvw⟩ := Run.exists_left_of_forall₂ hws w hw
      exact ih v hv hvw gs hgs
  | object fs ih =>
    cases h with
    | other _ hobject => exact absurd rfl (hobject fs)
    | leaf horder _ _ hgs =>
      rw [objects_object, hgs]
      exact forall_mem_singleton.mpr ⟨horder, fun x hx => by cases hgs.symm.trans hx⟩
    | @inner _ gs v w horder _ hfs hvw hgs =>
      rw [objects_object, hgs]
      split
      · rename_i hshown
        refine forall_mem_cons.mpr ⟨⟨horder, fun x hx => ?_⟩, ih v hfs hvw⟩
        rw [hgs, if_pos hshown] at hx
        cases hx
        exact hshown.2
      · rename_i hnot
        refine forall_mem_singleton.mpr ⟨horder, fun x hx => ?_⟩
        rw [hgs, if_neg hnot] at hx
        cases hx

/-- An object has something to show **besides `nodes`**. -/
def HasShown (order : List String) (fs : Fields) : Prop :=
  ∃ key ∈ order, key ≠ "nodes" ∧ fs.get? key ≠ none

/-- Where all objects have something to show, a projection is empty only if there are none. -/
theorem Projected.objects_eq_nil (h : Projected order v w) (hw : w.isTruthy = false)
    (hall : ∀ fs ∈ objects v, HasShown order fs) : objects v = [] := by
  -- an object that shows nothing
  have hobject : ∀ {fs gs : Fields}, HasShown order fs → PicksFrom order fs gs →
      (Value.object gs).isTruthy = true := by
    rintro fs gs ⟨key, hkey, hne, hget⟩ hpicks
    cases gs with
    | nil =>
      have hnone := hpicks key hne
      rw [if_pos hkey] at hnone
      exact absurd hnone.symm hget
    | cons => rfl
  cases h with
  | other hlist hobject => exact objects_of_other hlist hobject
  | list hws =>
    cases hws with
    | nil => rfl
    | cons => cases hw
  | leaf _ hpicks =>
    rw [objects_object] at hall
    cases hw.symm.trans (hobject (hall _ (.head _)) hpicks)
  | inner _ hpicks =>
    rw [objects_object] at hall
    cases hw.symm.trans (hobject (hall _ (.head _)) hpicks)

/-- If `nodes` are shown and every object has something else to show, **no object is lost**. -/
theorem Projected.forall₂_objects (h : Projected order v w) (hnodes : "nodes" ∈ order)
    (hall : ∀ fs ∈ objects v, HasShown order fs) :
    Forall₂ (PicksFrom order) (objects v) (objects w) := by
  induction v using outline_induction generalizing w with
  | other v hlist hobject =>
    cases h with
    | other =>
      rw [objects_of_other hlist hobject]
      exact .nil
    | list => exact absurd rfl (hlist _)
    | leaf => exact absurd rfl (hobject _)
    | inner => exact absurd rfl (hobject _)
  | list items ih =>
    cases h with
    | other hlist => exact absurd rfl (hlist items)
    | list hws =>
      rw [objects_list] at hall ⊢
      rw [objects_list]
      refine rel_flatMap (forall₂_imp_of_mem hws fun v hv w hvw => ?_) fun _ _ h => h
      exact ih v hv hvw fun fs hfs => hall fs (mem_flatMap.mpr ⟨v, hv, hfs⟩)
  | object fs ih =>
    rw [objects_object] at hall
    cases h with
    | other _ hobject => exact absurd rfl (hobject fs)
    | leaf _ hpicks hfs hgs =>
      rw [objects_object, objects_object, hfs, hgs]
      exact .cons hpicks .nil
    | @inner _ _ v w _ hpicks hfs hvw hgs =>
      rw [hfs] at hall
      have hbelow := fun fs hfs => hall fs (.tail _ hfs)
      rw [objects_object, objects_object, hfs, hgs]
      refine .cons hpicks ?_
      cases htruthy : w.isTruthy with
      | true =>
        rw [if_pos ⟨hnodes, rfl⟩]
        exact ih v hfs hvw hbelow
      | false =>
        rw [if_neg fun h => Bool.false_ne_true h.2]
        change Forall₂ _ (objects v) []
        rw [hvw.objects_eq_nil htruthy hbelow]
        exact .nil

/-- **Formatting is an idempotent projection.** Every value can be formatted. In the result all
objects have keys of the order, in order, and none has empty `nodes`; values in other fields are as
they were. If `nodes` are shown and every object has something else to show, the objects are the
same ones in document order. Formatting again changes nothing. -/
theorem formatting_projects {order : List String} (horder : order ≠ []) (v : Value) :
    ∃ w, format v (.ofTexts order) = .ok w ∧ Projected order v w ∧
      (∀ gs ∈ objects w, InOrder order gs ∧
        ∀ x, Fields.get? gs "nodes" = some x → x.isTruthy = true) ∧
      ("nodes" ∈ order → (∀ fs ∈ objects v, HasShown order fs) →
        Forall₂ (PicksFrom order) (objects v) (objects w)) ∧
      format w (.ofTexts order) = .ok w := by
  obtain ⟨w, hw⟩ := exists_formatWith order v
  have hprojected := projected_of_formatWith hw
  rw [format_ofTexts horder]
  refine ⟨w, hw, hprojected, hprojected.inOrder, hprojected.forall₂_objects, ?_⟩
  rw [format_ofTexts horder, formatWith_self hw]

/-- A section with a section below it, and a part that has a page only. -/
def sectionWithParts : Value :=
  .object [("nodes", .list [.object [("text", .str "t"), ("title", .str "B"), ("nodes", .list [])],
    .object [("page", .int 2)]]), ("title", .str "A"), ("page", .int 1)]

/-- A section with parts. -/
theorem section_with_parts_is_projected : ["title", "page", "nodes"] ≠ [] ∧
    ∃ w, format sectionWithParts (.ofTexts ["title", "page", "nodes"]) = .ok w ∧
      Forall₂ (PicksFrom ["title", "page", "nodes"]) (objects sectionWithParts) (objects w) ∧
      format w (.ofTexts ["title", "page", "nodes"]) = .ok w := by
  have hne : ["title", "page", "nodes"] ≠ [] := cons_ne_nil _ _
  have hshown : ∀ fs ∈ objects sectionWithParts, HasShown ["title", "page", "nodes"] fs := by
    unfold HasShown
    decide
  obtain ⟨w, hw, -, -, hobjects, hself⟩ := formatting_projects hne sectionWithParts
  exact ⟨hne, w, hw, hobjects (by decide) hshown, hself⟩

end DocTree.Outline
