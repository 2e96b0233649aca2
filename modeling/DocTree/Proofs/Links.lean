import DocTree.Proofs.Nesting

/-!
# Forests by links

Elements that may link to earlier ones are put together, from the end, into a **forest**: every
element occurs once, and the branches of a tree are the elements that link to its root.
-/

namespace DocTree

open List

namespace Markdown.Tree

variable {α : Type}

/-- Subtrees tree by tree. -/
theorem subtreesOf_eq_flatMap (ts : List (Tree α)) : subtreesOf ts = ts.flatMap subtrees := by
  induction ts with
  | nil => rfl
  | cons t ts ih => rw [subtreesOf, ih, flatMap_cons]

/-- The order of the trees does not change what the subtrees are. -/
theorem subtreesOf_perm {ts us : List (Tree α)} (h : ts.Perm us) :
    (subtreesOf ts).Perm (subtreesOf us) := by
  rw [subtreesOf_eq_flatMap, subtreesOf_eq_flatMap]
  exact h.flatMap_right subtrees

end Markdown.Tree

namespace Forest

open Markdown Markdown.Tree

variable {α β γ : Type} {p : α → Bool} {as : List α}

/-! ### Last positions -/

/-- No last one. -/
theorem lastIndex?_eq_none_iff :
    lastIndex? p as = none ↔ ∀ a ∈ as, p a = false := by
  induction as with
  | nil => simp [lastIndex?]
  | cons a as ih =>
    rw [lastIndex?, forall_mem_cons, ← ih]
    cases lastIndex? p as <;> simp

/-- The first is the last one. -/
theorem lastIndex?_cons_eq_zero_iff {a : α} :
    lastIndex? p (a :: as) = some 0 ↔ p a = true ∧ ∀ b ∈ as, p b = false := by
  rw [lastIndex?, ← lastIndex?_eq_none_iff]
  cases lastIndex? p as <;> simp

/-- The last one comes later. -/
theorem lastIndex?_cons_eq_succ_iff {a : α} {i : Nat} :
    lastIndex? p (a :: as) = some (i + 1) ↔ lastIndex? p as = some i := by
  rw [lastIndex?]
  cases lastIndex? p as <;> simp

/-- The **last position** at which a property holds. -/
theorem lastIndex?_eq_some_iff {i : Nat} :
    lastIndex? p as = some i ↔
      (∃ a, as[i]? = some a ∧ p a = true) ∧ ∀ k a, i < k → as[k]? = some a → p a = false := by
  induction as generalizing i with
  | nil => simp [lastIndex?]
  | cons a as ih =>
    cases i with
    | zero =>
      rw [lastIndex?_cons_eq_zero_iff]
      constructor
      · rintro ⟨ha, hbehind⟩
        refine ⟨⟨a, rfl, ha⟩, fun k b hk hb => ?_⟩
        obtain ⟨k, rfl⟩ := Nat.exists_eq_succ_of_ne_zero hk.ne'
        exact hbehind b (mem_of_getElem? hb)
      · rintro ⟨⟨_, ⟨⟩, ha⟩, hbehind⟩
        refine ⟨ha, fun b hb => ?_⟩
        obtain ⟨k, hk⟩ := mem_iff_getElem?.mp hb
        exact hbehind (k + 1) b (Nat.succ_pos k) hk
    | succ i =>
      rw [lastIndex?_cons_eq_succ_iff, ih]
      refine and_congr_right fun _ => ⟨fun h k b hk hb => ?_, fun h k b hk hb => ?_⟩
      · obtain ⟨k, rfl⟩ := Nat.exists_eq_succ_of_ne_zero (Nat.ne_zero_of_lt hk)
        exact h k b (Nat.lt_of_succ_lt_succ hk) hb
      · exact h (k + 1) b (Nat.succ_lt_succ hk) hb

/-! ### Forests -/

/-- Whatever elements are made into, what is put together is a **rendered forest**. -/
theorem assemble_eq_map_render (make : α → List β → β) (i : Nat)
    (elements : List (Option Nat × α)) :
    assemble make i elements =
      (assemble Markdown.Tree.node i elements).map fun e => (e.1, render make e.2) := by
  induction elements generalizing i with
  | nil => rfl
  | cons first rest ih =>
    obtain ⟨parent, a⟩ := first
    rw [assemble, assemble, ih, map_cons, render_node, filter_map, filter_map,
      map_map, map_map]
    rfl

/-- Elements may be changed before they are made into something. -/
theorem assemble_map (make : α → List β → β) (f : γ → α) (i : Nat)
    (elements : List (Option Nat × γ)) :
    assemble make i (elements.map (Prod.map id f)) =
      assemble (fun c => make (f c)) i elements := by
  induction elements generalizing i with
  | nil => rfl
  | cons first rest ih => rw [map_cons, Prod.map, assemble, assemble, ih, id]

/-- One step: the first element becomes a root, over trees that were there before. -/
theorem subtreesOf_assemble_cons (parent : Option Nat) (a : α) (i : Nat)
    (rest : List (Option Nat × α)) :
    (subtreesOf ((assemble Markdown.Tree.node i ((parent, a) :: rest)).map Prod.snd)).Perm
      (.node a (((assemble Markdown.Tree.node (i + 1) rest).filter fun e =>
          e.1 = some i).map Prod.snd) ::
        subtreesOf ((assemble Markdown.Tree.node (i + 1) rest).map Prod.snd)) := by
  rw [assemble, map_cons, subtreesOf_cons, ← map_append]
  refine (subtreesOf_perm (Perm.map _ ?_)).cons _
  simpa using filter_append_perm (fun e => decide (e.1 = some i))
    (assemble Markdown.Tree.node (i + 1) rest)

/-- The forest has **every element once**. -/
theorem perm_elements_assemble (i : Nat) (elements : List (Option Nat × α)) :
    (Markdown.Tree.elements ((assemble Markdown.Tree.node i elements).map Prod.snd)).Perm
      (elements.map Prod.snd) := by
  induction elements generalizing i with
  | nil => exact .nil
  | cons first rest ih =>
    obtain ⟨parent, a⟩ := first
    exact ((subtreesOf_assemble_cons parent a i rest).map root).trans ((ih (i + 1)).cons a)

/-- Trees may be chosen by their links before or after they are cut down to their roots. -/
theorem map_root_filter (trees : List (Option Nat × Markdown.Tree α)) (p : Option Nat → Prop)
    [DecidablePred p] :
    (trees.filter fun e => p e.1).map (fun e => (e.1, e.2.root)) =
      (trees.map fun e => (e.1, e.2.root)).filter fun e => p e.1 := by
  rw [filter_map]
  rfl

/-- Elements that are **numbered** from `i` on and link to earlier numbers only. -/
inductive Backward : Nat → List (Option Nat × α × Nat) → Prop
  | nil {i : Nat} : Backward i []
  | cons {i : Nat} {parent : Option Nat} {a : α} {rest : List (Option Nat × α × Nat)}
      (hparent : ∀ k, parent = some k → k < i) (hrest : Backward (i + 1) rest) :
      Backward i ((parent, a, i) :: rest)

namespace Backward

variable {i : Nat} {elements : List (Option Nat × α × Nat)}

/-- Places grow. -/
theorem le_of_mem (h : Backward i elements) : ∀ e ∈ elements, i ≤ e.2.2 := by
  induction h with
  | nil => exact forall_mem_nil _
  | cons _ _ ih =>
    exact forall_mem_cons.mpr ⟨Nat.le_refl _, fun e he => Nat.le_of_succ_le (ih e he)⟩

/-- The numbers grow. -/
theorem pairwise (h : Backward i elements) : elements.Pairwise fun e f => e.2.2 < f.2.2 := by
  induction h with
  | nil => exact .nil
  | cons _ hrest ih => exact .cons (fun e he => hrest.le_of_mem e he) ih

/-- The trees that are **still open** at a number: no link to it or to a later one. -/
theorem roots_assemble (h : Backward i elements) :
    (assemble Markdown.Tree.node i elements).map (fun e => (e.1, e.2.root)) =
      elements.filter fun e => e.1.all (· < i) := by
  induction h with
  | nil => rfl
  | @cons i parent a rest hparent hrest ih =>
    have hfirst : parent.all (· < i) = true := by
      cases parent with
      | none => rfl
      | some k => exact decide_eq_true (hparent k rfl)
    rw [assemble, map_cons, root, filter_cons_of_pos (by exact hfirst),
      map_root_filter _ (· ≠ some i), ih, filter_filter]
    refine congrArg _ (filter_congr fun e _ => ?_)
    cases e.1 with
    | none => rfl
    | some k => grind

/-- The **branches** of a tree are the elements that link to its root. -/
theorem branches_of_mem (h : Backward i elements) :
    ∀ t ∈ subtreesOf ((assemble Markdown.Tree.node i elements).map Prod.snd),
      t.branches.map root = (elements.filter fun e => e.1 = some t.root.2).map Prod.snd := by
  induction h with
  | nil => exact forall_mem_nil _
  | @cons i parent a rest hparent hrest ih =>
    intro t ht
    rcases mem_cons.mp ((subtreesOf_assemble_cons _ _ _ _).mem_iff.mp ht) with rfl | ht
    · -- what links to the first element was still open
      have hself : ¬ parent = some i := fun hself => Nat.lt_irrefl i (hparent i hself)
      have hlinked := congrArg (List.map Prod.snd) (map_root_filter
        (assemble Markdown.Tree.node (i + 1) rest) (· = some i))
      rw [map_map, roots_assemble hrest, filter_filter] at hlinked
      rw [branches, root, map_map, filter_cons_of_neg (by simpa using hself)]
      refine hlinked.trans (congrArg _ (filter_congr fun e _ => ?_))
      cases e.1 with
      | none => rfl
      | some k => grind
    · -- the first element does not link to a later one
      have hlater : i < t.root.2 := by
        have hmem := (perm_elements_assemble (i + 1) rest).mem_iff.mp (mem_map_of_mem ht)
        obtain ⟨e, he, heq⟩ := mem_map.mp hmem
        exact heq ▸ hrest.le_of_mem e he
      have hother : ¬ parent = some t.root.2 :=
        fun hother => Nat.lt_asymm hlater (hparent _ hother)
      rw [filter_cons_of_neg (by simpa using hother)]
      exact ih t ht

end Backward

/-! ### Forests of a list -/

def position (t : Markdown.Tree (α × Nat)) : Nat := t.root.2

/-- A forest **of a list**, by what lies right above what: it has every element once, with those
below it as branches, and a root lies below nothing. All are in the order of the list. -/
structure IsForestOf (as : List α) (above : Nat → Nat → Prop)
    (forest : List (Markdown.Tree (α × Nat))) : Prop where
  once : (elements forest).Perm as.zipIdx
  branches_ordered : ∀ t ∈ subtreesOf forest, (t.branches.map position).Pairwise (· < ·)
  mem_branches_iff : ∀ t ∈ subtreesOf forest, ∀ j,
    j ∈ t.branches.map position ↔ above (position t) j
  roots_ordered : (forest.map position).Pairwise (· < ·)
  mem_roots_iff : ∀ j, j ∈ forest.map position ↔ j < as.length ∧ ∀ i, ¬ above i j

/-- An element with its link and place. -/
theorem mem_zip_zipIdx_iff {links : List β} {link : β} {a : α} {j : Nat} :
    (link, a, j) ∈ links.zip as.zipIdx ↔ links[j]? = some link ∧ as[j]? = some a := by
  rw [mem_iff_getElem?]
  simp only [getElem?_zip_eq_some, getElem?_zipIdx, Option.map_eq_some_iff,
    Prod.mk.injEq, Nat.zero_add]
  constructor
  · rintro ⟨_, hlink, _, ha, rfl, rfl⟩
    exact ⟨hlink, ha⟩
  · rintro ⟨hlink, ha⟩
    exact ⟨j, hlink, a, ha, rfl, rfl⟩

/-- Links to earlier places go backward. -/
theorem backward_zip {links : List (Option Nat)} {i : Nat}
    (h : ∀ j k, links[j]? = some (some k) → k < i + j) (as : List α) :
    Backward i (links.zip (as.zipIdx i)) := by
  induction links generalizing i as with
  | nil => exact .nil
  | cons link links ih =>
    cases as with
    | nil => exact .nil
    | cons a as =>
      rw [zipIdx_cons, zip_cons_cons]
      refine .cons (fun k hk => h 0 k (congrArg some hk)) (ih (fun j k hk => ?_) as)
      have := h (j + 1) k hk
      omega

section

variable {links : List (Option Nat)} {as : List α}

/-- The positions of the elements that are chosen by their links. -/
theorem mem_positions_iff (hlength : links.length = as.length) (p : Option Nat → Bool) (j : Nat) :
    j ∈ ((links.zip as.zipIdx).filter fun e => p e.1).map (fun e => e.2.2) ↔
      ∃ link, links[j]? = some link ∧ p link = true := by
  rw [mem_map]
  constructor
  · rintro ⟨⟨link, a, _⟩, he, rfl⟩
    obtain ⟨hmem, hp⟩ := mem_filter.mp he
    exact ⟨link, (mem_zip_zipIdx_iff.mp hmem).1, hp⟩
  · rintro ⟨link, hlink, hp⟩
    obtain ⟨hj, -⟩ := List.getElem?_eq_some_iff.mp hlink
    obtain ⟨a, ha⟩ : ∃ a, as[j]? = some a := ⟨_, getElem?_eq_getElem (hlength ▸ hj)⟩
    exact ⟨(link, a, j), mem_filter.mpr ⟨mem_zip_zipIdx_iff.mpr ⟨hlink, ha⟩, hp⟩, rfl⟩

/-- **Links to earlier positions make a forest.** -/
theorem isForestOf_ofLinks (hlength : links.length = as.length)
    (h : ∀ j k : Nat, links[j]? = some (some k) → k < j) :
    IsForestOf as (fun i j => links[j]? = some (some i))
      (ofLinks Markdown.Tree.node (links.zip as.zipIdx)) := by
  have hback : Backward 0 (links.zip as.zipIdx) := backward_zip (by simpa using h) as
  have hordered : ∀ p : Option Nat × α × Nat → Bool,
      (((links.zip as.zipIdx).filter p).map fun e => e.2.2).Pairwise (· < ·) := fun p =>
    pairwise_map.mpr (hback.pairwise.sublist filter_sublist)
  have hbranches : ∀ t ∈ subtreesOf (ofLinks Markdown.Tree.node (links.zip as.zipIdx)),
      t.branches.map position =
        ((links.zip as.zipIdx).filter fun e => e.1 = some (position t)).map fun e => e.2.2 := by
    intro t ht
    have := congrArg (List.map Prod.snd) (hback.branches_of_mem t ht)
    rwa [map_map, map_map] at this
  have hroots : (ofLinks Markdown.Tree.node (links.zip as.zipIdx)).map position =
      ((links.zip as.zipIdx).filter fun e => e.1.all (· < 0)).map fun e => e.2.2 := by
    have := congrArg (List.map fun e => e.2.2) hback.roots_assemble
    rw [map_map] at this
    rw [ofLinks, map_map]
    exact this
  constructor
  case once =>
    have := perm_elements_assemble 0 (links.zip as.zipIdx)
    rwa [map_snd_zip (by simp [hlength])] at this
  case branches_ordered => exact fun t ht => hbranches t ht ▸ hordered _
  case mem_branches_iff =>
    intro t ht j
    rw [hbranches t ht, mem_positions_iff hlength fun link => link = some (position t)]
    simp
  case roots_ordered => exact hroots ▸ hordered _
  case mem_roots_iff =>
    intro j
    rw [hroots, mem_positions_iff hlength fun link => link.all (· < 0)]
    constructor
    · rintro ⟨link, hlink, hnone⟩
      obtain ⟨hj, -⟩ := List.getElem?_eq_some_iff.mp hlink
      refine ⟨hlength ▸ hj, fun i hi => ?_⟩
      cases hlink.symm.trans hi
      simp at hnone
    · rintro ⟨hj, hnone⟩
      obtain ⟨link, hlink⟩ : ∃ link, links[j]? = some link :=
        ⟨_, getElem?_eq_getElem (hlength ▸ hj)⟩
      cases link with
      | none => exact ⟨none, hlink, rfl⟩
      | some i => exact absurd hlink (hnone i)

end

end Forest

end DocTree
