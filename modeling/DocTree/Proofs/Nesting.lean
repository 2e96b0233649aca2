import DocTree.Markdown.Tree
import DocTree.Proofs.Coverage
import Mathlib.Data.List.Nodup
import Mathlib.Data.List.TakeWhile

/-!
# Nesting by levels

A list of elements with levels is **nested** from its end: an element becomes the root of those
trees right behind it whose roots have a greater level. Its parent is the nearest earlier element
with a smaller level. The tree of sections, made with a stack, is the nested forest.
-/

namespace DocTree.Markdown

open List

variable {l m n : Int} {levels : List Int} {i j : Nat}

variable {α β : Type}

/-! ### Trees -/

/-- A **tree**: a root, and the trees below it. -/
inductive Tree (α : Type) where
  | node (root : α) (branches : List (Tree α))

namespace Tree

def root : Tree α → α
  | .node a _ => a

/-- The trees below the root. -/
def branches : Tree α → List (Tree α)
  | .node _ ts => ts

mutual

/-- The **subtrees** of a tree in document order, the tree itself first. -/
def subtrees : Tree α → List (Tree α)
  | .node a ts => .node a ts :: subtreesOf ts

/-- The subtrees of a forest in document order. -/
def subtreesOf : List (Tree α) → List (Tree α)
  | [] => []
  | t :: ts => subtrees t ++ subtreesOf ts

end

/-- The **elements** of a forest in document order. -/
def elements (ts : List (Tree α)) : List α := (subtreesOf ts).map root

mutual

/-- What a tree is **rendered** as, where `make` puts a root over the renderings below it. -/
def render (make : α → List β → β) : Tree α → β
  | .node a ts => make a (renderAll make ts)

/-- What the trees of a forest are rendered as. -/
def renderAll (make : α → List β → β) : List (Tree α) → List β
  | [] => []
  | t :: ts => render make t :: renderAll make ts

end

mutual

/-- The tree with other elements. -/
def map (f : α → β) : Tree α → Tree β
  | .node a ts => .node (f a) (mapAll f ts)

/-- The forest with other elements. -/
def mapAll (f : α → β) : List (Tree α) → List (Tree β)
  | [] => []
  | t :: ts => map f t :: mapAll f ts

end

/-- **Induction on forests**: over the branches of the first tree and the other trees. -/
theorem forest_induction {motive : List (Tree α) → Prop} (nil : motive [])
    (cons : ∀ a ts us, motive ts → motive us → motive (.node a ts :: us)) : ∀ ts, motive ts
  | [] => nil
  | .node a ts :: us =>
    cons a ts us (forest_induction nil cons ts) (forest_induction nil cons us)

/-- Forests are mapped tree by tree. -/
theorem mapAll_eq_map (f : α → β) (ts : List (Tree α)) : mapAll f ts = ts.map (map f) := by
  induction ts with
  | nil => rfl
  | cons t ts ih => rw [mapAll, ih, map_cons]

/-- The root of a mapped tree. -/
@[simp] theorem root_map (f : α → β) (t : Tree α) : (t.map f).root = f t.root := by
  obtain ⟨a, ts⟩ := t
  rw [map, root, root]

/-- The subtrees of two forests. -/
theorem subtreesOf_append (ts us : List (Tree α)) :
    subtreesOf (ts ++ us) = subtreesOf ts ++ subtreesOf us := by
  induction ts with
  | nil => rfl
  | cons t ts ih => rw [cons_append, subtreesOf, subtreesOf, ih, append_assoc]

/-- The elements of two forests. -/
theorem elements_append (ts us : List (Tree α)) :
    elements (ts ++ us) = elements ts ++ elements us := by
  rw [elements, elements, elements, subtreesOf_append, map_append]

/-- A root stands before what is below it, and that before the other trees. -/
theorem subtreesOf_cons (a : α) (ts us : List (Tree α)) :
    subtreesOf (.node a ts :: us) = .node a ts :: subtreesOf (ts ++ us) := by
  rw [subtreesOf, subtrees, subtreesOf_append, cons_append]

/-- A root comes before its branches. -/
theorem elements_cons (a : α) (ts us : List (Tree α)) :
    elements (.node a ts :: us) = a :: elements (ts ++ us) := by
  rw [elements, subtreesOf_cons, map_cons, elements, root]

/-- A tree has an element. -/
theorem elements_cons_ne_nil (t : Tree α) (ts : List (Tree α)) : elements (t :: ts) ≠ [] := by
  obtain ⟨a, branches⟩ := t
  rw [elements_cons]
  exact cons_ne_nil _ _

/-- What holds of a root, its branches and the other trees. -/
theorem forall_mem_elements_cons {p : α → Prop} {a : α} {ts us : List (Tree α)} :
    (∀ b ∈ elements (.node a ts :: us), p b) ↔
      p a ∧ (∀ b ∈ elements ts, p b) ∧ ∀ b ∈ elements us, p b := by
  rw [elements_cons, elements_append, forall_mem_cons, forall_mem_append]

/-- A tree is a subtree of its forest. -/
theorem mem_subtreesOf_of_mem {t : Tree α} {ts : List (Tree α)} (h : t ∈ ts) :
    t ∈ subtreesOf ts := by
  induction ts with
  | nil => cases h
  | cons u us ih =>
    obtain ⟨a, branches⟩ := u
    rw [subtreesOf_cons, subtreesOf_append]
    rcases mem_cons.mp h with rfl | h
    · exact .head _
    · exact .tail _ (mem_append_right _ (ih h))

/-- Forests are rendered tree by tree. -/
theorem renderAll_eq_map (make : α → List β → β) (ts : List (Tree α)) :
    renderAll make ts = ts.map (render make) := by
  induction ts with
  | nil => rfl
  | cons t ts ih => rw [renderAll, ih, map_cons]

/-- A root is rendered over its branches. -/
theorem render_node (make : α → List β → β) (a : α) (ts : List (Tree α)) :
    render make (.node a ts) = make a (ts.map (render make)) := by
  rw [render, renderAll_eq_map]

/-- Rendering a mapped forest. -/
theorem renderAll_mapAll {γ : Type} (f : α → β) (make : β → List γ → γ) (ts : List (Tree α)) :
    renderAll make (mapAll f ts) = renderAll (fun a => make (f a)) ts := by
  induction ts using forest_induction with
  | nil => rfl
  | cons a ts us ihts ihus => rw [mapAll, map, renderAll, renderAll, render, render, ihts, ihus]

end Tree

open Markdown.Tree

/-! ### Nesting -/

section

variable (level : α → Int)

/-- An element **in front of a forest**: it becomes the root of the first trees whose roots have a
greater level. -/
def plant (a : α) (ts : List (Tree α)) : List (Tree α) :=
  .node a (ts.takeWhile fun t => level a < level t.root) ::
    ts.dropWhile fun t => level a < level t.root

/-- The **nested** forest of a list of elements with levels. -/
def nested (as : List α) : List (Tree α) := as.foldr (plant level) []

/-- An element is planted before the nested rest. -/
theorem nested_cons (a : α) (as : List α) :
    nested level (a :: as) = plant level a (nested level as) := rfl

/-- Levels that do not change with the elements nest in the same way. -/
theorem nested_map (f : β → α) (as : List β) :
    nested level (as.map f) = mapAll f (nested (fun b => level (f b)) as) := by
  induction as with
  | nil => rfl
  | cons a as ih =>
    rw [List.map_cons, nested_cons, ih, nested_cons, plant, plant, mapAll, Tree.map, mapAll_eq_map,
      mapAll_eq_map, mapAll_eq_map, takeWhile_map, dropWhile_map]
    simp only [Function.comp_def, root_map]

/-- A forest is **ordered**: the levels below a root are greater than its level, and those of the
trees behind it are not. -/
inductive Ordered : List (Tree α) → Prop
  | nil : Ordered []
  | cons {a : α} {ts us : List (Tree α)} (hrest : Ordered (ts ++ us))
      (hbelow : ∀ t ∈ ts, level a < level t.root)
      (hbehind : ∀ u ∈ us, level u.root ≤ level a) : Ordered (.node a ts :: us)

end

section

variable {level : α → Int}

/-- The subtrees with one more element in front. -/
theorem subtreesOf_nested_cons (a : α) (as : List α) :
    subtreesOf (nested level (a :: as)) =
      .node a ((nested level as).takeWhile fun t => level a < level t.root) ::
        subtreesOf (nested level as) := by
  rw [nested_cons, plant, subtreesOf_cons, takeWhile_append_dropWhile]

/-- **Reading a nested forest gives the elements back**, in their order. -/
theorem elements_nested (level : α → Int) (as : List α) : elements (nested level as) = as := by
  induction as with
  | nil => rfl
  | cons a as ih => rw [elements, subtreesOf_nested_cons, map_cons, root, ← elements, ih]

/-- From a tree to the next one the levels of an ordered forest do not grow. -/
theorem Ordered.pairwise {ts : List (Tree α)} (h : Ordered level ts) :
    ts.Pairwise fun t u => level u.root ≤ level t.root := by
  induction h with
  | nil => exact .nil
  | cons hrest hbelow hbehind ih => exact .cons hbehind (pairwise_append.mp ih).2.1

/-- The last trees of an ordered forest are an ordered forest. -/
theorem Ordered.of_suffix {ts us : List (Tree α)} (h : Ordered level ts) (hus : us <:+ ts) :
    Ordered level us := by
  induction h generalizing us with
  | nil =>
    rw [suffix_nil.mp hus]
    exact .nil
  | @cons a below behind hrest hbelow hbehind ih =>
    rcases suffix_cons_iff.mp hus with rfl | hus
    · exact .cons hrest hbelow hbehind
    · exact ih (hus.trans (suffix_append _ _))

/-- The first trees of an ordered forest are an ordered forest. -/
theorem Ordered.of_prefix {ts us : List (Tree α)} (h : Ordered level ts) (hus : us <+: ts) :
    Ordered level us := by
  induction h generalizing us with
  | nil =>
    rw [prefix_nil.mp hus]
    exact .nil
  | @cons a below behind hrest hbelow hbehind ih =>
    cases us with
    | nil => exact .nil
    | cons u us =>
      obtain ⟨rfl, hbegin⟩ := cons_prefix_cons.mp hus
      exact .cons (ih ((prefix_append_right_inj below).mpr hbegin)) hbelow
        fun v hv => hbehind v (hbegin.subset hv)

/-- Levels that the roots of an ordered forest exceed are exceeded by all its elements. -/
theorem Ordered.lt_of_mem_elements {ts : List (Tree α)} (h : Ordered level ts)
    (hroots : ∀ t ∈ ts, n < level t.root) : ∀ a ∈ elements ts, n < level a := by
  induction h with
  | nil => exact forall_mem_nil _
  | @cons a below behind hrest hbelow hbehind ih =>
    have ha : n < level a := hroots _ (.head _)
    rw [elements_cons, forall_mem_cons]
    refine ⟨ha, ih fun t ht => ?_⟩
    rcases mem_append.mp ht with ht | ht
    · exact Int.lt_trans ha (hbelow t ht)
    · exact hroots t (.tail _ ht)

/-- Behind the first trees with a greater level, no tree of an ordered forest has one. -/
theorem Ordered.level_le_of_mem_dropWhile {ts : List (Tree α)} (h : Ordered level ts) (n : Int) :
    ∀ u ∈ ts.dropWhile (fun t => n < level t.root), level u.root ≤ n := by
  have hpairwise := h.pairwise.sublist (dropWhile_sublist fun t => decide (n < level t.root))
  cases hdrop : ts.dropWhile (fun t => n < level t.root) with
  | nil => exact forall_mem_nil _
  | cons first rest =>
    have hfirst : level first.root ≤ n := by
      have hnot := head?_dropWhile_not (fun t : Tree α => decide (n < level t.root)) ts
      rw [hdrop] at hnot
      simpa using hnot
    rw [hdrop] at hpairwise
    intro u hu
    rcases mem_cons.mp hu with rfl | hu
    · exact hfirst
    · exact Int.le_trans (rel_of_pairwise_cons hpairwise hu) hfirst

/-- Nested forests are ordered. -/
theorem ordered_nested (level : α → Int) (as : List α) : Ordered level (nested level as) := by
  induction as with
  | nil => exact .nil
  | cons a as ih =>
    refine .cons ?_ (fun t ht => ?_) (ih.level_le_of_mem_dropWhile _)
    · rw [takeWhile_append_dropWhile]
      exact ih
    · simpa using mem_takeWhile_imp ht

/-- Where the levels of a forest are known, its first trees with a greater level are known. -/
theorem plant_append {a : α} {ts us : List (Tree α)} (hbelow : ∀ t ∈ ts, level a < level t.root)
    (hbehind : ∀ u ∈ us, level u.root ≤ level a) :
    plant level a (ts ++ us) = .node a ts :: us := by
  have hus : us.takeWhile (fun t => level a < level t.root) = [] ∧
      us.dropWhile (fun t => level a < level t.root) = us := by
    cases us with
    | nil => exact ⟨rfl, rfl⟩
    | cons u us =>
      have hu : ¬ level a < level u.root := Int.not_lt.mpr (hbehind u (.head _))
      simp [hu]
  have hts : ∀ t ∈ ts, decide (level a < level t.root) = true :=
    fun t ht => decide_eq_true (hbelow t ht)
  rw [plant, takeWhile_append_of_pos hts, dropWhile_append_of_pos hts, hus.1, hus.2,
    append_nil]

/-- **Nesting the elements of an ordered forest gives the forest back.** -/
theorem nested_elements {ts : List (Tree α)} (h : Ordered level ts) :
    nested level (elements ts) = ts := by
  induction h with
  | nil => rfl
  | cons hrest hbelow hbehind ih =>
    rw [elements_cons, nested_cons, ih, plant_append hbelow hbehind]

end

/-! ### Parents -/

/-- In a list of levels, position `i` is right **above** position `j`: it is the nearest earlier
position with a smaller level. -/
def Above (levels : List Int) (i j : Nat) : Prop :=
  i < j ∧ ∃ m n, levels[i]? = some m ∧ levels[j]? = some n ∧ m < n ∧
    ∀ k l, i < k → k < j → levels[k]? = some l → n ≤ l

/-- In a list of levels, position `j` is **on top**: no earlier position has a smaller level. -/
def OnTop (levels : List Int) (j : Nat) : Prop :=
  ∃ n, levels[j]? = some n ∧ ∀ k l, k < j → levels[k]? = some l → n ≤ l

/-- The first position is on top. -/
theorem onTop_zero (l : Int) (levels : List Int) : OnTop (l :: levels) 0 :=
  ⟨l, rfl, fun _ _ hk _ => absurd hk (Nat.not_lt_zero _)⟩

/-- What stays on top behind another level. -/
theorem onTop_succ_iff (hj : levels[j]? = some n) :
    OnTop (l :: levels) (j + 1) ↔ OnTop levels j ∧ n ≤ l := by
  constructor
  · rintro ⟨_, hn, hle⟩
    cases hj.symm.trans hn
    exact ⟨⟨n, hj, fun k m hk hm => hle (k + 1) m (Nat.succ_lt_succ hk) hm⟩,
      hle 0 l (Nat.succ_pos j) rfl⟩
  · rintro ⟨⟨_, hn, hle⟩, hl⟩
    cases hj.symm.trans hn
    refine ⟨n, hj, fun k m hk hm => ?_⟩
    cases k with
    | zero =>
      cases hm
      exact hl
    | succ k => exact hle k m (Nat.lt_of_succ_lt_succ hk) hm

/-- What the first position is above. -/
theorem above_zero_succ_iff (hj : levels[j]? = some n) :
    Above (l :: levels) 0 (j + 1) ↔ OnTop levels j ∧ l < n := by
  constructor
  · rintro ⟨-, _, _, hl, hn, hlt, hle⟩
    cases hl
    cases hj.symm.trans hn
    refine ⟨⟨n, hj, fun k m hk hm => ?_⟩, hlt⟩
    exact hle (k + 1) m (Nat.succ_pos k) (Nat.succ_lt_succ hk) hm
  · rintro ⟨⟨_, hn, hle⟩, hlt⟩
    cases hj.symm.trans hn
    refine ⟨Nat.succ_pos j, l, n, rfl, hj, hlt, fun k m hk hkj hm => ?_⟩
    cases k with
    | zero => cases hk
    | succ k => exact hle k m (Nat.lt_of_succ_lt_succ hkj) hm

/-- Positions may be shifted. -/
theorem above_succ_succ_iff : Above (l :: levels) (i + 1) (j + 1) ↔ Above levels i j := by
  constructor
  · rintro ⟨hij, m, n, hm, hn, hlt, hle⟩
    refine ⟨Nat.lt_of_succ_lt_succ hij, m, n, hm, hn, hlt, fun k o hk hkj ho => ?_⟩
    exact hle (k + 1) o (Nat.succ_lt_succ hk) (Nat.succ_lt_succ hkj) ho
  · rintro ⟨hij, m, n, hm, hn, hlt, hle⟩
    refine ⟨Nat.succ_lt_succ hij, m, n, hm, hn, hlt, fun k o hk hkj ho => ?_⟩
    cases k with
    | zero => cases hk
    | succ k => exact hle k o (Nat.lt_of_succ_lt_succ hk) (Nat.lt_of_succ_lt_succ hkj) ho

section

variable {level : α → Int} {as : List α} {t u : Tree α} {i j : Nat}

/-- The tree at a position in document order has the element at that position as its root. -/
theorem getElem?_of_subtreesOf_nested (hj : (subtreesOf (nested level as))[j]? = some u) :
    as[j]? = some u.root := by
  have h := congrArg (fun l : List α => l[j]?) (elements_nested level as)
  rw [elements] at h
  simpa [hj] using h.symm

/-- Subtrees stand at the places of their roots. -/
theorem getElem?_map_level_of_subtreesOf_nested
    (hj : (subtreesOf (nested level as))[j]? = some u) :
    (as.map level)[j]? = some (level u.root) := by
  rw [getElem?_map, getElem?_of_subtreesOf_nested hj]
  rfl

/-- Roots of subtrees are elements. -/
theorem root_mem_of_mem_subtreesOf (h : u ∈ subtreesOf (nested level as)) : u.root ∈ as := by
  rw [← elements_nested level as]
  exact mem_map_of_mem h

/-- The trees below the root of a subtree are subtrees. -/
theorem mem_subtreesOf_of_mem_branches (ht : t ∈ subtreesOf (nested level as))
    (hu : u ∈ t.branches) : u ∈ subtreesOf (nested level as) := by
  induction as with
  | nil => cases ht
  | cons a as ih =>
    rw [subtreesOf_nested_cons] at ht ⊢
    refine .tail _ ?_
    rcases mem_cons.mp ht with rfl | ht
    · exact mem_subtreesOf_of_mem ((takeWhile_sublist _).subset hu)
    · exact ih ht

/-- Roots with a greater level come first. -/
theorem filter_greater_nested (level : α → Int) (as : List α) (n : Int) :
    (nested level as).filter (fun t => n < level t.root) =
      (nested level as).takeWhile fun t => n < level t.root := by
  have hdrop := (ordered_nested level as).level_le_of_mem_dropWhile n
  nth_rewrite 1 [← takeWhile_append_dropWhile (p := fun t => decide (n < level t.root))
    (l := nested level as)]
  rw [filter_append,
    filter_eq_self.mpr fun t ht => by simpa using mem_takeWhile_imp ht,
    filter_eq_nil_iff.mpr fun t ht => by simpa using hdrop t ht, append_nil]

/-- The other roots come behind them. -/
theorem filter_others_nested (level : α → Int) (as : List α) (n : Int) :
    (nested level as).filter (fun t => ¬ n < level t.root) =
      (nested level as).dropWhile fun t => n < level t.root := by
  have hdrop := (ordered_nested level as).level_le_of_mem_dropWhile n
  nth_rewrite 1 [← takeWhile_append_dropWhile (p := fun t => decide (n < level t.root))
    (l := nested level as)]
  rw [filter_append,
    filter_eq_nil_iff.mpr fun t ht => by simpa using mem_takeWhile_imp ht,
    filter_eq_self.mpr fun t ht => by simpa using hdrop t ht, nil_append]

/-- The first trees are those with a greater level. -/
theorem mem_takeWhile_nested_iff :
    u ∈ (nested level as).takeWhile (fun t => n < level t.root) ↔
      u ∈ nested level as ∧ n < level u.root := by
  rw [← filter_greater_nested, mem_filter, decide_eq_true_eq]

/-- The trees behind them are the others. -/
theorem mem_dropWhile_nested_iff :
    u ∈ (nested level as).dropWhile (fun t => n < level t.root) ↔
      u ∈ nested level as ∧ level u.root ≤ n := by
  rw [← filter_others_nested, mem_filter, decide_eq_true_eq, Int.not_lt]

/-- The trees of a nested forest are those of the elements **on top**. -/
theorem mem_nested_iff (hnodup : as.Nodup) (hj : (subtreesOf (nested level as))[j]? = some u) :
    u ∈ nested level as ↔ OnTop (as.map level) j := by
  induction as generalizing j with
  | nil => cases hj
  | cons a as ih =>
    rw [subtreesOf_nested_cons] at hj
    cases j with
    | zero =>
      cases hj
      exact ⟨fun _ => onTop_zero _ _, fun _ => .head _⟩
    | succ j =>
      have hj : (subtreesOf (nested level as))[j]? = some u := hj
      have hlevel := getElem?_map_level_of_subtreesOf_nested hj
      have hne : u ≠ .node a ((nested level as).takeWhile fun t => level a < level t.root) := by
        rintro rfl
        exact (nodup_cons.mp hnodup).1 (root_mem_of_mem_subtreesOf (mem_of_getElem? hj))
      rw [map_cons, onTop_succ_iff hlevel, ← ih (nodup_cons.mp hnodup).2 hj, nested_cons,
        plant, mem_cons, or_iff_right hne, mem_dropWhile_nested_iff]

/-- **The parent of an element is the nearest earlier one with a smaller level.** -/
theorem mem_branches_iff (hnodup : as.Nodup) (hi : (subtreesOf (nested level as))[i]? = some t)
    (hj : (subtreesOf (nested level as))[j]? = some u) :
    u ∈ t.branches ↔ Above (as.map level) i j := by
  induction as generalizing i j with
  | nil => cases hi
  | cons a as ih =>
    have hnodup' := (nodup_cons.mp hnodup).2
    have hroot : ∀ v ∈ subtreesOf (nested level as), v.root ≠ a := by
      rintro v hv rfl
      exact (nodup_cons.mp hnodup).1 (root_mem_of_mem_subtreesOf hv)
    rw [subtreesOf_nested_cons] at hi hj
    rw [map_cons]
    cases i with
    | zero =>
      cases hi
      rw [branches, mem_takeWhile_nested_iff]
      cases j with
      | zero =>
        cases hj
        exact ⟨fun h => absurd h.2 (Int.lt_irrefl _), fun h => absurd h.1 (Nat.lt_irrefl _)⟩
      | succ j =>
        have hj : (subtreesOf (nested level as))[j]? = some u := hj
        rw [above_zero_succ_iff (getElem?_map_level_of_subtreesOf_nested hj),
          mem_nested_iff hnodup' hj]
    | succ i =>
      have hi : (subtreesOf (nested level as))[i]? = some t := hi
      cases j with
      | zero =>
        cases hj
        refine ⟨fun h => ?_, fun h => absurd h.1 (Nat.not_lt_zero _)⟩
        exact absurd rfl (hroot _ (mem_subtreesOf_of_mem_branches (mem_of_getElem? hi) h))
      | succ j => rw [above_succ_succ_iff, ih hnodup' hi hj]

end

/-! ### Trees of sections -/

def levelOf (s : Value) : Int := (s.intField? "level").getD 0

/-- A field of a section, null if it is missing. -/
def part (s : Value) (key : String) : Value := (s.field? key).getD .null

/-- A section that can be **placed in a tree**: it has a title, a text, a line, and a whole number
as its level. -/
structure IsSection (s : Value) : Prop where
  title : s.field? "title" = some (part s "title")
  text : s.field? "text" = some (part s "text")
  line : s.field? "line_num" = some (part s "line_num")
  level : s.intField? "level" = some (levelOf s)

def numberedLevel (s : Value × Nat) : Int := levelOf s.1

/-- The node of a numbered section over the nodes below it. -/
def numberedNode (s : Value × Nat) (below : List Value) : Value :=
  treeNode [("title", part s.1 "title"), ("node_id", .str (Outline.identifier (.ofNat (s.2 + 1)))),
    ("text", part s.1 "text"), ("line_num", part s.1 "line_num")] below

/-- The fields of a section in a tree. -/
theorem treeFields_of_isSection {s : Value} (h : IsSection s) (i : Nat) :
    treeFields i s = .ok [("title", part s "title"),
      ("node_id", .str (Outline.identifier (.ofNat (i + 1)))), ("text", part s "text"),
      ("line_num", part s "line_num")] := by
  rw [treeFields, Value.field_eq_ok_iff.mpr h.title, Value.field_eq_ok_iff.mpr h.text,
    Value.field_eq_ok_iff.mpr h.line]
  rfl

/-- The open sections, by their places and their levels as numbers, that a section of a level leaves
open. -/
def leftOpen (n : Int) (isOpen : List (Nat × Int)) : List (Nat × Int) :=
  isOpen.dropWhile fun e => n ≤ e.2

/-- The place of the innermost section that a section of a level leaves open. -/
def parentPlace? (n : Int) (isOpen : List (Nat × Int)) : Option Nat :=
  (leftOpen n isOpen).head?.map Prod.fst

/-- The open sections as they are kept during nesting stand for places and levels. -/
def Stands (e : Nat × Value) (e' : Nat × Int) : Prop := e.1 = e'.1 ∧ e.2.int? = some e'.2

/-- A section closes open ones by their levels. -/
theorem closeFor_of_stands {v : Value} (hv : v.int? = some n) {isOpen : List (Nat × Value)}
    {isOpen' : List (Nat × Int)} (h : Forall₂ Stands isOpen isOpen') :
    ∃ left, closeFor v isOpen = .ok left ∧ Forall₂ Stands left (leftOpen n isOpen') := by
  induction h with
  | nil => exact ⟨[], rfl, .nil⟩
  | @cons e e' rest rest' he hrest ih =>
    rw [closeFor, Value.atMost_of_int? hv he.2, leftOpen, dropWhile_cons]
    by_cases hn : n ≤ e'.2
    · rw [decide_eq_true hn]
      exact ih
    · rw [decide_eq_false hn]
      exact ⟨e :: rest, rfl, .cons he hrest⟩

/-- A section of a smaller level closes at least as much. -/
theorem leftOpen_leftOpen (h : m ≤ n) (isOpen : List (Nat × Int)) :
    leftOpen m (leftOpen n isOpen) = leftOpen m isOpen := by
  induction isOpen with
  | nil => rfl
  | cons e rest ih =>
    by_cases hn : n ≤ e.2
    · have hm : m ≤ e.2 := Int.le_trans h hn
      simpa [leftOpen, hn, hm] using ih
    · simp [leftOpen, hn]

/-- The innermost open section. -/
theorem head?_fst_of_stands {left : List (Nat × Value)} {left' : List (Nat × Int)}
    (h : Forall₂ Stands left left') : left.head?.map Prod.fst = left'.head?.map Prod.fst := by
  cases h with
  | nil => rfl
  | cons he => exact congrArg some he.1

/-- Only earlier places are open. -/
theorem parentPlace?_ne {isOpen : List (Nat × Int)} (h : ∀ e ∈ isOpen, e.1 < i) :
    parentPlace? n isOpen ≠ some i := by
  intro hplace
  obtain ⟨e, he, rfl⟩ := Option.map_eq_some_iff.mp hplace
  have hmem := (dropWhile_sublist _).subset (mem_of_mem_head? he)
  exact Nat.lt_irrefl _ (h e hmem)

/-- A smaller level is a parent. -/
theorem parentPlace?_cons_of_lt (h : m < n) (i : Nat) (isOpen : List (Nat × Int)) :
    parentPlace? n ((i, m) :: isOpen) = some i := by
  simp [parentPlace?, leftOpen, Int.not_le.mpr h]

/-- Another level is passed over. -/
theorem parentPlace?_cons_of_le (h : n ≤ m) (i : Nat) (isOpen : List (Nat × Int)) :
    parentPlace? n ((i, m) :: leftOpen m isOpen) = parentPlace? n isOpen := by
  have hclosed : leftOpen n ((i, m) :: leftOpen m isOpen) = leftOpen n (leftOpen m isOpen) := by
    simp [leftOpen, h]
  rw [parentPlace?, hclosed, leftOpen_leftOpen h, parentPlace?]

/-- **A stack of open sections nests by levels**, each tree under the innermost open section. -/
theorem exists_linked {secs : List Value} (hsecs : ∀ s ∈ secs, IsSection s)
    {isOpen : List (Nat × Value)} {isOpen' : List (Nat × Int)}
    (hopen : Forall₂ Stands isOpen isOpen') (hplaces : ∀ e ∈ isOpen', e.1 < i) :
    ∃ links, linked i isOpen secs = .ok links ∧
      Forest.assemble treeNode i links =
        (nested numberedLevel (secs.zipIdx i)).map fun t =>
          (parentPlace? (numberedLevel t.root) isOpen', render numberedNode t) := by
  induction secs generalizing i isOpen isOpen' with
  | nil => exact ⟨[], rfl, rfl⟩
  | cons s secs ih =>
    have hs := hsecs s (.head _)
    obtain ⟨v, hv, hint⟩ := Value.intField?_eq_some_iff.mp hs.level
    obtain ⟨left, hleft, hstands⟩ := closeFor_of_stands hint hopen
    have hplaces' : ∀ e ∈ (i, levelOf s) :: leftOpen (levelOf s) isOpen', e.1 < i + 1 := by
      intro e he
      rcases mem_cons.mp he with rfl | he
      · exact Nat.lt_succ_self i
      · exact Nat.lt_succ_of_lt (hplaces e ((dropWhile_sublist _).subset he))
    obtain ⟨links, hlinks, hassemble⟩ :=
      ih (fun s hs => hsecs s (.tail _ hs))
        (.cons (a := (i, v)) (b := (i, levelOf s)) ⟨rfl, hint⟩ hstands) hplaces'
    have hlinked : linked i isOpen (s :: secs) = .ok ((left.head?.map Prod.fst, _) :: links) :=
      bind_ok (Value.field_eq_ok_iff.mpr hv)
        (bind_ok (treeFields_of_isSection hs i) (bind_ok hleft (bind_ok hlinks rfl)))
    refine ⟨_, hlinked, ?_⟩
    -- the section becomes the root of those trees behind it that have a greater level
    have hplace : ∀ n : Int,
        parentPlace? n ((i, levelOf s) :: leftOpen (levelOf s) isOpen') = some i ↔
          levelOf s < n := by
      intro n
      constructor
      · intro h
        by_contra hn
        rw [parentPlace?_cons_of_le (Int.not_lt.mp hn)] at h
        exact parentPlace?_ne hplaces h
      · exact fun h => parentPlace?_cons_of_lt h _ _
    have hothers : ∀ t ∈ (nested numberedLevel (secs.zipIdx (i + 1))).dropWhile
        (fun t => levelOf s < numberedLevel t.root),
        (parentPlace? (numberedLevel t.root) ((i, levelOf s) :: leftOpen (levelOf s) isOpen'),
          render numberedNode t) =
        (parentPlace? (numberedLevel t.root) isOpen', render numberedNode t) := by
      intro t ht
      rw [parentPlace?_cons_of_le (mem_dropWhile_nested_iff.mp ht).2]
    have hgreater := filter_greater_nested numberedLevel (secs.zipIdx (i + 1)) (levelOf s)
    have hsmaller := filter_others_nested numberedLevel (secs.zipIdx (i + 1)) (levelOf s)
    rw [Forest.assemble, hassemble, zipIdx_cons, nested_cons, plant, filter_map,
      filter_map, map_cons, map_map]
    simp only [Function.comp_def, hplace, ne_eq, hgreater, hsmaller, map_congr_left hothers,
      render_node, head?_fst_of_stands hstands]
    rfl

/-- **The tree of sections is the nested forest**, with the sections numbered in document order. -/
theorem treeOf_eq {secs : List Value} (hsecs : ∀ s ∈ secs, IsSection s) :
    treeOf secs = .ok ((nested numberedLevel secs.zipIdx).map
      (render numberedNode)) := by
  obtain ⟨links, hlinks, hassemble⟩ :=
    exists_linked (i := 0) hsecs .nil (forall_mem_nil _)
  rw [treeOf, hlinks]
  change Except.ok (Forest.ofLinks treeNode links) = _
  rw [Forest.ofLinks, hassemble, map_map]
  rfl

mutual

/-- The nodes of a rendered tree in document order are its rendered subtrees. -/
theorem nodes_render : ∀ t : Tree (Value × Nat),
    Outline.nodes (render numberedNode t) = .ok (some ((subtrees t).map (render numberedNode)))
  | .node s ts => by
    rw [render, numberedNode, treeNode, Outline.nodes]
    simp only [cons_append, nil_append, Outline.nodesBelow, String.reduceEq, if_false,
      if_true, Outline.nodes]
    rw [nodesOfList_renderAll ts, subtrees, map_cons, render]
    rfl

/-- The nodes of a rendered forest are its subtrees. -/
theorem nodesOfList_renderAll : ∀ ts : List (Tree (Value × Nat)),
    Outline.nodesOfList (renderAll numberedNode ts) =
      .ok ((subtreesOf ts).map (render numberedNode))
  | [] => rfl
  | t :: ts => by
    rw [renderAll, Outline.nodesOfList, nodes_render t, nodesOfList_renderAll ts, subtreesOf,
      map_append]
    rfl

end

/-- The children of a rendered tree are its branches. -/
@[simp] theorem children_render (t : Tree (Value × Nat)) :
    Outline.children (render numberedNode t) = t.branches.map (render numberedNode) := by
  obtain ⟨s, ts⟩ := t
  rw [render_node]
  rfl

section

variable {secs nodes : List Value} {i j : Nat} {parent child : Value}

/-- The levels of numbered sections are those of the sections. -/
theorem map_numberedLevel_zipIdx (secs : List Value) :
    secs.zipIdx.map numberedLevel = secs.map levelOf := by
  have hlevel : numberedLevel = levelOf ∘ Prod.fst := rfl
  rw [hlevel, ← map_map, zipIdx_map_fst]

/-- Numbered sections are different, by their numbers. -/
theorem nodup_zipIdx (secs : List Value) : secs.zipIdx.Nodup := by
  refine Nodup.of_map Prod.snd ?_
  rw [zipIdx_map_snd]
  exact nodup_range'

/-- The nodes of a forest of different sections are **on top** as their levels say. -/
theorem mem_map_render_iff
    (hnodes : (subtreesOf (nested numberedLevel secs.zipIdx)).map (render numberedNode) = nodes)
    (hnodup : nodes.Nodup) (hj : nodes[j]? = some child) :
    child ∈ (nested numberedLevel secs.zipIdx).map (render numberedNode) ↔
      OnTop (secs.map levelOf) j := by
  subst hnodes
  obtain ⟨u, hu, rfl⟩ := getElem?_map.symm.trans hj |> Option.map_eq_some_iff.mp
  rw [← map_numberedLevel_zipIdx, ← mem_nested_iff (nodup_zipIdx secs) hu]
  constructor
  · intro h
    obtain ⟨t, ht, hrender⟩ := mem_map.mp h
    obtain rfl := inj_on_of_nodup_map hnodup (mem_subtreesOf_of_mem ht)
      (mem_of_getElem? hu) hrender
    exact ht
  · exact fun h => mem_map_of_mem h

/-- The nodes of a forest of different sections lie **below** each other as their levels say. -/
theorem mem_children_iff
    (hnodes : (subtreesOf (nested numberedLevel secs.zipIdx)).map (render numberedNode) = nodes)
    (hnodup : nodes.Nodup) (hi : nodes[i]? = some parent) (hj : nodes[j]? = some child) :
    child ∈ Outline.children parent ↔ Above (secs.map levelOf) i j := by
  subst hnodes
  obtain ⟨t, ht, rfl⟩ := getElem?_map.symm.trans hi |> Option.map_eq_some_iff.mp
  obtain ⟨u, hu, rfl⟩ := getElem?_map.symm.trans hj |> Option.map_eq_some_iff.mp
  rw [← map_numberedLevel_zipIdx, ← mem_branches_iff (nodup_zipIdx secs) ht hu, children_render]
  constructor
  · intro h
    obtain ⟨v, hv, hrender⟩ := mem_map.mp h
    obtain rfl := inj_on_of_nodup_map hnodup
      (mem_subtreesOf_of_mem_branches (mem_of_getElem? ht) hv) (mem_of_getElem? hu)
      hrender
    exact hv
  · exact fun h => mem_map_of_mem h

end

end DocTree.Markdown
