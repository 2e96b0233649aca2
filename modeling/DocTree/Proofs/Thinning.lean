import DocTree.Markdown.Section
import DocTree.Proofs.Blank
import DocTree.Proofs.Nesting
import DocTree.Proofs.Pieces

/-!
# Thinning collapses subtrees

A section that counts less than a threshold takes over the texts of the kept sections within it. On
the forest of sections this is one rule: a tree with a small root becomes a leaf with the texts of
the whole tree. What is kept is an ordered forest again, so it nests to itself.
-/

namespace DocTree

open List

variable {s : Value}

/-! ### Texts that end visibly -/

namespace Text

/-- A text **ends visibly**: its last character is no white space. -/
def EndsVisibly (s : String) : Prop := ∃ c, s.toList.getLast? = some c ∧ isBlank c = false

/-- A trimmed text ends visibly. -/
theorem endsVisibly_of_trim {s : String} (hne : s ≠ "") (htrim : trim s = s) : EndsVisibly s := by
  have hlist : trimList s.toList = s.toList := by
    have h := congrArg String.toList htrim
    rwa [trim, String.toList_ofList] at h
  cases hlast : s.toList.getLast? with
  | none => exact absurd (String.toList_eq_nil_iff.mp (getLast?_eq_none_iff.mp hlast)) hne
  | some c =>
    refine ⟨c, hlast, ?_⟩
    rw [← hlist, trimList] at hlast
    exact of_getLast?_dropEnd hlast

/-- Whatever stands before. -/
theorem EndsVisibly.append {s : String} (h : EndsVisibly s) (before : String) :
    EndsVisibly (before ++ s) := by
  obtain ⟨c, hc, hblank⟩ := h
  refine ⟨c, ?_, hblank⟩
  rw [String.toList_append, getLast?_append, hc]
  rfl

/-- Such a text is not blank. -/
theorem EndsVisibly.isBlankText {s : String} (h : EndsVisibly s) : isBlankText s = false := by
  obtain ⟨c, hc, hblank⟩ := h
  rw [Text.isBlankText, all_eq_false]
  exact ⟨c, mem_of_getLast? hc, by simp [hblank]⟩

/-- Joined texts end visibly. -/
theorem endsVisibly_join {gap : String} {ss : List String} (hne : ss ≠ [])
    (h : ∀ s ∈ ss, EndsVisibly s) : EndsVisibly (join gap ss) := by
  induction ss with
  | nil => exact absurd rfl hne
  | cons first rest ih =>
    cases rest with
    | nil => exact h first (.head _)
    | cons next rest =>
      rw [join_cons (cons_ne_nil _ _)]
      exact (ih (cons_ne_nil _ _) fun s hs => h s (.tail _ hs)).append _

end Text

namespace Outline

/-- After a text that ends visibly, the next one follows behind a gap. -/
theorem appendText_str {s : String} (hs : Text.EndsVisibly s) (gap more : String) :
    appendText gap (.str s) (.str more) = .ok (.str (s ++ gap ++ more)) := by
  obtain ⟨c, hc, hblank⟩ := hs
  have hline : Text.endsWith s "\n" = false := by
    rw [← head?_reverse, head?_eq_some_iff] at hc
    obtain ⟨before, hreverse⟩ := hc
    have hne : c ≠ '\n' := by
      rintro rfl
      exact absurd hblank (by decide)
    rw [Text.endsWith, hreverse]
    simp [Text.beginsWith, Text.after?, hne.symm]
  have htruthy : (Value.str s).isTruthy = true := by
    rw [Value.isTruthy, Bool.not_eq_true', String.isEmpty_eq_false_iff]
    rintro rfl
    cases hc
  have hneeds : needsGap (.str s) = .ok true := by
    rw [needsGap, if_pos htruthy]
    change Except.ok (!Text.endsWith s "\n") = _
    rw [hline]
    rfl
  rw [appendText, hneeds]
  rfl

/-- Texts that end visibly are appended one after the other. -/
theorem foldlM_appendText (gap : String) {s : String} {ss : List String} (hs : Text.EndsVisibly s)
    (hss : ∀ t ∈ ss, Text.EndsVisibly t) :
    (ss.map Value.str).foldlM (appendText gap) (.str s) = .ok (.str (Text.join gap (s :: ss))) := by
  induction ss generalizing s with
  | nil => rfl
  | cons t ss ih =>
    have ht := hss t (.head _)
    have hrest := fun u hu => hss u (mem_cons_of_mem t hu)
    have hjoin : Text.join gap ((s ++ gap ++ t) :: ss) = Text.join gap (s :: t :: ss) := by
      cases ss with
      | nil => rfl
      | cons u ss =>
        have hne : u :: ss ≠ [] := cons_ne_nil _ _
        rw [Text.join_cons hne, Text.join_cons (cons_ne_nil _ _), Text.join_cons hne]
        simp only [String.append_assoc]
    rw [map_cons, foldlM_cons, appendText_str hs, ← hjoin]
    exact ih (ht.append _) hrest

end Outline

namespace Markdown

open Markdown.Tree

variable {t : Tree Value} {ts : List (Tree Value)}

/-! ### Collapsed trees -/

def textOf (s : Value) : String :=
  match part s "text" with
  | .str text => text
  | _ => ""

/-- The **texts of a forest** in document order, with empty lines between them. -/
def fullText (ts : List (Tree Value)) : String := Text.join "\n\n" ((elements ts).map textOf)

/-- Whether a section counts less than a threshold. -/
def isSmall (threshold s : Value) : Bool :=
  match Value.less (part s "text_token_count") threshold with
  | .ok less => less
  | .error _ => false

/-- An object with a field set. -/
def withField (s : Value) (key : String) (v : Value) : Value :=
  match s with
  | .object fields => .object (Fields.set fields key v)
  | s => s

section

variable (leaf : Tree Value → Value) (threshold : Value)

mutual

/-- A tree whose topmost small sections are leaves, where `leaf` gives what becomes of them. -/
def collapseWith : Tree Value → Tree Value
  | .node s ts =>
    if isSmall threshold s then .node (leaf (.node s ts)) [] else .node s (collapseAllWith ts)

/-- A forest whose topmost small sections are leaves. -/
def collapseAllWith : List (Tree Value) → List (Tree Value)
  | [] => []
  | t :: ts => collapseWith t :: collapseAllWith ts

end

end

/-- The **collapsed** tree: a topmost section that counts less than the threshold becomes a leaf
with all the texts of its tree. -/
def collapse (threshold : Value) : Tree Value → Tree Value :=
  collapseWith (fun t => withField t.root "text" (.str (fullText [t]))) threshold

/-- The node of a section over the nodes below it, without an identifier. -/
def plainNode (s : Value) (below : List Value) : Value :=
  treeNode [("title", part s "title"), ("text", part s "text"), ("line_num", part s "line_num")]
    below

/-- A section that can be **thinned**: it has a trimmed text, which is not empty, and a count that
can be compared. -/
structure IsThinnable (threshold s : Value) : Prop extends IsSection s where
  trimmed : ∃ text, part s "text" = .str text ∧ text ≠ "" ∧ Text.trim text = text
  counted : s.field? "text_token_count" = some (part s "text_token_count")
  comparable : ∃ less, Value.less (part s "text_token_count") threshold = .ok less

/-- A section **retells** a tree: it is the root with all the texts of the tree. -/
structure Retells (t : Tree Value) (s : Value) : Prop where
  title : s.field? "title" = t.root.field? "title"
  line : s.field? "line_num" = t.root.field? "line_num"
  level : s.field? "level" = t.root.field? "level"
  text : s.field? "text" = some (.str (fullText [t]))

section

variable {leaf leaf' : Tree Value → Value} {threshold : Value}

/-- A section with such a text has it. -/
theorem part_text_of_endsVisibly (h : Text.EndsVisibly (textOf s)) :
    part s "text" = .str (textOf s) := by
  rw [textOf] at h ⊢
  split at h
  · assumption
  · obtain ⟨c, hc, -⟩ := h
    cases hc

/-- Thinnable sections end visibly. -/
theorem IsThinnable.endsVisibly (h : IsThinnable threshold s) : Text.EndsVisibly (textOf s) := by
  obtain ⟨text, htext, hne, htrim⟩ := h.trimmed
  rw [textOf, htext]
  exact Text.endsVisibly_of_trim hne htrim

/-- Thinnable sections have a text. -/
theorem IsThinnable.part_text (h : IsThinnable threshold s) : part s "text" = .str (textOf s) :=
  part_text_of_endsVisibly h.endsVisibly

/-- Their counts are compared with the threshold. -/
theorem IsThinnable.less (h : IsThinnable threshold s) :
    Value.less (part s "text_token_count") threshold = .ok (isSmall threshold s) := by
  obtain ⟨less, hless⟩ := h.comparable
  rw [isSmall, hless]

/-- Retelling keeps the level. -/
theorem Retells.levelOf_eq (h : Retells t s) : levelOf s = levelOf t.root := by
  rw [levelOf, levelOf, Value.intField?, Value.intField?, h.level]

/-- What retells a section is one. -/
theorem Retells.isSection (h : Retells t s) (ht : IsSection t.root) : IsSection s where
  title := by rw [part, h.title, ht.title]; rfl
  line := by rw [part, h.line, ht.line]; rfl
  text := by rw [part, h.text]; rfl
  level := by rw [h.levelOf_eq, Value.intField?, h.level]; exact ht.level

/-- It has all the texts. -/
theorem Retells.textOf_eq (h : Retells t s) : textOf s = fullText [t] := by
  rw [textOf, part, h.text]
  rfl

/-- All that retell a tree have the same node. -/
theorem Retells.plainNode_eq {s' : Value} (h : Retells t s) (h' : Retells t s') :
    plainNode s [] = plainNode s' [] := by
  rw [plainNode, plainNode, part, part, part, part, part, part, h.title, h'.title, h.text, h'.text,
    h.line, h'.line]

/-- Forests collapse tree by tree. -/
theorem collapseAllWith_eq_map (ts : List (Tree Value)) :
    collapseAllWith leaf threshold ts = ts.map (collapseWith leaf threshold) := by
  induction ts with
  | nil => rfl
  | cons t ts ih => rw [collapseAllWith, ih, map_cons]

/-- Two forests collapse on their own. -/
theorem collapseAllWith_append (ts us : List (Tree Value)) :
    collapseAllWith leaf threshold (ts ++ us) =
      collapseAllWith leaf threshold ts ++ collapseAllWith leaf threshold us := by
  rw [collapseAllWith_eq_map, collapseAllWith_eq_map, collapseAllWith_eq_map, map_append]

/-! ### What is kept -/

variable (hleaf : ∀ t, IsThinnable threshold t.root → Retells t (leaf t))
include hleaf

/-- Collapsing keeps the level of a root. -/
theorem levelOf_root_collapseWith (ht : IsThinnable threshold t.root) :
    levelOf (collapseWith leaf threshold t).root = levelOf t.root := by
  obtain ⟨s, ts⟩ := t
  rw [collapseWith]
  split
  · exact (hleaf _ ht).levelOf_eq
  · rfl

/-- A collapsed forest keeps the order of its levels. -/
theorem ordered_collapseAllWith (hordered : Ordered levelOf ts)
    (hts : ∀ s ∈ elements ts, IsThinnable threshold s) :
    Ordered levelOf (collapseAllWith leaf threshold ts) := by
  induction hordered with
  | nil => exact .nil
  | @cons s ts us hrest hbelow hbehind ih =>
    rw [elements_cons, forall_mem_cons] at hts
    have hlevel : ∀ t ∈ ts ++ us,
        levelOf (collapseWith leaf threshold t).root = levelOf t.root := fun t ht =>
      levelOf_root_collapseWith hleaf (hts.2 _ (mem_map_of_mem (mem_subtreesOf_of_mem ht)))
    have hrest' := ih hts.2
    rw [collapseAllWith_append] at hrest'
    have hbehind' : ∀ n, (∀ u ∈ us, levelOf u.root ≤ n) →
        ∀ u ∈ collapseAllWith leaf threshold us, levelOf u.root ≤ n := by
      intro n hn u hu
      rw [collapseAllWith_eq_map] at hu
      obtain ⟨v, hv, rfl⟩ := mem_map.mp hu
      rw [hlevel v (mem_append_right _ hv)]
      exact hn v hv
    rw [collapseAllWith, collapseWith]
    split
    · refine .cons (hrest'.of_suffix (suffix_append _ _)) (forall_mem_nil _) ?_
      rw [(hleaf (.node s ts) hts.1).levelOf_eq]
      exact hbehind' _ hbehind
    · refine .cons hrest' (fun t ht => ?_) (hbehind' _ hbehind)
      rw [collapseAllWith_eq_map] at ht
      obtain ⟨v, hv, rfl⟩ := mem_map.mp ht
      rw [hlevel v (mem_append_left _ hv)]
      exact hbelow v hv

variable (hts : ∀ s ∈ elements ts, IsThinnable threshold s)
include hts

/-- What is kept can be placed in a tree. -/
theorem isSection_of_mem_collapseAllWith :
    ∀ s ∈ elements (collapseAllWith leaf threshold ts), IsSection s := by
  induction ts using forest_induction with
  | nil => exact forall_mem_nil _
  | cons s ts us ihts ihus =>
    obtain ⟨hs, hts, hus⟩ := forall_mem_elements_cons.mp hts
    rw [collapseAllWith, collapseWith]
    split
    · exact forall_mem_elements_cons.mpr
        ⟨(hleaf (.node s ts) hs).isSection hs.toIsSection, forall_mem_nil _, ihus hus⟩
    · exact forall_mem_elements_cons.mpr ⟨hs.toIsSection, ihts hts, ihus hus⟩

/-- The texts that are kept are those of the forest, **joined in groups**. -/
theorem exists_groups :
    ∃ groups : List (List String), (∀ g ∈ groups, g ≠ []) ∧
      (elements ts).map textOf = groups.flatten ∧
      (elements (collapseAllWith leaf threshold ts)).map textOf =
        groups.map (Text.join "\n\n") := by
  induction ts using forest_induction with
  | nil => exact ⟨[], forall_mem_nil _, rfl, rfl⟩
  | cons s ts us ihts ihus =>
    obtain ⟨hs, hts, hus⟩ := forall_mem_elements_cons.mp hts
    obtain ⟨groups, hne, hflatten, hgroups⟩ := ihts hts
    obtain ⟨groups', hne', hflatten', hgroups'⟩ := ihus hus
    rw [elements_cons, elements_append, map_cons, map_append, collapseAllWith,
      collapseWith]
    split
    · -- the whole tree is one group
      refine ⟨(textOf s :: (elements ts).map textOf) :: groups',
        forall_mem_cons.mpr ⟨cons_ne_nil _ _, hne'⟩, ?_, ?_⟩
      · rw [flatten_cons, ← hflatten', cons_append]
      · rw [elements_cons, nil_append, map_cons, map_cons, hgroups',
          (hleaf (.node s ts) hs).textOf_eq, fullText, elements_cons, append_nil,
          map_cons]
    · refine ⟨[textOf s] :: (groups ++ groups'), forall_mem_cons.mpr
        ⟨cons_ne_nil _ _, forall_mem_append.mpr ⟨hne, hne'⟩⟩, ?_, ?_⟩
      · rw [flatten_cons, flatten_append, ← hflatten, ← hflatten', singleton_append]
      · rw [elements_cons, elements_append, map_cons, map_append, hgroups, hgroups',
          map_cons, map_append]
        rfl

/-- **No text is lost** when a forest collapses. -/
theorem fullText_collapseAllWith :
    fullText (collapseAllWith leaf threshold ts) = fullText ts := by
  obtain ⟨groups, hne, hflatten, hgroups⟩ := exists_groups hleaf hts
  rw [fullText, hgroups, Text.join_map_join _ hne, ← hflatten, fullText]

/-- Texts end visibly after collapsing. -/
theorem endsVisibly_of_mem_collapseAllWith :
    ∀ s ∈ elements (collapseAllWith leaf threshold ts), Text.EndsVisibly (textOf s) := by
  obtain ⟨groups, hne, hflatten, hgroups⟩ := exists_groups hleaf hts
  intro s hs
  have hmem : textOf s ∈ groups.map (Text.join "\n\n") := by
    rw [← hgroups]
    exact mem_map_of_mem hs
  obtain ⟨g, hg, hjoin⟩ := mem_map.mp hmem
  rw [← hjoin]
  refine Text.endsVisibly_join (hne g hg) fun text htext => ?_
  have hflat : text ∈ (elements ts).map textOf := by
    rw [hflatten]
    exact mem_flatten_of_mem hg htext
  obtain ⟨s', hs', rfl⟩ := mem_map.mp hflat
  exact (hts s' hs').endsVisibly

/-- What small sections become does not matter for the tree, as long as it retells them. -/
theorem renderAll_collapseAllWith
    (hleaf' : ∀ t, IsThinnable threshold t.root → Retells t (leaf' t)) :
    renderAll plainNode (collapseAllWith leaf threshold ts) =
      renderAll plainNode (collapseAllWith leaf' threshold ts) := by
  induction ts using forest_induction with
  | nil => rfl
  | cons s ts us ihts ihus =>
    obtain ⟨hs, hts, hus⟩ := forall_mem_elements_cons.mp hts
    rw [collapseAllWith, collapseAllWith, collapseWith, collapseWith, renderAll, renderAll,
      ihus hus]
    congr 1
    split
    · exact (hleaf (.node s ts) hs).plainNode_eq (hleaf' (.node s ts) hs)
    · rw [render, render, ihts hts]

end

/-! ### Marks -/

section

variable (leaf : Tree Value → Value) (threshold : Value)

mutual

/-- The sections of a tree, **marked** by whether they are kept when it collapses. -/
def markedWith : Tree Value → List Marked
  | .node s ts =>
    if isSmall threshold s then
      ⟨leaf (.node s ts), true⟩ :: (markedAllWith ts).map fun m => ⟨m.node, false⟩
    else ⟨s, true⟩ :: markedAllWith ts

/-- The sections of a forest, marked. -/
def markedAllWith : List (Tree Value) → List Marked
  | [] => []
  | t :: ts => markedWith t ++ markedAllWith ts

end

/-- The marks of two forests. -/
theorem markedAllWith_append (ts us : List (Tree Value)) :
    markedAllWith leaf threshold (ts ++ us) =
      markedAllWith leaf threshold ts ++ markedAllWith leaf threshold us := by
  induction ts with
  | nil => rfl
  | cons t ts ih => rw [cons_append, markedAllWith, markedAllWith, ih, append_assoc]

/-- What is kept of two lists. -/
theorem kept_append (as bs : List Marked) : kept (as ++ bs) = kept as ++ kept bs := by
  rw [kept, kept, kept, filterMap_append]

/-- Nothing is kept without marks. -/
theorem kept_map_false (as : List Marked) : kept (as.map fun m => ⟨m.node, false⟩) = [] := by
  rw [kept, filterMap_eq_nil_iff]
  intro m hm
  obtain ⟨m', -, rfl⟩ := mem_map.mp hm
  rfl

/-- **What is kept** of a marked forest is the collapsed forest. -/
theorem kept_markedAllWith (ts : List (Tree Value)) :
    kept (markedAllWith leaf threshold ts) = elements (collapseAllWith leaf threshold ts) := by
  induction ts using forest_induction with
  | nil => rfl
  | cons s ts us ihts ihus =>
    rw [markedAllWith, markedWith, collapseAllWith, collapseWith, kept_append, ihus]
    split
    · rw [elements_cons, nil_append]
      change leaf (.node s ts) :: kept ((markedAllWith leaf threshold ts).map _) ++ _ = _
      rw [kept_map_false, singleton_append]
    · rw [elements_cons, elements_append, ← ihts]
      rfl

end

section

variable {leaf : Tree Value → Value} {threshold : Value}

/-- Marked sections keep their levels. -/
theorem forall_level_markedAllWith (hleaf : ∀ t, IsThinnable threshold t.root → Retells t (leaf t))
    {p : Int → Prop} (hts : ∀ s ∈ elements ts, IsThinnable threshold s)
    (hlevel : ∀ s ∈ elements ts, p (levelOf s)) :
    ∀ m ∈ markedAllWith leaf threshold ts,
      m.node.intField? "level" = some (levelOf m.node) ∧ p (levelOf m.node) := by
  induction ts using forest_induction with
  | nil => exact forall_mem_nil _
  | cons s ts us ihts ihus =>
    obtain ⟨hs, hts, hus⟩ := forall_mem_elements_cons.mp hts
    obtain ⟨hps, hpts, hpus⟩ := forall_mem_elements_cons.mp hlevel
    have hretells := hleaf (.node s ts) hs
    rw [markedAllWith, markedWith]
    refine forall_mem_append.mpr ⟨?_, ihus hus hpus⟩
    split
    · refine forall_mem_cons.mpr
        ⟨⟨(hretells.isSection hs.toIsSection).level, ?_⟩, fun m hm => ?_⟩
      · rw [hretells.levelOf_eq]
        exact hps
      · obtain ⟨m', hm', rfl⟩ := mem_map.mp hm
        exact ihts hts hpts m' hm'
    · exact forall_mem_cons.mpr ⟨⟨hs.level, hps⟩, ihts hts hpts⟩

/-- The first marked section of a tree is what becomes of its root. -/
theorem exists_markedWith_eq_cons (leaf : Tree Value → Value) (threshold : Value) (t : Tree Value) :
    ∃ rest, markedWith leaf threshold t = ⟨(collapseWith leaf threshold t).root, true⟩ :: rest := by
  obtain ⟨s, ts⟩ := t
  rw [markedWith, collapseWith]
  split
  · exact ⟨_, rfl⟩
  · exact ⟨_, rfl⟩

/-- The sections within one of a level are the first ones of greater levels. -/
theorem within_append {level : Value} {n : Int} (hlevel : level.int? = some n) {xs ys : List Value}
    (hxs : ∀ x ∈ xs, x.intField? "level" = some (levelOf x) ∧ n < levelOf x)
    (hys : ∀ y ∈ ys.head?, y.intField? "level" = some (levelOf y) ∧ levelOf y ≤ n) :
    within level (xs ++ ys) = .ok xs.length := by
  have hatMost : ∀ x : Value, x.intField? "level" = some (levelOf x) →
      ∃ v, x.field "level" = .ok v ∧ Value.atMost v level = .ok (decide (levelOf x ≤ n)) := by
    intro x hx
    obtain ⟨v, hv, hint⟩ := Value.intField?_eq_some_iff.mp hx
    exact ⟨v, Value.field_eq_ok_iff.mpr hv, Value.atMost_of_int? hint hlevel⟩
  induction xs with
  | nil =>
    cases ys with
    | nil => rfl
    | cons y ys =>
      obtain ⟨hy, hle⟩ := hys y rfl
      obtain ⟨v, hv, hcompare⟩ := hatMost y hy
      rw [nil_append, within, hv]
      change (Value.atMost v level >>= _) = _
      rw [hcompare, decide_eq_true hle]
      rfl
  | cons x xs ih =>
    obtain ⟨hx, hlt⟩ := hxs x (.head _)
    obtain ⟨v, hv, hcompare⟩ := hatMost x hx
    rw [cons_append, within, hv]
    change (Value.atMost v level >>= _) = _
    rw [hcompare, decide_eq_false (Int.not_le.mpr hlt)]
    change (within level (xs ++ ys) >>= _) = _
    rw [ih fun x hx => hxs x (.tail _ hx), length_cons, Nat.add_comm]
    rfl

/-- The sections of a forest that begins with one of no greater level are not within it. -/
theorem head?_level_markedAllWith (hleaf : ∀ t, IsThinnable threshold t.root → Retells t (leaf t))
    {n : Int} (hts : ∀ s ∈ elements ts, IsThinnable threshold s)
    (hroots : ∀ t ∈ ts, levelOf t.root ≤ n) :
    ∀ y ∈ ((markedAllWith leaf threshold ts).map Marked.node).head?,
      y.intField? "level" = some (levelOf y) ∧ levelOf y ≤ n := by
  cases ts with
  | nil =>
    intro y hy
    cases hy
  | cons t ts =>
    obtain ⟨rest, hrest⟩ := exists_markedWith_eq_cons leaf threshold t
    have hroot : t.root ∈ elements (t :: ts) :=
      mem_map_of_mem (mem_subtreesOf_of_mem (.head _))
    have hmem : (collapseWith leaf threshold t).root ∈
        elements (collapseAllWith leaf threshold (t :: ts)) :=
      mem_map_of_mem (mem_subtreesOf_of_mem (.head _))
    intro y hy
    rw [markedAllWith, hrest] at hy
    cases hy
    refine ⟨(isSection_of_mem_collapseAllWith hleaf hts _ hmem).level, ?_⟩
    rw [levelOf_root_collapseWith hleaf (hts _ hroot)]
    exact hroots t (.head _)

/-- The texts of sections that end visibly. -/
theorem visibleTexts_eq {xs : List Value} (hsections : ∀ x ∈ xs, IsSection x)
    (hvisible : ∀ x ∈ xs, Text.EndsVisibly (textOf x)) :
    visibleTexts xs = .ok ((xs.map textOf).map Value.str) := by
  induction xs with
  | nil => rfl
  | cons x xs ih =>
    obtain ⟨hx, hxs⟩ := forall_mem_cons.mp hsections
    obtain ⟨hend, hends⟩ := forall_mem_cons.mp hvisible
    have htext := hx.text
    rw [part_text_of_endsVisibly hend] at htext
    rw [visibleTexts, Value.lookupOr_of_field? htext]
    change (visibleTexts xs >>= _) = _
    rw [ih hxs hends, hend.isBlankText]
    rfl

end

/-! ### Thinning -/

/-- A field that was changed. -/
theorem field?_withField_self (hs : IsSection s) (key : String) (v : Value) :
    (withField s key v).field? key = some v := by
  obtain ⟨fields, rfl, -⟩ := Value.exists_object_of_field? hs.title
  exact Fields.get?_set_self fields key v

/-- The other fields. -/
theorem field?_withField_of_ne (s : Value) {key other : String} (v : Value) (h : key ≠ other) :
    (withField s key v).field? other = s.field? other := by
  cases s with
  | object fields => exact Fields.get?_set_of_ne fields v h
  | _ => rfl

/-- A root with all the texts of its tree, counted again; a leaf stays as it is. -/
def retold (tokens : String → Nat) (t : Tree Value) : Value :=
  if t.branches.isEmpty then t.root
  else withField (withField t.root "text" (.str (fullText [t]))) "text_token_count"
    (.ofNat (tokens (fullText [t])))

section

variable {threshold : Value}

/-- A section with all texts of its tree retells it. -/
theorem retells_withField (ht : IsThinnable threshold t.root) :
    Retells t (withField t.root "text" (.str (fullText [t]))) where
  title := field?_withField_of_ne _ _ (by decide)
  line := field?_withField_of_ne _ _ (by decide)
  level := field?_withField_of_ne _ _ (by decide)
  text := field?_withField_self ht.toIsSection _ _

/-- So does a section that is counted anew. -/
theorem retells_retold (tokens : String → Nat) (ht : IsThinnable threshold t.root) :
    Retells t (retold tokens t) := by
  obtain ⟨s, ts⟩ := t
  rw [retold]
  split
  · rename_i hempty
    obtain rfl : ts = [] := isEmpty_iff.mp hempty
    refine ⟨rfl, rfl, rfl, ?_⟩
    have hs : IsThinnable threshold s := ht
    have htext : fullText [.node s []] = textOf s := rfl
    rw [htext, ← hs.part_text]
    exact hs.text
  · have h := retells_withField ht
    exact
      { title := (field?_withField_of_ne _ _ (by decide)).trans h.title
        line := (field?_withField_of_ne _ _ (by decide)).trans h.line
        level := (field?_withField_of_ne _ _ (by decide)).trans h.level
        text := (field?_withField_of_ne _ _ (by decide)).trans h.text }

variable {count : Value → Except Failure Nat} {tokens : String → Nat}
  (hcount : ∀ text, count (.str text) = .ok (tokens text))
include hcount

/-- A section that takes over what is kept within it **retells its tree**. -/
theorem takeOver_eq (hs : IsThinnable threshold s)
    (hts : ∀ x ∈ elements ts, IsThinnable threshold x) :
    takeOver count s (((elements (collapseAllWith (retold tokens) threshold ts)).map textOf).map
      Value.str) = .ok (retold tokens (.node s ts)) := by
  cases ts with
  | nil => rfl
  | cons t ts =>
    have hkept :
        (elements (collapseAllWith (retold tokens) threshold (t :: ts))).map textOf ≠ [] := by
      rw [collapseAllWith, Ne, map_eq_nil_iff]
      exact elements_cons_ne_nil _ _
    obtain ⟨fields, rfl, -⟩ := Value.exists_object_of_field? hs.title
    have htext : (Value.object fields).field? "text" = some (.str (textOf (.object fields))) := by
      rw [hs.text, hs.part_text]
    have hvisible := endsVisibly_of_mem_collapseAllWith (fun _ => retells_retold tokens) hts
    -- the texts that are taken over are the texts of all the trees
    have hmerged : Text.join "\n\n" (textOf (.object fields) ::
        (elements (collapseAllWith (retold tokens) threshold (t :: ts))).map textOf) =
        fullText [.node (.object fields) (t :: ts)] := by
      have hall : (elements (t :: ts)).map textOf ≠ [] := by
        rw [Ne, map_eq_nil_iff]
        exact elements_cons_ne_nil _ _
      have hsame := fullText_collapseAllWith (fun _ => retells_retold tokens) hts
      rw [fullText, fullText] at hsame
      rw [fullText, elements_cons, append_nil, map_cons, Text.join_cons hkept,
        Text.join_cons hall, hsame]
    rw [takeOver, if_neg (by simpa using hkept), Value.lookupOr_of_field? htext]
    change ((List.map _ _).foldlM (Outline.appendText "\n\n") _ >>= _) = _
    rw [Outline.foldlM_appendText _ hs.endsVisibly fun text htext => by
      obtain ⟨x, hx, rfl⟩ := mem_map.mp htext
      exact hvisible x hx, hmerged]
    change (count (.str _) >>= _) = _
    rw [hcount]
    rfl

/-- **The marks of a list of sections** are those of its forest. -/
theorem mark_eq {secs : List Value} (hsecs : ∀ s ∈ secs, IsThinnable threshold s) :
    mark count threshold secs =
      .ok (markedAllWith (retold tokens) threshold (nested levelOf secs)) := by
  induction secs with
  | nil => rfl
  | cons s secs ih =>
    have hs := hsecs s (.head _)
    have hrest := fun x hx => hsecs x (mem_cons_of_mem s hx)
    have hforest : ∀ x ∈ elements (nested levelOf secs), IsThinnable threshold x := by
      rw [elements_nested]
      exact hrest
    set inner := (nested levelOf secs).takeWhile fun t => levelOf s < levelOf t.root
    set outer := (nested levelOf secs).dropWhile fun t => levelOf s < levelOf t.root
    have hsplit : inner ++ outer = nested levelOf secs := takeWhile_append_dropWhile
    have hnested : nested levelOf (s :: secs) = .node s inner :: outer := rfl
    have hmarked : markedAllWith (retold tokens) threshold (nested levelOf secs) =
        markedAllWith (retold tokens) threshold inner ++
          markedAllWith (retold tokens) threshold outer := by
      rw [← hsplit, markedAllWith_append]
    obtain ⟨level, hlevel, hint⟩ := Value.intField?_eq_some_iff.mp hs.level
    rw [mark, ih hrest, hnested, markedAllWith, markedWith]
    change (s.field "level" >>= _) = _
    rw [Value.field_eq_ok_iff.mpr hlevel]
    change (s.lookupOr "text_token_count" (.int 0) >>= _) = _
    rw [Value.lookupOr_of_field? hs.counted]
    change (Value.less (part s "text_token_count") threshold >>= _) = _
    rw [hs.less]
    cases isSmall threshold s with
    | false =>
      change Except.ok _ = Except.ok _
      rw [hmarked]
      rfl
    | true =>
      have hinner : ∀ x ∈ elements inner, IsThinnable threshold x := fun x hx =>
        hforest x (by rw [← hsplit, elements_append]; exact mem_append_left _ hx)
      have houter : ∀ x ∈ elements outer, IsThinnable threshold x := fun x hx =>
        hforest x (by rw [← hsplit, elements_append]; exact mem_append_right _ hx)
      have hordered := ordered_nested levelOf secs
      have hlevels : ∀ x ∈ elements inner, levelOf s < levelOf x :=
        (hordered.of_prefix (List.takeWhile_prefix _)).lt_of_mem_elements fun t ht => by
          simpa using mem_takeWhile_imp ht
      have hwithin : within level ((markedAllWith (retold tokens) threshold inner ++
          markedAllWith (retold tokens) threshold outer).map Marked.node) =
          .ok (markedAllWith (retold tokens) threshold inner).length := by
        rw [map_append, within_append hint, length_map]
        · intro x hx
          obtain ⟨m, hm, rfl⟩ := mem_map.mp hx
          exact forall_level_markedAllWith (fun _ => retells_retold tokens) hinner hlevels m hm
        · exact head?_level_markedAllWith (fun _ => retells_retold tokens) houter
            (hordered.level_le_of_mem_dropWhile _)
      change (within level (List.map Marked.node _) >>= _) = _
      rw [hmarked, hwithin]
      change (visibleTexts (kept (List.take _ _)) >>= _) = _
      rw [take_left, kept_markedAllWith, visibleTexts_eq
        (isSection_of_mem_collapseAllWith (fun _ => retells_retold tokens) hinner)
        (endsVisibly_of_mem_collapseAllWith (fun _ => retells_retold tokens) hinner)]
      change (takeOver count s _ >>= _) = _
      rw [takeOver_eq hcount hs hinner, drop_left]
      rfl

end

/-- Without identifiers, rendered trees are plain. -/
theorem dropAlongList_renderAll (ts : List (Tree (Value × Nat))) :
    Outline.dropAlongList ["node_id"] (renderAll numberedNode ts) =
      renderAll (fun s => plainNode s.1) ts := by
  induction ts using forest_induction with
  | nil => rfl
  | cons s ts us ihts ihus =>
    rw [renderAll, renderAll, Outline.dropAlongList, ihus, render, render, numberedNode, treeNode,
      Outline.dropAlong]
    simp [Outline.dropAlongFields, Outline.dropAlong, ihts, plainNode, treeNode]

/-- The tree of sections, without identifiers, is the plain nested forest. -/
theorem exists_treeOf {secs : List Value} (hsecs : ∀ s ∈ secs, IsSection s) :
    ∃ forest, treeOf secs = .ok forest ∧
      Outline.dropAlong ["node_id"] (.list forest) =
        .list (renderAll plainNode (nested levelOf secs)) := by
  refine ⟨_, treeOf_eq hsecs, ?_⟩
  have hnested : nested levelOf secs = mapAll Prod.fst (nested numberedLevel secs.zipIdx) := by
    have h := nested_map levelOf Prod.fst secs.zipIdx
    rwa [zipIdx_map_fst] at h
  rw [Outline.dropAlong, ← renderAll_eq_map, dropAlongList_renderAll, hnested, renderAll_mapAll]

/-- **Thinning collapses subtrees.** The tree of the sections holds them in document order. Up to
identifiers, that of the thinned sections is that tree with every topmost section that counts less
than the threshold as a leaf with all the texts of its tree. -/
theorem thinned_tree_is_collapsed (counter : TokenCounter) (model threshold : Value)
    {secs : List Value} (hsecs : ∀ s ∈ secs, IsThinnable threshold s) :
    ∃ trees forest thinned thinnedForest,
      elements trees = secs ∧
      treeOf secs = .ok forest ∧
      Outline.dropAlong ["node_id"] (.list forest) = .list (trees.map (render plainNode)) ∧
      thin (counter.count model) threshold secs = .ok thinned ∧
      treeOf thinned = .ok thinnedForest ∧
      Outline.dropAlong ["node_id"] (.list thinnedForest) =
        .list ((trees.map (collapse threshold)).map (render plainNode)) := by
  have hcount : ∀ text, counter.count model (.str text) =
      .ok (if (Value.str text).isTruthy then counter.ofText (!model.isNull) text else 0) := by
    intro text
    rw [TokenCounter.count]
    split <;> rfl
  set tokens := fun text =>
    if (Value.str text).isTruthy then counter.ofText (!model.isNull) text else 0
  set trees := nested levelOf secs
  have htrees : elements trees = secs := elements_nested levelOf secs
  have hforest : ∀ s ∈ elements trees, IsThinnable threshold s := by
    rwa [htrees]
  have hretold : ∀ t, IsThinnable threshold t.root → Retells t (retold tokens t) :=
    fun _ => retells_retold tokens
  set collapsed := collapseAllWith (retold tokens) threshold trees
  -- what is kept is an ordered forest, so it is the forest of the sections that are kept
  have hthin : thin (counter.count model) threshold secs = .ok (elements collapsed) := by
    rw [thin, mark_eq hcount hsecs]
    exact congrArg Except.ok (kept_markedAllWith _ _ _)
  have hnested : nested levelOf (elements collapsed) = collapsed :=
    nested_elements (ordered_collapseAllWith hretold (ordered_nested levelOf secs) hforest)
  obtain ⟨forest, hforest₁, hplain₁⟩ := exists_treeOf fun s hs => (hsecs s hs).toIsSection
  obtain ⟨forest', hforest₂, hplain₂⟩ :=
    exists_treeOf (isSection_of_mem_collapseAllWith hretold hforest)
  refine ⟨trees, forest, _, forest', htrees, hforest₁, ?_, hthin, hforest₂, ?_⟩
  · rw [hplain₁, renderAll_eq_map]
  · rw [hplain₂, hnested, renderAll_collapseAllWith hretold hforest fun _ => retells_withField,
      renderAll_eq_map, collapseAllWith_eq_map]
    rfl

def countedSection (title : String) (line level : Nat) (text : String) (count : Nat) : Value :=
  .object [("title", .str title), ("line_num", .ofNat line), ("level", .ofNat level),
    ("text", .str text), ("text_token_count", .ofNat count)]

/-- A counted section is thinnable. -/
theorem isThinnable_countedSection (title : String) (line level : Nat) {text : String} (count : Nat)
    (threshold : Int) (hne : text ≠ "") (htrim : Text.trim text = text) :
    IsThinnable (.int threshold) (countedSection title line level text count) where
  title := rfl
  text := rfl
  line := rfl
  level := rfl
  trimmed := ⟨text, rfl, hne, htrim⟩
  counted := rfl
  comparable := ⟨_, Value.less_of_int? rfl rfl⟩

/-- Sections of which two are small, one within the other and both below a level that is skipped. -/
def countedSections : List Value :=
  [countedSection "Sea" 1 1 "# Sea" 40, countedSection "Tides" 4 3 "### Tides\n\nTwice a day." 9,
    countedSection "Moon" 8 4 "#### Moon" 2, countedSection "Wind" 9 2 "## Wind" 30]

/-- A small section within a small one is taken over with it. -/
theorem nested_small_sections_are_collapsed :
    (∀ s ∈ countedSections, IsThinnable (.int 10) s) ∧
    ∃ trees forest thinned thinnedForest,
      elements trees = countedSections ∧
      treeOf countedSections = .ok forest ∧
      Outline.dropAlong ["node_id"] (.list forest) = .list (trees.map (render plainNode)) ∧
      thin (TokenCounter.words.count .null) (.int 10) countedSections = .ok thinned ∧
      treeOf thinned = .ok thinnedForest ∧
      Outline.dropAlong ["node_id"] (.list thinnedForest) =
        .list ((trees.map (collapse (.int 10))).map (render plainNode)) := by
  have hsecs : ∀ s ∈ countedSections, IsThinnable (.int 10) s := by
    simp only [countedSections, forall_mem_cons]
    refine ⟨?_, ?_, ?_, ?_, forall_mem_nil _⟩ <;>
      exact isThinnable_countedSection _ _ _ _ _ (by decide) (by decide +kernel)
  exact ⟨hsecs, thinned_tree_is_collapsed .words .null (.int 10) hsecs⟩

end Markdown

end DocTree
