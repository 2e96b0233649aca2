import DocTree.Document
import DocTree.Proofs.CodeIndex
import DocTree.Proofs.Document
import DocTree.Proofs.IdentifierOption
import DocTree.Proofs.Leaves

/-!
# Texts of nodes are an option of presentation

Each kind of index leaves out the texts of nodes in its own way and at its own time. In all of them
nothing else depends on the choice: the model gets the same requests, and the index is the same but
for the texts.
-/

namespace DocTree

open Run List

variable {l l' : Ledger} {session : Session} {settings : Settings}
  {counter : TokenCounter} {tree v w : Value} {vs ws : List Value} {fs gs hs : Fields}
  {p : Fields → Prop}

/-! ### Settings -/

namespace Settings

/-- Two settings are **the same elsewhere**: they differ at most in the choice of texts. -/
def SameElsewhere (s s' : Settings) : Prop :=
  ∀ name, name ≠ "if_add_node_text" → s.get name = s'.get name

variable (s : Settings)

/-- A setting that was set. -/
theorem get_set_self (name : String) (v : Value) :
    get (s.set name v) name = .ok v := by
  rw [get, Fields.get?_set_self]

/-- Other settings stay. -/
theorem get_set_of_ne {name other : String} (v : Value) (h : other ≠ name) :
    get (s.set name v) other = s.get other := by
  rw [get, get, Fields.get?_set_of_ne _ _ h.symm]

/-- Other options stay. -/
theorem isYes_set_of_ne {name other : String} (v : Value) (h : other ≠ name) :
    isYes (s.set name v) other = s.isYes other := by
  rw [isYes, isYes, get_set_of_ne s v h]

/-- An option is switched on. -/
theorem isYes_yes (name : String) :
    isYes (s.set name (.str "yes")) name = .ok true := by
  rw [isYes, get_set_self]
  rfl

/-- An option is switched off. -/
theorem isYes_no (name : String) :
    isYes (s.set name (.str "no")) name = .ok false := by
  rw [isYes, get_set_self]
  rfl

/-- Setting the option of texts changes no other setting. -/
theorem sameElsewhere_set (v : Value) :
    SameElsewhere (s.set "if_add_node_text" v) s :=
  fun _ h => get_set_of_ne s v h

end Settings

section

variable {s s' : Settings} (h : s.SameElsewhere s') (counter : TokenCounter)
  (pages : List Page) (printed : Printed) (e : Excerpt)
include h

/-- How far the search goes does not depend on the option. -/
theorem Contents.isBeyond_congr (i : Int) : isBeyond s i = isBeyond s' i := by
  rw [isBeyond, isBeyond, h _ (by decide)]

/-- Nor does what the scan finds. -/
theorem Contents.scanPages_congr (count : Nat) (i : Int) (isOpen : Bool) :
    scanPages s pages count i isOpen = scanPages s' pages count i isOpen := by
  induction count generalizing i isOpen with
  | zero => rfl
  | succ count ih => simp only [scanPages, isBeyond_congr h, h "model" (by decide), ih]

/-- Nor do the pages of tables. -/
theorem Contents.findPages_congr (start : Int) :
    findPages s pages start = findPages s' pages start := by
  simp only [findPages, scanPages_congr h]

/-- Nor does the search for numbered tables. -/
theorem Contents.searchNumbered_congr (rounds : Nat) (start : Int) :
    searchNumbered s pages rounds start = searchNumbered s' pages rounds start := by
  induction rounds generalizing start with
  | zero => rfl
  | succ rounds ih =>
    simp only [searchNumbered, isBeyond_congr h, findPages_congr h, h "model" (by decide), ih]

/-- Nor does the whole search. -/
theorem Contents.search_congr : search s pages = search s' pages := by
  simp only [search, findPages_congr h, searchNumbered_congr h, h "model" (by decide)]

/-- Nor does a mode. -/
theorem Contents.run_congr (mode : Mode) :
    mode.run counter s printed e = mode.run counter s' printed e := by
  simp only [Mode.run, h "model" (by decide), h "toc_check_page_num" (by decide)]

/-- Nor do modes in turn. -/
theorem Contents.tryModes_congr (modes : List Mode) :
    tryModes counter s printed e modes = tryModes counter s' printed e modes := by
  induction modes with
  | nil => rfl
  | cons mode rest ih => simp only [tryModes, run_congr h, h "model" (by decide), ih]

/-- Nor does a table that is built. -/
theorem Contents.build_congr (mode : Mode) :
    build counter s printed e mode = build counter s' printed e mode :=
  tryModes_congr h counter printed e mode.fallbacks

namespace Outline

/-- Nor does the size of a section. -/
theorem isLarge_congr (v : Value) : isLarge s pages v = isLarge s' pages v := by
  simp only [isLarge, h "max_page_num_each_node" (by decide),
    h "max_token_num_each_node" (by decide)]

/-- Nor does the splitting of a section. -/
theorem splitIfLarge_congr (v : Value) :
    splitIfLarge counter s pages v = splitIfLarge counter s' pages v := by
  simp only [splitIfLarge, isLarge_congr h, splitNode, Contents.build_congr h,
    h "model" (by decide)]

/-- Nor does the splitting of all sections. -/
theorem splitLarge_congr (levels : Nat) :
    splitLarge counter s pages levels = splitLarge counter s' pages levels := by
  induction levels with
  | zero => rfl
  | succ levels ih =>
    funext v
    simp only [splitLarge, splitIfLarge_congr h, ih]

/-- **The outline of a document does not depend on the choice of texts.** -/
theorem ofDocument_congr :
    ofDocument counter s pages = ofDocument counter s' pages := by
  unfold ofDocument
  rw [Contents.search_congr h, h "model" (by decide)]
  -- Opening the local names would copy them into every place where they are used.
  simp -zeta only [Contents.build_congr h, splitLarge_congr h]

end Outline

end

/-! ### Outlines of documents -/

namespace Outline

/-- A node **has no text**. -/
def Textless (fs : Fields) : Prop := fs.get? "text" = none

/-- A node that can be numbered and has no text. -/
def Plain (fs : Fields) : Prop := Numberable fs ∧ Textless fs

/-- A plain node stays plain. -/
theorem Plain.set {key : String} (h : Plain fs) (hkey : holdsNodes key → key = "nodes")
    (hne : key ≠ "text") (x : Value) :
    Plain (fs.set key x) :=
  ⟨h.1.set hkey x, (Fields.get?_set_of_ne _ _ hne).trans h.2⟩

/-- Nested entries are plain. -/
theorem plain_of_nest {entries roots : List Value} (h : nest (.list entries) = .ok (.list roots)) :
    ∀ root ∈ roots, NodeTree Plain root := by
  obtain ⟨_, hroots, htrees, -⟩ := nodeTrees_of_nest h
  cases hroots
  exact fun root hroot => (htrees root hroot).imp fun _ h => ⟨h.toNumberable, h.textless⟩

/-- Dividing a section adds no texts. -/
theorem plain_of_withSections {v' : Value} {entries : List Value} (hv : NodeTree Plain v)
    (h : withSections v entries = .ok v') : NodeTree Plain v' := by
  obtain ⟨fs, _, _, roots, gs, rfl, -, -, hnested, rfl, hgs⟩ := exists_of_withSections h
  cases hv with
  | node hfs =>
    have hset : Plain (Fields.set fs "nodes" (.list roots)) :=
      hfs.set (by decide) (by decide) (.list roots)
    have hnodes := Fields.get?_set_self fs "nodes" (.list roots)
    rcases hgs with ⟨rfl, -⟩ | ⟨start, rfl, -⟩
    · exact .node hset (.list hnodes) (plain_of_nest hnested)
    · refine .node (hset.set (by decide) (by decide) start) (.list ?_) (plain_of_nest hnested)
      rw [Fields.get?_set_of_ne _ _ (by decide), hnodes]

/-- Splitting adds no texts. -/
theorem plain_of_splitLarge {pages : List Page} {levels : Nat} {v' : Value} (hv : NodeTree Plain v)
    (h : (splitLarge counter settings pages levels v).Returns session l v' l') :
    NodeTree Plain v' := by
  rw [← map_fst_splitLargeWithLosses] at h
  obtain ⟨r, hlosses, rfl⟩ := returns_map_iff.mp h
  clear h
  induction levels generalizing v r l l' with
  | zero => exact absurd hlosses not_returns_fail
  | succ levels ih =>
    obtain ⟨w, results, hdivided, hresults, -, -, -, hend⟩ :=
      exists_divided_of_splitLargeWithLosses hlosses
    have hplain : NodeTree Plain w := by
      cases hdivided with
      | kept _ => exact hv
      | divided _ _ hsections => exact plain_of_withSections hv hsections
    rcases hend with hend | ⟨fs, rfl, -, hend⟩ <;> rw [hend]
    · exact hplain
    · cases hplain with
      | node hfs hvs hall =>
        refine .node (hfs.set (by decide) (by decide) _) (.list (Fields.get?_set_self _ _ _)) ?_
        refine forall_mem_map.mpr fun r' hr' => ?_
        obtain ⟨c, hc, l₁, l₁', hrun⟩ := exists_left_of_forall₂ hresults r' hr'
        exact ih (hall c (hvs.children_eq ▸ hc)) _ hrun

/-- **The nodes of an outline have no texts of their own.** -/
theorem nodeTrees_of_ofDocument {pages : List Page} {outline : List Value}
    (h : (ofDocument counter settings pages).Returns session l outline l') :
    ∀ v ∈ outline, NodeTree Plain v := by
  rw [← map_fst_ofDocumentWithStages] at h
  obtain ⟨⟨trees, stages⟩, hstages, rfl⟩ := returns_map_iff.mp h
  obtain ⟨⟨rs, hnested⟩, ⟨levels, hsplit⟩, -⟩ := exists_sections_of_ofDocumentWithStages hstages
  intro r hr
  obtain ⟨root, hroot, l₁, l₁', hrun⟩ := exists_left_of_forall₂ hsplit r hr
  exact plain_of_splitLarge (plain_of_nest hnested root hroot) hrun

end Outline

/-! ### Erasure -/

/-- The second outline **is the first one without texts**: the nodes have the same other fields, in
whatever order. -/
inductive Outline.Erased : Value → Value → Prop
  | other {v : Value} (hlist : ∀ items, v ≠ .list items) (hobject : ∀ fs, v ≠ .object fs) :
      Erased v v
  | list {vs ws : List Value} (h : Forall₂ Erased vs ws) : Erased (.list vs) (.list ws)
  | object {fs gs : Fields} (htext : gs.get? "text" = none)
      (hother : ∀ key, key ≠ "nodes" → key ≠ "text" → gs.get? key = fs.get? key)
      (hnodes : Option.Rel Erased (fs.get? "nodes") (gs.get? "nodes")) :
      Erased (.object fs) (.object gs)

namespace Outline

/-- The same node **without its text**. -/
structure Bared (fs gs : Fields) : Prop extends ChangedAt ["text"] fs gs where
  textless : Textless gs

/-- The same forest without texts. -/
inductive Bares : Value → Value → Prop
  | intro {vs ws : List Value} (h : Forall₂ (Parallel Bared) vs ws) :
      Bares (.list vs) (.list ws)

/-- Node by node without texts. -/
theorem erased_of_parallel (h : Parallel Bared v w) : Erased v w := by
  refine Parallel.induction (fun hP hvs hws _ ih => ?_) h
  refine .object hP.textless (fun key hkey htext => hP.agree key (by simp [hkey, htext])) ?_
  cases hvs with
  | none hnone =>
    rw [hnone, hP.nodes.mpr hnone]
    exact .none
  | list hsome =>
    cases hws with
    | none hnone => cases (hP.nodes.mp hnone).symm.trans hsome
    | list hsome' =>
      rw [hsome, hsome']
      exact .some (.list ih)

/-- **Nothing but texts** is missing in a forest without them. -/
theorem erased_of_bares (h : Bares v w) : Erased v w := by
  cases h with
  | intro h => exact .list (h.imp fun _ _ => erased_of_parallel)

/-- A list is described item by item. -/
theorem forDescription_list (items : List Value) :
    forDescription (.list items) = .list (items.map forDescription) := by
  have hmap : forDescriptionList items = items.map forDescription := by
    induction items with
    | nil => rfl
    | cons v rest ih => rw [forDescriptionList, ih, map_cons]
  rw [forDescription, hmap]

/-- The branches of a node, for a description. -/
theorem childrenForDescription_of_branches (h : Branches fs vs) :
    childrenForDescription fs =
      if vs.isEmpty then [] else [("nodes", .list (vs.map forDescription))] := by
  induction h using Branches.induction with
  | nil => rfl
  | nodes vs rest =>
    rw [childrenForDescription, if_pos rfl, forDescription_list]
    cases vs <;> rfl
  | cons k v rest vs hk _ ih => rw [childrenForDescription, if_neg hk, ih]

/-- Lists with the same descriptions. -/
theorem map_forDescription_eq
    (h : Forall₂ (fun v w => forDescription w = forDescription v) vs ws) :
    ws.map forDescription = vs.map forDescription := by
  induction h with
  | nil => rfl
  | cons hvw _ ih => rw [map_cons, map_cons, hvw, ih]

/-- **A description does not depend on texts.** -/
theorem forDescription_of_parallel (h : Parallel Bared v w) :
    forDescription w = forDescription v := by
  have hkeys : ∀ key ∈ describingKeys, key ∉ ["nodes", "text"] := by decide
  have hpick : ∀ {fs gs : Fields}, AgreeBut ["nodes", "text"] fs gs →
      pick describingKeys gs = pick describingKeys fs := fun hagree =>
    filterMap_congr fun key hkey => by rw [hagree key (hkeys key hkey)]
  have hempty : ∀ {vs ws : List Value}, vs.length = ws.length → ws.isEmpty = vs.isEmpty := by
    rintro (_ | _) (_ | _) h <;> first | rfl | cases h
  refine Parallel.induction (fun hP hvs hws hbelow ih => ?_) h
  rw [forDescription, forDescription, hpick hP.agree, childrenForDescription_of_branches hvs,
    childrenForDescription_of_branches hws, hempty hbelow.length_eq, map_forDescription_eq ih]

/-- Descriptions do not show texts. -/
theorem forDescription_of_bares (h : Bares v w) : forDescription w = forDescription v := by
  cases h with
  | intro h =>
    rw [forDescription_list, forDescription_list,
      map_forDescription_eq (h.imp fun _ _ => forDescription_of_parallel)]

/-- Nodes that agree but for texts, of which the second has none. -/
theorem bared_of_branches (hagree : AgreeBut ["nodes", "text"] fs gs) (htext : Textless gs)
    (hfs : fs.get? "nodes" ≠ some (.list []))
    (hgs : gs.get? "nodes" ≠ some (.list [])) (hvs : Branches fs vs) (hws : Branches gs ws)
    (hlength : vs.length = ws.length) : Bared fs gs where
  agree := hagree
  nodes := by rw [get?_nodes_eq_none_iff hvs hfs, get?_nodes_eq_none_iff hws hgs, hlength]
  textless := htext

/-- **Texts can be left out** of a tree. -/
theorem parallel_dropTexts (h : NodeTree p v) : Parallel Bared v (dropTexts v) := by
  induction h with
  | @node fs vs _ hvs _ ih =>
    obtain ⟨gs, hgs, htext, hlifts⟩ := exists_of_dropTexts_object fs
    have hnodes := Fields.get?_erase_of_ne fs (show "text" ≠ "nodes" by decide)
    have hagree : AgreeBut ["nodes", "text"] fs gs := by
      intro key hkey
      have hne : key ≠ "nodes" ∧ "text" ≠ key := by grind
      rw [hlifts.other key hne.1, Fields.get?_erase_of_ne _ hne.2]
    rw [hgs]
    cases hvs with
    | none hnone =>
      have hnone' := hlifts.get?_eq_none (hnodes.trans hnone)
      exact .node ⟨⟨hagree, by rw [hnone, hnone']⟩, htext⟩ (.none hnone) (.none hnone') .nil
    | list hsome =>
      obtain ⟨w, hw, rfl⟩ := hlifts.exists_of_get? (hnodes.trans hsome)
      rw [dropTexts_list] at hw
      refine .node ⟨⟨hagree, by simp [hsome, hw]⟩, htext⟩ (.list hsome) (.list hw) ?_
      exact forall₂_map_right_iff.mpr (forall₂_same.mpr ih)

/-- Dropping texts leaves a tree bare. -/
theorem bares_dropTexts (h : ∀ v ∈ vs, NodeTree p v) : Bares (.list vs) (dropTexts (.list vs)) := by
  rw [dropTexts_list]
  exact .intro (forall₂_map_right_iff.mpr
    (forall₂_same.mpr fun v hv => parallel_dropTexts (h v hv)))

/-- **Adding texts keeps the shape of a tree.** -/
theorem parallel_of_addTexts {textOf : Value → Value → Except Failure String} (h : NodeTree p v)
    (hw : addTexts textOf v = .ok w) : Parallel (ChangedAt ["text"]) v w := by
  induction h generalizing w with
  | node hfs hvs _ ih =>
    obtain ⟨text, -, hw⟩ := bind_eq_ok.mp hw
    obtain ⟨gs, hgs, hw⟩ := bind_eq_ok.mp hw
    cases hw
    rw [addTextsBelow_eq_mapNodes] at hgs
    obtain ⟨ws, hws, hbelow, hagree, hkeys⟩ := exists_of_mapNodes exists_of_addTexts_list hvs hgs
    refine .node ((changedAt_of_keys_eq _ hagree hkeys).set (by simp) (by decide) _) hvs
      (hws.congr (Fields.get?_set_of_ne _ _ (by decide))) ?_
    exact forall₂_imp_of_mem hbelow fun c hc d => ih c hc

/-- Texts that are added to trees without texts are **all that is added**. -/
theorem exists_of_addTexts {textOf : Value → Value → Except Failure String}
    (h : ∀ v ∈ vs, NodeTree Plain v) (hw : addTexts textOf (.list vs) = .ok w) :
    ∃ ws, w = .list ws ∧ (∀ w ∈ ws, NodeTree (fun _ => True) w) ∧ Bares w (.list vs) := by
  obtain ⟨ws, rfl, hws⟩ := exists_of_addTexts_list hw
  have hchanged := forall₂_imp_of_mem hws fun v hv w => parallel_of_addTexts (h v hv)
  refine ⟨ws, rfl, (nodeTrees_of_parallel hchanged).2, .intro ?_⟩
  refine Forall₂.flip (forall₂_imp_of_mem hchanged fun v hv w hvw => ?_)
  refine ((h v hv).parallel_self.comp hvw).swap.imp ?_
  rintro gs fs ⟨_, ⟨rfl, hfs⟩, hchanged⟩
  exact ⟨⟨hchanged.agree.symm, hchanged.nodes.symm⟩, hfs.2⟩

end Outline

/-- An index **is another one without texts**: it has the same fields, but its tree has no texts. -/
structure IsWithoutTexts (full bare : Value) : Prop where
  other : ∀ key, key ≠ "structure" → bare.field? key = full.field? key
  tree : ∃ t t', full.field? "structure" = some t ∧ bare.field? "structure" = some t' ∧
    Outline.Erased t t'

/-- An index around bare trees. -/
theorem isWithoutTexts_of_bares {t t' : Value} (hfs : fs.get? "structure" = none)
    (h : Outline.Bares t t') :
    IsWithoutTexts (.object (fs ++ [("structure", t)])) (.object (fs ++ [("structure", t')])) where
  other key hkey := by
    have hlast : ∀ v : Value, Fields.get? [("structure", v)] key = none := fun _ => if_neg hkey.symm
    rw [Value.field?, Value.field?, Outline.get?_append, Outline.get?_append, hlast, hlast]
  tree := by
    refine ⟨t, t', ?_, ?_, Outline.erased_of_bares h⟩ <;>
      rw [Value.field?, Outline.get?_append, hfs] <;> rfl

/-! ### Documents -/

namespace Document

open Outline

/-- Trees stay trees with summaries. -/
theorem nodeTrees_of_addSummaries {model : Value} (hvs : ∀ v ∈ vs, NodeTree p v)
    (h : (addSummaries model (.list vs)).Returns session l w l') :
    ∃ ws, w = .list ws ∧ ∀ w ∈ ws, NodeTree (fun _ => True) w := by
  obtain ⟨found, _, -, h⟩ := h.of_bind
  obtain ⟨all, _, -, h⟩ := h.of_bind
  obtain ⟨summaries, _, -, h⟩ := h.of_bind
  cases h
  have hchanged : Forall₂ (Parallel (ChangedAt ["summary"])) vs
      (assignList (fun _ => some "summary") vs summaries).1 :=
    parallel_assignList (by decide) (by rintro _ _ ⟨⟩; exact mem_singleton_self _) hvs _
  exact ⟨_, rfl, (nodeTrees_of_parallel hchanged).2⟩

/-- An outline with identifiers, if the settings ask for them. -/
def identified (settings : Settings) (outline : Value) : Run Value := do
  if ← settings.isYes "if_add_node_id" then decorate.withIdentifiers outline else pure outline

/-- An outline with summaries, and a description if the settings ask for it. Texts may be left out
afterwards. -/
def summarized (settings : Settings) (dropped : Bool) (outline : Value) :
    Run (Value × Option Value) := do
  let outline ← addSummaries (← settings.get "model") outline
  let outline := if dropped then dropTexts outline else outline
  if !(← settings.isYes "if_add_doc_description") then return (outline, none)
  let description ← describe (← settings.get "model") (forDescription outline)
  return (outline, some description)

section

variable (settings : Settings) (pages : List Page) (outline : Value)

/-- Decorating with texts. -/
theorem decorate_with_texts :
    decorate (settings.set "if_add_node_text" (.str "yes")) pages outline = (do
      let outline ← identified settings outline
      let outline ← decorate.withTexts pages outline
      if !(← settings.isYes "if_add_node_summary") then return (outline, none)
      summarized settings false outline) := by
  have hno : Value.isStr (.str "yes") "no" = false := by decide
  unfold decorate identified summarized
  simp (disch := decide) only [Settings.isYes_yes, Settings.get_set_self, Settings.isYes_set_of_ne,
    Settings.get_set_of_ne, lift_ok_bind, hno, Bool.false_eq_true, if_true, if_false, pure_bind,
    bind_assoc]
  refine bind_congr fun numbered => ?_
  cases numbered <;> rfl

/-- Decorating without texts. -/
theorem decorate_without_texts :
    decorate (settings.set "if_add_node_text" (.str "no")) pages outline = (do
      let outline ← identified settings outline
      if !(← settings.isYes "if_add_node_summary") then return (outline, none)
      let outline ← decorate.withTexts pages outline
      summarized settings true outline) := by
  have hno : Value.isStr (.str "no") "no" = true := by decide
  unfold decorate identified summarized
  simp (disch := decide) only [Settings.isYes_no, Settings.get_set_self, Settings.isYes_set_of_ne,
    Settings.get_set_of_ne, lift_ok_bind, hno, Bool.false_eq_true, if_true, if_false, pure_bind,
    bind_assoc]
  refine bind_congr fun numbered => ?_
  cases numbered <;> rfl

end

/-- Trees stay plain with identifiers. -/
theorem nodeTrees_of_identified (hvs : ∀ v ∈ vs, NodeTree Plain v)
    (h : (identified settings (.list vs)).Returns session l w l') :
    ∃ ws, w = .list ws ∧ ∀ w ∈ ws, NodeTree Plain w := by
  obtain ⟨numbered, _, -, h⟩ := h.of_bind
  split at h
  · obtain ⟨⟨w', n⟩, _, hw, h⟩ := h.of_bind
    cases h
    obtain ⟨ws, _, hnumber, hparallel, -⟩ :=
      exists_number_list (fun v hv => (hvs v hv).imp fun _ h => h.1) 0
    cases hw.of_lift.symm.trans hnumber
    refine ⟨ws, rfl, fun w hw => ?_⟩
    obtain ⟨v, hv, hvw⟩ := exists_left_of_forall₂ hparallel w hw
    refine ((hvs v hv).parallel_self.comp hvw).nodeTree_right ?_
    rintro _ gs ⟨fs, ⟨rfl, hfs⟩, hidentified⟩
    exact ⟨hidentified.numberable, (hidentified.agree _ (by decide)).trans hfs.2⟩
  · cases h
    exact ⟨vs, rfl, hvs⟩

/-- Summaries and descriptions do not depend on whether texts are left out afterwards. -/
theorem summarized_follows (settings : Settings) (hvs : ∀ v ∈ vs, NodeTree p v) :
    Follows (fun full bare => bare.2 = full.2 ∧ Bares full.1 bare.1)
      (summarized settings false (.list vs)) (summarized settings true (.list vs)) := by
  refine follows_bind_self fun model => ?_
  refine (follows_self (nodeTrees_of_addSummaries hvs)).bind ?_
  rintro _ _ ⟨rfl, ws, rfl, hws⟩
  have hbares := bares_dropTexts hws
  refine follows_bind_self fun described => ?_
  rw [if_neg Bool.false_ne_true, if_pos rfl, forDescription_of_bares hbares]
  cases described with
  | false => exact follows_pure ⟨rfl, hbares⟩
  | true =>
    refine follows_bind_self fun model => ?_
    exact follows_bind_self fun description => follows_pure ⟨rfl, hbares⟩

/-- **What the settings ask for is the same with and without texts**, but for the texts. -/
theorem decorate_follows (settings : Settings) (pages : List Page) {outline : List Value}
    (hplain : ∀ v ∈ outline, NodeTree Plain v) :
    Follows (fun full bare => bare.2 = full.2 ∧ Bares full.1 bare.1)
      (decorate (settings.set "if_add_node_text" (.str "yes")) pages (.list outline))
      (decorate (settings.set "if_add_node_text" (.str "no")) pages (.list outline)) := by
  rw [decorate_with_texts, decorate_without_texts]
  refine (follows_self (nodeTrees_of_identified hplain)).bind ?_
  rintro _ _ ⟨rfl, vs, rfl, hvs⟩
  intro session l full l' hfull
  obtain ⟨w, _, hw, hrest⟩ := hfull.of_bind
  obtain ⟨hok, rfl⟩ := returns_lift_iff.mp hw
  obtain ⟨ws, rfl, hws, hbares⟩ := exists_of_addTexts hvs hok
  obtain ⟨summaries, _, hsummaries, h⟩ := hrest.of_bind
  obtain ⟨-, rfl⟩ := returns_lift_iff.mp hsummaries
  cases summaries with
  | false =>
    cases h
    exact ⟨(.list vs, none), hsummaries.bind rfl, rfl, hbares⟩
  | true =>
    obtain ⟨bare, hbare, hsame⟩ := summarized_follows settings hws _ _ _ _ h
    exact ⟨bare, hsummaries.bind (hw.bind hbare), hsame⟩

/-- Documents: without texts, the same requests. -/
theorem index_follows (pdf : Pdf) (isFile : String → Bool) (source : Pdf.Source)
    (counter : TokenCounter) (settings : Settings) :
    Follows IsWithoutTexts
      (index pdf isFile source counter (settings.set "if_add_node_text" (.str "yes")))
      (index pdf isFile source counter (settings.set "if_add_node_text" (.str "no"))) := by
  unfold index
  refine Follows.logged (follows_bind_self fun _ => ?_)
  split
  · exact fun _ _ _ _ h => absurd h not_returns_fail
  · refine follows_bind_self fun _ => ?_
    refine follows_bind_self fun pages => ?_
    refine follows_bind_self fun _ => ?_
    refine follows_bind_self fun _ => ?_
    rw [ofDocument_congr (settings.sameElsewhere_set (.str "yes")),
      ofDocument_congr (settings.sameElsewhere_set (.str "no"))]
    refine (follows_self nodeTrees_of_ofDocument).bind ?_
    rintro _ outline ⟨rfl, hplain⟩
    refine (decorate_follows settings pages hplain).bind ?_
    rintro ⟨full, _⟩ ⟨bare, description?⟩ ⟨rfl, hbares⟩
    refine follows_bind_self fun name => ?_
    cases description? with
    | none => exact follows_pure (@isWithoutTexts_of_bares [_] _ _ rfl hbares)
    | some description => exact follows_pure (@isWithoutTexts_of_bares [_, _] _ _ rfl hbares)

end Document

/-! ### Markdown texts -/

namespace Markdown

open Outline Markdown.Tree

/-- A Markdown text gives trees of nodes. -/
theorem nodeTrees_of_treeOfText {options : IndexOptions} {text : String}
    (h : (treeOfText counter options text).Returns session l tree l') :
    ∃ vs, tree = .list vs ∧ ∀ v ∈ vs, NodeTree (fun _ => True) v := by
  obtain ⟨all, _, hall, h⟩ := h.of_bind
  obtain ⟨-, _, -, h⟩ := h.of_bind
  rw [treeOf_eq (isSection_of_sectionsOf hall), lift_ok_bind] at h
  have htrees := nodeTrees_nested all
  split at h
  · obtain ⟨⟨tree', n⟩, _, htree, h⟩ := h.of_bind
    cases h
    obtain ⟨ws, _, hnumber, hparallel, -⟩ :=
      exists_number_list (fun v hv => (htrees v hv).imp fun _ h => h.1) 0
    cases htree.of_lift.symm.trans hnumber
    exact ⟨ws, rfl, (nodeTrees_of_parallel hparallel).2⟩
  · cases h
    exact ⟨_, rfl, fun v hv => (htrees v hv).imp fun _ _ => trivial⟩

/-- The orders differ in the text only. -/
theorem mem_orderWithoutText (key : String) :
    key ∈ orderWithoutText ↔ key ∈ orderWithText ∧ key ≠ "text" := by
  have hfilter : orderWithoutText = orderWithText.filter (· ≠ "text") := by decide
  rw [hfilter, mem_filter, decide_eq_true_iff]

/-- A node **shown with its text**: there are no fields but those of the order, and no empty field
`nodes`. -/
structure ShownWithText (fs : Fields) : Prop where
  known : ∀ key, key ∉ orderWithText → fs.get? key = none
  nodes : fs.get? "nodes" ≠ some (.list [])

/-- What an order with texts shows. -/
theorem shownWithText_of_shownAs (h : ShownAs orderWithText fs gs) : ShownWithText gs where
  known key hkey := by
    rw [h.other key (by rintro rfl; exact hkey (by decide)), if_neg hkey]
  nodes := h.nodes

/-- Summaries stand in fields of the order. -/
theorem ShownWithText.of_changedAt (h : ShownWithText fs)
    (hchanged : ChangedAt ["summary", "prefix_summary"] fs gs) (hvs : Branches fs vs)
    (hws : Branches gs ws) (hlength : vs.length = ws.length) : ShownWithText gs where
  known key hkey := by
    have hmem : ∀ key ∈ ["nodes", "summary", "prefix_summary"], key ∈ orderWithText := by decide
    rw [hchanged.agree key fun h => hkey (hmem key h), h.known key hkey]
  nodes hempty := by
    obtain rfl := hws.unique (.list hempty)
    have hnone := (get?_nodes_eq_none_iff hvs h.nodes).mpr hlength
    cases (hchanged.nodes.mpr hnone).symm.trans hempty

/-- A node shown **without its text** after it is shown with it. -/
theorem ShownWithText.bared (h : ShownWithText fs) (hshown : ShownAs orderWithoutText fs gs)
    (hvs : Branches fs vs) (hws : Branches gs ws) (hlength : vs.length = ws.length) :
    Bared fs gs := by
  refine bared_of_branches (fun key hkey => ?_) ?_ h.nodes hshown.nodes hvs hws hlength
  · have hne : key ≠ "nodes" ∧ key ≠ "text" := by grind
    rw [hshown.other key hne.1]
    split
    · rfl
    · rename_i hnot
      exact (h.known key fun hmem => hnot ((mem_orderWithoutText key).mpr ⟨hmem, hne.2⟩)).symm
  · exact hshown.other "text" (by decide)

/-- Showing a node with its text first changes nothing if it is shown without it then. -/
theorem shownAs_of_both (hgs : ShownAs orderWithText fs gs) (hhs : ShownAs orderWithoutText fs hs) :
    ShownAs orderWithoutText gs hs where
  other key hkey := by
    rw [hhs.other key hkey, hgs.other key hkey]
    split
    · rename_i hmem
      rw [if_pos ((mem_orderWithoutText key).mp hmem).1]
    · rfl
  keys := hhs.keys
  nodes := hhs.nodes

/-- The order without texts leaves trees bare. -/
theorem bares_of_shown (h : Forall₂ (Parallel fun fs gs =>
      ShownWithText fs ∧ ShownAs orderWithoutText fs gs) vs ws) : Bares (.list vs) (.list ws) :=
  .intro (h.imp fun _ _ h => h.imp_of_branches fun _ _ _ _ hshown hvs hws hlength =>
    hshown.1.bared hshown.2 hvs hws hlength)

/-- Formatting **with and without texts** differs in the texts. -/
theorem formatted_follows (hvs : ∀ v ∈ vs, NodeTree p v) :
    Follows Bares (liftM (format (.list vs) (.ofTexts orderWithText)))
      (liftM (format (.list vs) (.ofTexts orderWithoutText))) := by
  obtain ⟨ws, hws, hfull⟩ :=
    exists_formatWith_parallel_list (show orderWithText.Nodup by decide) (by decide) hvs
  obtain ⟨us, hus, hbare⟩ :=
    exists_formatWith_parallel_list (show orderWithoutText.Nodup by decide) (by decide) hvs
  rw [format_ofTexts (by decide), format_ofTexts (by decide), hws, hus]
  refine follows_pure (bares_of_shown ?_)
  refine (forall₂_comp hfull.flip hbare).imp ?_
  rintro w u ⟨v, hvw, hvu⟩
  have hvw : Parallel (ShownAs orderWithText) v w := hvw
  refine (hvw.swap.comp hvu).imp ?_
  rintro gs hs ⟨fs, hgs, hhs⟩
  exact ⟨shownWithText_of_shownAs hgs, shownAs_of_both hgs hhs⟩

/-- Nodes with summaries are shown with their texts. -/
theorem nodeTrees_of_addSummaries {model threshold : Value}
    (hvs : ∀ v ∈ vs, NodeTree ShownWithText v)
    (h : (addSummaries counter model threshold (.list vs)).Returns session l w l') :
    ∃ ws, w = .list ws ∧ ∀ w ∈ ws, NodeTree ShownWithText w := by
  obtain ⟨found, _, -, h⟩ := h.of_bind
  obtain ⟨all, _, -, h⟩ := h.of_bind
  obtain ⟨summaries, _, -, h⟩ := h.of_bind
  cases h
  have hchanged : Forall₂ (Parallel (ChangedAt ["summary", "prefix_summary"])) vs
      (assignList (fun fs => some (summaryKey fs)) vs summaries).1 :=
    parallel_assignList (by decide) (by rintro fs _ ⟨⟩; exact summaryKey_mem fs) hvs summaries
  refine ⟨_, rfl, fun w hw => ?_⟩
  obtain ⟨v, hv, hvw⟩ := exists_left_of_forall₂ hchanged w hw
  refine (((hvs v hv).parallel_self.comp hvw).imp_of_branches (Q := fun _ gs => ShownWithText gs)
    ?_).nodeTree_right fun _ _ h => h
  rintro _ gs us us' ⟨fs, ⟨rfl, hfs⟩, hchanged⟩ hus hus' hlength
  exact hfs.of_changedAt hchanged hus hus' hlength

/-- Summaries take the same requests. -/
theorem summarized_follows (counter : TokenCounter) (options : IndexOptions)
    (hvs : ∀ v ∈ vs, NodeTree p v) :
    Follows Bares (summarized counter { options with text := .str "yes" } (.list vs))
      (summarized counter { options with text := .str "no" } (.list vs)) := by
  obtain ⟨ws, hws, hshown⟩ :=
    exists_formatWith_parallel_list (show orderWithText.Nodup by decide) (by decide) hvs
  have hshown : ∀ w ∈ ws, NodeTree ShownWithText w := fun w hw => by
    obtain ⟨v, -, hvw⟩ := exists_left_of_forall₂ hshown w hw
    exact hvw.nodeTree_right fun _ _ => shownWithText_of_shownAs
  unfold summarized
  rw [format_ofTexts (by decide), hws, lift_ok_bind, lift_ok_bind]
  refine follows_bind_self fun _ => ?_
  refine (follows_self (nodeTrees_of_addSummaries hshown)).bind ?_
  rintro _ _ ⟨rfl, us, rfl, hus⟩
  dsimp only
  obtain ⟨xs, hxs, hbare⟩ :=
    exists_formatWith_parallel_list (show orderWithoutText.Nodup by decide) (by decide) hus
  rw [if_neg (by decide), if_pos (by decide), format_ofTexts (by decide), hxs]
  refine follows_pure (bares_of_shown (forall₂_imp_of_mem hbare fun u hu x hux => ?_))
  refine ((hus u hu).parallel_self.comp hux).imp ?_
  rintro _ gs ⟨fs, ⟨rfl, hfs⟩, hshown⟩
  exact ⟨hfs, hshown⟩

/-- Markdown: without texts, the same requests. -/
theorem index_follows (files : Files) (counter : TokenCounter) (options : IndexOptions)
    (path : String) :
    Follows IsWithoutTexts (index files counter { options with text := .str "yes" } path)
      (index files counter { options with text := .str "no" } path) := by
  refine follows_bind_self fun text => ?_
  refine (@follows_self _ (treeOfText counter options text) _ nodeTrees_of_treeOfText).bind ?_
  rintro _ _ ⟨rfl, vs, rfl, hvs⟩
  refine follows_bind_self fun _ => ?_
  dsimp only
  split
  · refine (summarized_follows counter options hvs).bind fun full bare hbares => ?_
    split
    · refine follows_bind_self fun _ => ?_
      rw [forDescription_of_bares hbares]
      exact follows_bind_self fun description =>
        follows_pure (@isWithoutTexts_of_bares [_, _] _ _ rfl hbares)
    · exact follows_pure (@isWithoutTexts_of_bares [_] _ _ rfl hbares)
  · rw [if_pos (by decide), if_neg (by decide)]
    exact (formatted_follows hvs).bind fun _ _ hbares =>
      follows_pure (@isWithoutTexts_of_bares [_] _ _ rfl hbares)

end Markdown

/-! ### Source code -/

namespace Code

open Outline

/-- A presentation takes the same requests. -/
theorem presented_follows (options : IndexOptions) (h : NodeTree Known tree) :
    Follows (Parallel Bared) (liftM (presented { options with text := .str "yes" } tree))
      (liftM (presented { options with text := .str "no" } tree)) := by
  obtain ⟨full, hfull, hshows⟩ := exists_presented_parallel { options with text := .str "yes" } h
  obtain ⟨bare, hbare, hshows'⟩ := exists_presented_parallel { options with text := .str "no" } h
  rw [hfull, hbare]
  refine follows_pure ((hshows.swap.comp hshows').imp_of_branches ?_)
  rintro gs hs vs ws ⟨fs, hgs, hhs⟩ hvs hws hlength
  have hgs : ShowsBut ["path"] fs gs := hgs
  have hhs : ShowsBut ["path", "text"] fs hs := hhs
  refine bared_of_branches (fun key hkey => ?_) (hhs.gone _ (by decide)) hgs.nodes hhs.nodes hvs hws
    hlength
  by_cases hpath : key = "path"
  · rw [hpath, hgs.gone _ (by decide), hhs.gone _ (by decide)]
  · rw [hgs.agree key (by simp_all), hhs.agree key (by simp_all)]

/-- Source code: without texts, the same requests. -/
theorem index_follows (around : Surroundings) (counter : TokenCounter) (options : IndexOptions)
    (path : String) :
    Follows IsWithoutTexts (index around counter { options with text := .str "yes" } path)
      (index around counter { options with text := .str "no" } path) := by
  refine (@follows_self _ (sourceTree around (around.files.absolute path))
    (fun source => ∀ tree ∈ source.1, NodeTree Declared tree)
    fun {_ _ source _} h tree htree => ?_).bind ?_
  · obtain ⟨tree?, name⟩ := source
    cases htree
    exact nodeTree_of_sourceTree h
  rintro _ ⟨tree?, name⟩ ⟨rfl, hsource⟩
  cases tree? with
  | none => exact fun _ _ _ _ h => absurd h not_returns_fail
  | some source =>
    refine (@follows_self _ (completed counter options source) (NodeTree Known) fun h => ?_).bind ?_
    · obtain ⟨_, _, _, -, -, hknown, -⟩ := exists_of_completed (hsource source rfl) h
      exact hknown
    rintro _ tree ⟨rfl, hknown⟩
    refine (presented_follows options hknown).bind fun full bare hparallel => ?_
    dsimp only
    have hbares : Bares (.list [full]) (.list [bare]) := .intro (.cons hparallel .nil)
    split
    · refine follows_bind_self fun _ => ?_
      rw [forDescription_of_parallel hparallel]
      exact follows_bind_self fun description =>
        follows_pure (@isWithoutTexts_of_bares [_, _] _ _ rfl hbares)
    · exact follows_pure (@isWithoutTexts_of_bares [_] _ _ rfl hbares)

end Code

/-- **The choice of texts changes nothing but texts.** Whenever a document, a Markdown text or
source code is indexed with texts, it is indexed without them by the same requests, and the index is
the same without texts. -/
theorem text_option_only_erases :
    (∀ (pdf : Pdf) (isFile : String → Bool) (source : Pdf.Source) (counter : TokenCounter)
      (settings : Settings), Follows IsWithoutTexts
        (Document.index pdf isFile source counter (settings.set "if_add_node_text" (.str "yes")))
        (Document.index pdf isFile source counter (settings.set "if_add_node_text" (.str "no")))) ∧
    (∀ (files : Files) (counter : TokenCounter) (options : Markdown.IndexOptions) (path : String),
      Follows IsWithoutTexts (Markdown.index files counter { options with text := .str "yes" } path)
        (Markdown.index files counter { options with text := .str "no" } path)) ∧
    (∀ (around : Code.Surroundings) (counter : TokenCounter) (options : Code.IndexOptions)
      (path : String),
      Follows IsWithoutTexts (Code.index around counter { options with text := .str "yes" } path)
        (Code.index around counter { options with text := .str "no" } path)) :=
  ⟨Document.index_follows, Markdown.index_follows, Code.index_follows⟩

/-- A Markdown text with a section in a section, and a class with a method. -/
def notesAndClass : Files where
  home := "/home"
  top := .directory
    [("Main.java", .file (some "class Main \x7b\n  int run() \x7b return 1; \x7d\n\x7d\n")),
      ("notes.md", .file (some "# A\none\n## B\ntwo\n"))]

/-- Settings that ask for summaries and a description. -/
def describing : Settings :=
  Outline.shortSections ++ [("if_add_node_id", .str "yes"), ("if_add_node_summary", .str "yes"),
    ("if_add_doc_description", .str "yes")]

/-- Two pieces of work return an index with a description, and the same one without texts. -/
def DescribeAlike (session : Session) (full bare : Run Value) : Prop :=
  ∃ index index' l, full.Returns session {} index l ∧
    index.field? "doc_description" = some (.str "all") ∧ bare.Returns session {} index' l ∧
    IsWithoutTexts index index'

/-- What is the same but for texts has the same description. -/
theorem describeAlike_of_follows {full bare : Run Value} (h : Follows IsWithoutTexts full bare)
    (hdescription : (full.execute session {}).1.map (Value.field? · "doc_description") =
      .ok (some (.str "all"))) : DescribeAlike session full bare := by
  obtain ⟨index, l, hfull, hdescribed⟩ := returns_of_map_outcome hdescription
  obtain ⟨index', hbare, herased⟩ := h _ _ _ _ hfull
  exact ⟨index, index', l, hfull, hdescribed, hbare, herased⟩

/-- Three indexes with descriptions. -/
theorem described_indexes_lose_texts :
    let paper : Pdf := { pages := ["one", "two", "three"] }
    let document := Document.index paper (fun _ => true) (.path (.str "paper.pdf")) .bytes
    let sections : Markdown.IndexOptions :=
      { summary := .str "yes", summaryThreshold := .int 0, description := .str "yes" }
    let notes := (Markdown.index notesAndClass .bytes · "notes.md")
    let classes : Code.IndexOptions :=
      { summary := .str "yes", summaryThreshold := .int 0, description := .str "yes" }
    let code := (Code.index { files := notesAndClass } .bytes · "Main.java")
    DescribeAlike
        (scripted (replicate 3 Outline.noTable ++ Contents.proposal [("A", 2), ("B", 3)] ::
          (replicate 2 Outline.appears ++ replicate 3 Outline.beginsInside ++
            ["preface", "first", "second", "all"])))
        (document (describing.set "if_add_node_text" (.str "yes")))
        (document (describing.set "if_add_node_text" (.str "no"))) ∧
      DescribeAlike (scripted ["first", "second", "all"])
        (notes { sections with text := .str "yes" })
        (notes { sections with text := .str "no" }) ∧
      DescribeAlike (scripted ["file", "class", "method", "all"])
        (code { classes with text := .str "yes" }) (code { classes with text := .str "no" }) := by
  obtain ⟨hdocument, hmarkdown, hcode⟩ := text_option_only_erases
  intro paper document sections notes classes code
  refine ⟨describeAlike_of_follows (hdocument _ _ _ _ _) ?_,
    describeAlike_of_follows (hmarkdown _ _ sections _) ?_,
    describeAlike_of_follows (hcode _ _ classes _) ?_⟩
  · decide +kernel
  · decide +kernel
  · decide +kernel

end DocTree
