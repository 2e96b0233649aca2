import DocTree.Markdown.Index
import DocTree.Proofs.Identifiers
import DocTree.Proofs.Nesting

/-!
# The choice of identifiers in Markdown indexes

The nodes of a Markdown tree are numbered from one on at first. If identifiers are wanted, they are
numbered anew from zero on; otherwise the first ones stay.
-/

namespace DocTree

open Run List

variable {fs gs : Fields} {all : List Value} {s : Value}

/-! ### Forests numbered twice -/

namespace Outline

/-- Two forests of the same shape, one numbered **from zero** on and the other **from one** on. -/
inductive Renumbered (P : Fields → Fields → Prop) : Value → Value → Prop
  | intro {vs ws ms ns : List Value} (hparallel : Forall₂ (Parallel P) vs ws)
      (hms : nodes (.list vs) = .ok (some ms)) (hns : nodes (.list ws) = .ok (some ns))
      (hzero : NumberedFrom 0 ms) (hone : NumberedFrom 1 ns) : Renumbered P (.list vs) (.list ws)

/-- Two nodes that agree but for identifiers, of which both have one or none has. -/
def OtherIdentifier (fs gs : Fields) : Prop :=
  AgreeBut ["nodes", "node_id"] fs gs ∧
    (gs.get? "node_id" = none ↔ fs.get? "node_id" = none)

/-- A relation between nodes that leaves identifiers as they are. -/
def KeepsIdentifiers (A : Fields → Fields → Prop) : Prop :=
  ∀ fs gs, A fs gs → gs.get? "node_id" = fs.get? "node_id"

/-- The same node with another identifier. -/
theorem otherIdentifier_of_sameBut (h : SameBut ["nodes", "node_id"] fs gs) :
    OtherIdentifier fs gs := by
  refine ⟨h.agree, not_iff_not.mp ?_⟩
  rw [← ne_eq, ← ne_eq, ← mem_keys_iff, ← mem_keys_iff, h.order]

section

variable {P Q A B : Fields → Fields → Prop} {vs ws vs' ws' : List Value} {v w : Value}

/-- Identifiers are kept along. -/
theorem exists_numberedFrom_of_parallel (hA : KeepsIdentifiers A)
    (h : Forall₂ (Parallel A) vs vs') {n : Nat} {ms : List Value}
    (hms : nodes (.list vs) = .ok (some ms)) (hids : NumberedFrom n ms) :
    ∃ ms', nodes (.list vs') = .ok (some ms') ∧ NumberedFrom n ms' := by
  obtain ⟨ms₁, ms', hms₁, hms', hparallel⟩ := exists_nodes_of_parallel_lists h
  cases hms.symm.trans hms₁
  exact ⟨ms', hms', hids.of_parallel hA hparallel⟩

/-- Forests stay numbered **along operations** that keep shapes and identifiers. -/
theorem Renumbered.along (hA : KeepsIdentifiers A) (hB : KeepsIdentifiers B)
    (h : Renumbered P (.list vs) (.list ws)) (hvs : Forall₂ (Parallel A) vs vs')
    (hws : Forall₂ (Parallel B) ws ws') (hQ : Forall₂ (Parallel Q) vs' ws') :
    Renumbered Q (.list vs') (.list ws') := by
  cases h with
  | intro hparallel hms hns hzero hone =>
    obtain ⟨ms', hms', hzero'⟩ := exists_numberedFrom_of_parallel hA hvs hms hzero
    obtain ⟨ns', hns', hone'⟩ := exists_numberedFrom_of_parallel hB hws hns hone
    exact .intro hQ hms' hns' hzero' hone'

/-- Shown nodes are **the same but for identifiers** if they were, up to the order of fields. -/
theorem sameBut_of_shownAs {order : List String} {fs' gs' : Fields} (hfs : ShownAs order fs fs')
    (hgs : ShownAs order gs gs') (h : OtherIdentifier fs gs) (hvs : Branches fs' vs)
    (hws : Branches gs' ws) (hlength : vs.length = ws.length) :
    SameBut ["nodes", "node_id"] fs' gs' := by
  have hagree : AgreeBut ["nodes", "node_id"] fs' gs' := by
    intro key hkey
    have hne : key ≠ "nodes" := fun h => hkey (by simp [h])
    rw [hfs.other key hne, hgs.other key hne, h.1 key hkey]
  have habsent : ∀ key, gs'.get? key = none ↔ fs'.get? key = none := by
    intro key
    by_cases hnodes : key = "nodes"
    · subst hnodes
      rw [get?_nodes_eq_none_iff hvs hfs.nodes, get?_nodes_eq_none_iff hws hgs.nodes, hlength]
    · by_cases hid : key = "node_id"
      · subst hid
        rw [hfs.other _ hnodes, hgs.other _ hnodes]
        split
        · exact h.2
        · rfl
      · rw [hagree key (by simp [hnodes, hid])]
  refine ⟨?_, hagree⟩
  rw [hfs.keys, hgs.keys]
  refine filter_congr fun key _ => ?_
  rw [Bool.eq_iff_iff, Option.isSome_iff_ne_none, Option.isSome_iff_ne_none]
  exact not_iff_not.mpr (habsent key)

/-- **Formatting** two forests that are numbered differently. -/
theorem Renumbered.exists_formatWith {order : List String} (hnodup : order.Nodup)
    (hnodes : "nodes" ∈ order) (hid : "node_id" ∈ order)
    (hP : ∀ fs gs, P fs gs → OtherIdentifier fs gs) (h : Renumbered P v w) :
    ∃ v' w', formatWith (.ok order) v = .ok v' ∧ formatWith (.ok order) w = .ok w' ∧
      Renumbered (SameBut ["nodes", "node_id"]) v' w' := by
  have hself := h
  cases h with
  | @intro vs ws _ _ hparallel =>
    obtain ⟨hvs, hws⟩ := nodeTrees_of_parallel hparallel
    obtain ⟨vs', hvs', hvs⟩ := exists_formatWith_parallel_list hnodup hnodes hvs
    obtain ⟨ws', hws', hws⟩ := exists_formatWith_parallel_list hnodup hnodes hws
    have hkept : KeepsIdentifiers (ShownAs order) := fun fs gs hshown => by
      rw [hshown.other _ (by decide), if_pos hid]
    refine ⟨_, _, hvs', hws', hself.along hkept hkept hvs hws ?_⟩
    -- back from one formatted forest, over to the other one, and forth
    refine (forall₂_comp (forall₂_comp hvs.flip hparallel) hws).imp ?_
    rintro v' w' ⟨w, ⟨v, hv, hvw⟩, hw⟩
    have hv : Parallel (ShownAs order) v v' := hv
    refine ((hv.swap.comp hvw).comp hw).imp_of_branches ?_
    rintro fs' gs' us us' ⟨gs, ⟨fs, hfs, hfsgs⟩, hgs⟩ hus hus' hlength
    exact sameBut_of_shownAs hfs hgs (hP fs gs hfsgs) hus hus' hlength

end

/-- The field for the summary of a node with some number of branches. -/
def summaryKeyFor (n : Nat) : String := if n = 0 then "summary" else "prefix_summary"

/-- Summaries are no branches. -/
theorem summaryKeyFor_ne_nodes (n : Nat) : summaryKeyFor n ≠ "nodes" := by
  unfold summaryKeyFor
  split <;> decide

/-- The field for a summary depends on the number of branches. -/
theorem summaryKey_of_branches {vs : List Value} (h : Branches fs vs) :
    summaryKey fs = summaryKeyFor vs.length := by
  have htruthy : ((fs.get? "nodes").getD .null).isTruthy = !vs.isEmpty := by
    cases h with
    | none h => rw [h]; rfl
    | list h => rw [h]; rfl
  rw [summaryKey, htruthy]
  cases vs <;> rfl

end Outline

namespace Markdown

open Outline Markdown.Tree

/-! ### Sections -/

/-- A section by its fields. -/
theorem isSection_iff : IsSection s ↔
    (∀ key ∈ ["title", "text", "line_num"], s.field? key ≠ none) ∧ s.intField? "level" ≠ none := by
  have hpart : ∀ key, s.field? key ≠ none → s.field? key = some (part s key) := by
    intro key hkey
    obtain ⟨x, hx⟩ := Option.ne_none_iff_exists'.mp hkey
    rw [part, hx, Option.getD_some]
  constructor
  · rintro ⟨htitle, htext, hline, hlevel⟩
    simp [htitle, htext, hline, hlevel]
  · rintro ⟨hfields, hlevel⟩
    obtain ⟨n, hn⟩ := Option.ne_none_iff_exists'.mp hlevel
    exact ⟨hpart _ (hfields _ (by simp)), hpart _ (hfields _ (by simp)),
      hpart _ (hfields _ (by simp)), by rw [levelOf, hn, Option.getD_some]⟩

/-- A section stays one when a field other than its level is set. -/
theorem IsSection.of_setField {s' x : Value} {key : String} (h : IsSection s) (hkey : key ≠ "level")
    (hs : s.setField key x = .ok s') : IsSection s' := by
  obtain ⟨fields, rfl, rfl⟩ := Value.setField_eq_ok_iff.mp hs
  obtain ⟨hfields, hlevel⟩ := isSection_iff.mp h
  refine isSection_iff.mpr ⟨fun other hother => ?_, ?_⟩
  · by_cases heq : key = other
    · rw [heq, Value.field?_object, Fields.get?_set_self]
      exact Option.some_ne_none x
    · rw [Value.field?_object, Fields.get?_set_of_ne _ _ heq]
      exact hfields other hother
  · rw [Value.intField?_set_of_ne _ _ hkey]
    exact hlevel

/-- What is read are sections. -/
theorem isSection_of_sectionValues {lines : List String} {os : List Opening}
    (h : sectionValues lines os = .ok all) : ∀ s ∈ all, IsSection s := by
  induction os generalizing all with
  | nil =>
    cases h
    exact forall_mem_nil _
  | cons o rest ih =>
    obtain ⟨s, hs, h⟩ := bind_eq_ok.mp h
    obtain ⟨more, hmore, h⟩ := bind_eq_ok.mp h
    cases h
    obtain ⟨first, -, hs⟩ := bind_eq_ok.mp hs
    obtain ⟨last, -, hs⟩ := bind_eq_ok.mp hs
    cases hs
    exact forall_mem_cons.mpr ⟨⟨rfl, rfl, rfl, rfl⟩, ih hmore⟩

variable {count : Value → Except Failure Nat}

/-- Counted sections are sections. -/
theorem isSection_of_countTokens {counted : List Value} (hall : ∀ s ∈ all, IsSection s)
    (h : countTokens count all = .ok counted) : ∀ s ∈ counted, IsSection s := by
  induction all generalizing counted with
  | nil =>
    cases h
    exact forall_mem_nil _
  | cons s rest ih =>
    obtain ⟨hs, hrest⟩ := forall_mem_cons.mp hall
    obtain ⟨more, hmore, h⟩ := bind_eq_ok.mp h
    obtain ⟨level, -, h⟩ := bind_eq_ok.mp h
    obtain ⟨n, -, h⟩ := bind_eq_ok.mp h
    obtain ⟨text, -, h⟩ := bind_eq_ok.mp h
    obtain ⟨total, -, h⟩ := bind_eq_ok.mp h
    obtain ⟨m, -, h⟩ := bind_eq_ok.mp h
    obtain ⟨s', hs', h⟩ := bind_eq_ok.mp h
    cases h
    exact forall_mem_cons.mpr ⟨hs.of_setField (by decide) hs', ih hrest hmore⟩

/-- So are those with more text. -/
theorem IsSection.of_takeOver {s' : Value} {texts : List Value} (hs : IsSection s)
    (h : takeOver count s texts = .ok s') : IsSection s' := by
  unfold takeOver at h
  split at h
  · cases h
    exact hs
  · obtain ⟨text, -, h⟩ := bind_eq_ok.mp h
    obtain ⟨merged, -, h⟩ := bind_eq_ok.mp h
    obtain ⟨between, hbetween, h⟩ := bind_eq_ok.mp h
    obtain ⟨n, -, h⟩ := bind_eq_ok.mp h
    exact (hs.of_setField (by decide) hbetween).of_setField (by decide) h

/-- So are marked ones. -/
theorem isSection_of_mark {threshold : Value} {marked : List Marked} (hall : ∀ s ∈ all, IsSection s)
    (h : mark count threshold all = .ok marked) : ∀ m ∈ marked, IsSection m.node := by
  induction all generalizing marked with
  | nil =>
    cases h
    exact forall_mem_nil _
  | cons s rest ih =>
    obtain ⟨hs, hrest⟩ := forall_mem_cons.mp hall
    obtain ⟨more, hmore, h⟩ := bind_eq_ok.mp h
    obtain ⟨level, -, h⟩ := bind_eq_ok.mp h
    obtain ⟨tokens, -, h⟩ := bind_eq_ok.mp h
    obtain ⟨isSmall, -, h⟩ := bind_eq_ok.mp h
    have hmore := ih hrest hmore
    split at h
    · obtain ⟨n, -, h⟩ := bind_eq_ok.mp h
      obtain ⟨texts, -, h⟩ := bind_eq_ok.mp h
      obtain ⟨s', hs', h⟩ := bind_eq_ok.mp h
      cases h
      refine forall_mem_append.mpr ⟨forall_mem_cons.mpr ⟨hs.of_takeOver hs', ?_⟩, ?_⟩
      · intro m hm
        obtain ⟨m', hm', rfl⟩ := mem_map.mp hm
        exact hmore m' (mem_of_mem_take hm')
      · exact fun m hm => hmore m (mem_of_mem_drop hm)
    · cases h
      exact forall_mem_cons.mpr ⟨hs, hmore⟩

/-- **All sections of a text can be placed in a tree**, thinned or not. -/
theorem isSection_of_sectionsOf {session : Session} {l l' : Ledger}
    {counter : TokenCounter} {options : IndexOptions} {text : String}
    (h : (sectionsOf counter options text).Returns session l all l') :
    ∀ s ∈ all, IsSection s := by
  obtain ⟨-, _, -, h⟩ := h.of_bind
  obtain ⟨-, _, -, h⟩ := h.of_bind
  obtain ⟨found, _, hfound, h⟩ := h.of_bind
  obtain ⟨os, _, -, hfound⟩ := hfound.of_bind
  have hsections := isSection_of_sectionValues hfound.of_lift
  split at h
  · obtain ⟨counted, _, hcounted, h⟩ := h.of_bind
    obtain ⟨-, _, -, h⟩ := h.of_bind
    obtain ⟨marked, hmarked, h⟩ := bind_eq_ok.mp h.of_lift
    cases h
    have hmarks := isSection_of_mark
      (isSection_of_countTokens hsections hcounted.of_lift) hmarked
    intro s hs
    obtain ⟨m, hm, hnode⟩ := mem_filterMap.mp hs
    split at hnode
    · cases hnode
      exact hmarks m hm
    · cases hnode
  · cases h
    exact hsections

/-! ### The tree of a text -/

/-- The nodes of a tree of sections can be numbered, and have identifiers already. -/
theorem nodeTree_render (t : Tree (Value × Nat)) :
    NodeTree (fun fs => Numberable fs ∧ fs.get? "node_id" ≠ none)
      (render numberedNode t) := by
  suffices h : ∀ ts : List (Tree (Value × Nat)), ∀ t ∈ ts,
      NodeTree (fun fs => Numberable fs ∧ fs.get? "node_id" ≠ none)
        (render numberedNode t) from h [t] t (mem_singleton_self t)
  intro ts
  induction ts using forest_induction with
  | nil => exact forall_mem_nil _
  | cons s ts us ihts ihus =>
    refine forall_mem_cons.mpr ⟨?_, ihus⟩
    rw [render_node]
    refine .node ⟨⟨?_, ?_⟩, Option.some_ne_none _⟩ (.list rfl) fun v hv => ?_
    · change ["title", "node_id", "text", "line_num", "nodes"].Nodup
      decide
    · change ∀ key ∈ ["title", "node_id", "text", "line_num", "nodes"], _
      decide
    · obtain ⟨t, ht, rfl⟩ := mem_map.mp hv
      exact ihts t ht

/-- The trees of sections can be numbered. -/
theorem nodeTrees_nested (all : List Value) :
    ∀ v ∈ (nested numberedLevel all.zipIdx).map (render numberedNode),
      NodeTree (fun fs => Numberable fs ∧ fs.get? "node_id" ≠ none) v := by
  intro v hv
  obtain ⟨t, -, rfl⟩ := mem_map.mp hv
  exact nodeTree_render t

/-- The nodes of a tree of sections are numbered **from one on**. -/
theorem numberedFrom_one (secs : List Value) :
    NumberedFrom 1 ((subtreesOf (nested numberedLevel secs.zipIdx)).map (render numberedNode)) := by
  have hid : ∀ t : Tree (Value × Nat), (render numberedNode t).field? "node_id" =
      some (.str (padded (1 + t.root.2))) := by
    rintro ⟨s, ts⟩
    rw [render_node, root, Nat.add_comm, ← identifier_ofNat]
    rfl
  have hroots : (subtreesOf (nested numberedLevel secs.zipIdx)).map (fun t => t.root.2) =
      List.range' 0 secs.length := by
    have helements := elements_nested numberedLevel secs.zipIdx
    rw [elements] at helements
    have hmap := congrArg (List.map Prod.snd) helements
    rwa [map_map, zipIdx_map_snd] at hmap
  have hlength : (subtreesOf (nested numberedLevel secs.zipIdx)).length = secs.length := by
    simpa using congrArg List.length hroots
  rw [NumberedFrom, map_map, length_map, hlength]
  calc _ = ((subtreesOf (nested numberedLevel secs.zipIdx)).map fun t => t.root.2).map
        fun i => some (Value.str (padded (1 + i))) := by
        rw [map_map]
        exact map_congr_left fun t _ => hid t
    _ = ((List.range' 0 secs.length).map (1 + ·)).map fun i => some (Value.str (padded i)) := by
        rw [hroots, map_map]
        rfl
    _ = _ := by rw [map_add_range']

section

variable (counter : TokenCounter) (options : IndexOptions)

/-- The options with identifiers, and without a description. -/
abbrev withIds : IndexOptions :=
  { options with description := .str "no", identifiers := .str "yes" }

/-- The options without identifiers, and without a description. -/
abbrev withoutIds : IndexOptions :=
  { options with description := .str "no", identifiers := .str "no" }

/-- The trees of a text **with either choice** differ in their identifiers. -/
theorem treeOfText_inStep (text : String) :
    InStep (Renumbered OtherIdentifier) (treeOfText counter (withIds options) text)
      (treeOfText counter (withoutIds options) text) := by
  refine (@inStep_self _ (sectionsOf counter (withIds options) text) _
    isSection_of_sectionsOf).bind ?_
  rintro _ all ⟨rfl, hall⟩
  refine inStep_bind_self fun _ => ?_
  rw [treeOf_eq hall]
  have htrees := nodeTrees_nested all
  have hnodes : nodes (.list ((nested numberedLevel all.zipIdx).map (render numberedNode))) =
      .ok (some ((subtreesOf (nested numberedLevel all.zipIdx)).map (render numberedNode))) := by
    rw [nodes, ← renderAll_eq_map, nodesOfList_renderAll]
    rfl
  obtain ⟨ws, ns, hws, hparallel, hns, hids⟩ :=
    exists_number_list (fun v hv => (htrees v hv).imp fun _ h => h.1) 0
  rw [Int.natCast_zero] at hws
  rw [lift_ok_bind, lift_ok_bind]
  dsimp only [withIds, withoutIds]
  rw [if_pos (by decide), if_neg (by decide), hws, lift_ok_bind]
  refine inStep_pure (.intro ?_ hns hnodes hids (numberedFrom_one all))
  -- the tree that is not numbered anew has identifiers by itself
  refine (forall₂_imp_of_mem hparallel fun v hv w hvw => ?_).flip
  refine ((htrees v hv).parallel_self.comp hvw).swap.imp ?_
  rintro gs fs ⟨_, ⟨rfl, -, hid⟩, hidentified⟩
  exact ⟨hidentified.agree.symm, iff_of_false hid hidentified.identifier⟩

/-! ### Summaries -/

/-- A summary depends on the text of a node only. -/
theorem summarize_congr (model threshold : Value)
    (h : gs.get? "text" = fs.get? "text") :
    summarize counter model threshold (.object gs) =
      summarize counter model threshold (.object fs) := by
  have hlookup : (Value.object gs).lookup "text" = (Value.object fs).lookup "text" := by
    rw [Value.lookup, Value.lookup, Value.lookupOr, Value.lookupOr, h]
  have hfield : (Value.object gs).field "text" = (Value.object fs).field "text" := by
    rw [Value.field, Value.field, h]
  rw [summarize, summarize, hlookup, Outline.summarize, Outline.summarize, hfield]

/-- Summaries do not depend on identifiers. -/
theorem map_summarize_congr (model threshold : Value) {ms ns : List Value}
    (h : Forall₂ (Parallel (SameBut ["nodes", "node_id"])) ms ns) :
    ns.map (summarize counter model threshold) = ms.map (summarize counter model threshold) := by
  induction h with
  | nil => rfl
  | cons hmn _ ih =>
    cases hmn with
    | node hP _ _ _ =>
      rw [map_cons, map_cons, ih,
        summarize_congr counter model threshold (hP.agree "text" (by decide))]

/-- Summaries are made by the same requests, and written into the same fields. -/
theorem addSummaries_inStep (model threshold : Value) {v w : Value}
    (h : Renumbered (SameBut ["nodes", "node_id"]) v w) :
    InStep (Renumbered (SameBut ["nodes", "node_id"])) (addSummaries counter model threshold v)
      (addSummaries counter model threshold w) := by
  have hself := h
  cases h with
  | @intro vs ws ms ns hparallel hms hns =>
    obtain ⟨ms', ns', hms', hns', hnodes⟩ := exists_nodes_of_parallel_lists hparallel
    cases hms.symm.trans hms'
    cases hns.symm.trans hns'
    rw [addSummaries, addSummaries, hms, hns, lift_ok_bind, lift_ok_bind]
    simp only [required]
    rw [lift_ok_bind, lift_ok_bind, map_summarize_congr counter model threshold hnodes]
    refine inStep_bind_self fun summaries => inStep_pure ?_
    have hkept : KeepsIdentifiers (ChangedAt ["summary", "prefix_summary"]) :=
      fun fs gs hchanged => hchanged.agree "node_id" (by decide)
    have hkeyOf : ∀ {fs key}, some (summaryKey fs) = some key →
        key ∈ ["summary", "prefix_summary"] := by
      rintro fs _ ⟨⟩
      exact summaryKey_mem fs
    obtain ⟨hvs, hws⟩ := nodeTrees_of_parallel hparallel
    refine hself.along hkept hkept (parallel_assignList (by decide) hkeyOf hvs summaries)
      (parallel_assignList (by decide) hkeyOf hws summaries) (assignList_alike ?_ summaries).1
    exact hparallel.imp fun v w => assign_alike (by decide)
      (fun hbranches => congrArg some (summaryKey_of_branches hbranches)) summaryKeyFor_ne_nodes

/-- Both choices make the same summaries. -/
theorem summarized_inStep {v w : Value} (h : Renumbered OtherIdentifier v w) :
    InStep (Renumbered (SameBut ["nodes", "node_id"])) (summarized counter (withIds options) v)
      (summarized counter (withoutIds options) w) := by
  obtain ⟨v', w', hv', hw', h⟩ := h.exists_formatWith
    (show orderWithText.Nodup by decide) (by decide) (by decide) fun _ _ h => h
  rw [summarized, summarized, format_ofTexts (by decide), format_ofTexts (by decide), hv', hw',
    lift_ok_bind, lift_ok_bind]
  refine inStep_bind_self fun _ => ?_
  refine (addSummaries_inStep counter _ _ h).bind fun v w h => ?_
  split
  · obtain ⟨v', w', hv', hw', h⟩ := h.exists_formatWith
      (show orderWithoutText.Nodup by decide) (by decide) (by decide)
      fun _ _ => otherIdentifier_of_sameBut
    rw [format_ofTexts (by decide), format_ofTexts (by decide), hv', hw']
    exact inStep_pure h
  · exact inStep_pure h

end

/-! ### Indexes -/

/-- Two indexes are the same but for **where their identifiers begin**: at zero, and at one. -/
def IsRenumbered (full bare : Value) : Prop :=
  ∃ name t t', full = .object [("doc_name", .str name), ("structure", t)] ∧
    bare = .object [("doc_name", .str name), ("structure", t')] ∧
    Renumbered (SameBut ["nodes", "node_id"]) t t'

/-- An index is another one **without identifiers**: they are removed from all nodes, and the rest
is the same. -/
def IsWithoutIdentifiers (full bare : Value) : Prop :=
  (∀ key, key ≠ "structure" → bare.field? key = full.field? key) ∧
    ∃ vs ws, full.field? "structure" = some (.list vs) ∧
      bare.field? "structure" = some (.list ws) ∧
      Forall₂ (Parallel fun fs gs =>
        AgreeBut ["nodes", "node_id"] fs gs ∧ gs.get? "node_id" = none) vs ws

/-- Identifiers that begin elsewhere are removed only if there are none. -/
theorem IsRenumbered.isWithoutIdentifiers_iff {full bare : Value} (h : IsRenumbered full bare) :
    IsWithoutIdentifiers full bare ↔ full.field? "structure" = some (.list []) := by
  obtain ⟨name, t, t', rfl, rfl, ht⟩ := h
  cases ht with
  | @intro vs ws ms ns hparallel hms hns hzero hone =>
    constructor
    · rintro ⟨-, vs', ws', hvs', hws', hwithout⟩
      cases hvs'
      cases hws'
      cases hwithout with
      | nil => rfl
      | @cons v w vs ws hvw _ =>
        cases hvw with
        | node hP _ _ _ =>
          -- the first node is among the numbered ones
          obtain ⟨found, hfound, hsome⟩ := bind_eq_ok.mp hns
          cases hsome
          obtain ⟨below, hbelow, hsubset⟩ := exists_nodes_of_nodesOfList (.head _) hfound
          exact absurd hP.2 (hone.field?_ne_none (hsubset (mem_nodes_of_within .self hbelow)))
    · intro hnil
      cases hnil
      cases hparallel
      exact ⟨fun key hkey => by simp [Value.field?, Fields.get?, Ne.symm hkey], [], [], rfl, rfl,
        .nil⟩

/-- Both choices go in step. -/
theorem index_inStep (files : Files) (counter : TokenCounter) (options : IndexOptions)
    (path : String) :
    InStep IsRenumbered (index files counter (withIds options) path)
      (index files counter (withoutIds options) path) := by
  refine inStep_bind_self fun text => ?_
  refine (treeOfText_inStep counter options text).bind fun v w h => ?_
  refine inStep_bind_self fun _ => ?_
  dsimp only [withIds, withoutIds]
  split
  · refine (summarized_inStep counter options h).bind fun v w h => ?_
    exact inStep_pure ⟨_, v, w, rfl, rfl, h⟩
  · generalize horder : (if options.text.isStr "yes" then orderWithText else orderWithoutText) =
      order
    have hmem : order ∈ [orderWithText, orderWithoutText] := by
      rw [← horder]
      split <;> simp
    have hshows : ∀ order ∈ [orderWithText, orderWithoutText], order.Nodup ∧ "nodes" ∈ order ∧
        "node_id" ∈ order ∧ order ≠ [] := by decide
    obtain ⟨hnodup, hnodes, hid, hne⟩ := hshows order hmem
    obtain ⟨v', w', hv', hw', h⟩ := h.exists_formatWith hnodup hnodes hid fun _ _ h => h
    rw [format_ofTexts hne, format_ofTexts hne, hv', hw']
    exact inStep_pure ⟨_, v', w', rfl, rfl, h⟩

/-- **The choice of identifiers changes where they begin.** With and without identifiers, a Markdown
file is indexed by the same requests and with the same outcome, and the indexes are the same, field
by field and in the same order, but for identifiers. With them, the nodes are numbered from zero on
in document order; without them, from one on. So they are missing only where there are no nodes. -/
theorem identifier_option_renumbers (files : Files) (counter : TokenCounter)
    (options : IndexOptions) (path : String) :
    InStep (fun full bare => IsRenumbered full bare ∧
        (IsWithoutIdentifiers full bare ↔ full.field? "structure" = some (.list [])))
      (index files counter { options with description := .str "no", identifiers := .str "yes" }
        path)
      (index files counter { options with description := .str "no", identifiers := .str "no" }
        path) := by
  intro session l
  obtain ⟨l', ⟨full, bare, hfull, hbare, h⟩ | hfails⟩ :=
    index_inStep files counter options path session l
  · exact ⟨l', .inl ⟨full, bare, hfull, hbare, h, h.isWithoutIdentifiers_iff⟩⟩
  · exact ⟨l', .inr hfails⟩

def oneSection : Files where
  home := "/home"
  top := .directory [("notes.md", .file (some "# A\n"))]

/-- The index of the text with one section, which has an identifier. -/
def oneSectionIndex (id : String) : Value :=
  .object [("doc_name", .str "notes"), ("structure", .list [.object
    [("title", .str "A"), ("node_id", .str id), ("line_num", .int 1)]])]

/-- **An identifier that is not wanted stays**: a section has one with either choice. -/
theorem section_keeps_identifier :
    let numbered := index oneSection .bytes
      { description := .str "no", identifiers := .str "yes" } "notes.md"
    let plain := index oneSection .bytes
      { description := .str "no", identifiers := .str "no" } "notes.md"
    (numbered.execute (scripted []) {}).1 = .ok (oneSectionIndex "0000") ∧
      (plain.execute (scripted []) {}).1 = .ok (oneSectionIndex "0001") ∧
      ¬ IsWithoutIdentifiers (oneSectionIndex "0000") (oneSectionIndex "0001") := by
  intro numbered plain
  refine ⟨by decide +kernel, by decide +kernel, ?_⟩
  rintro ⟨-, vs, ws, hvs, hws, hwithout⟩
  cases hvs
  cases hws
  cases hwithout with
  | cons hnode _ =>
    cases hnode with
    | node hP _ _ _ => exact absurd hP.2 (by decide)

end Markdown

end DocTree
