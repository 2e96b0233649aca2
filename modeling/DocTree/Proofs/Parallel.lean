import DocTree.Proofs.Coverage
import DocTree.Proofs.Walk
import Mathlib.Data.List.Induction
import Mathlib.Data.List.Nodup

/-!
# Trees of nodes, and trees of the same shape

A **tree of nodes** is a node whose branches, if any, stand in a list in its field `nodes` and are
trees of nodes again. Two trees of the same shape whose nodes are related place by place are
**parallel**. What operations do in turn is read off what each does to a node.
-/

namespace DocTree.Outline

open List

variable {fs gs hs : Fields} {P : Fields → Fields → Prop} {keyOf : Fields → Option String}
  {p : Fields → Prop} {keys order : List String} {ns vs ws : List Value} {key : String}
  {n v w : Value} {f : Value → Except Failure Value} {r : Rebuilder}

/-! ### Fields that agree -/

/-- Two lists of fields **agree** but for some keys. -/
def AgreeBut (keys : List String) (fs gs : Fields) : Prop :=
  ∀ key, key ∉ keys → gs.get? key = fs.get? key

/-- Fields agree with themselves. -/
theorem AgreeBut.refl (keys : List String) (fs : Fields) : AgreeBut keys fs fs := fun _ _ => rfl

/-- Agreement but for fewer keys is stronger. -/
theorem AgreeBut.mono {keys' : List String} (h : AgreeBut keys fs gs) (hsub : keys ⊆ keys') :
    AgreeBut keys' fs gs :=
  fun key hkey => h key fun hmem => hkey (hsub hmem)

/-- Agreement is symmetric. -/
theorem AgreeBut.symm (h : AgreeBut keys fs gs) : AgreeBut keys gs fs :=
  fun key hkey => (h key hkey).symm

/-- Agreement is transitive. -/
theorem AgreeBut.trans (h : AgreeBut keys fs gs) (h' : AgreeBut keys gs hs) : AgreeBut keys fs hs :=
  fun key hkey => (h' key hkey).trans (h key hkey)

/-- Setting a field changes only that field. -/
theorem agreeBut_set (hkey : key ∈ keys) (fs : Fields) (x : Value) :
    AgreeBut keys fs (fs.set key x) := by
  intro other hother
  refine Fields.get?_set_of_ne _ _ ?_
  rintro rfl
  exact hother hkey

/-- Erasing a field changes only that field. -/
theorem agreeBut_erase (hkey : key ∈ keys) (fs : Fields) :
    AgreeBut keys fs (fs.erase key) := by
  intro other hother
  refine Fields.get?_erase_of_ne _ ?_
  rintro rfl
  exact hother hkey

/-- A key is there exactly if it is found. -/
theorem mem_keys_iff : key ∈ fs.keys ↔ fs.get? key ≠ none := by
  induction fs with
  | nil => simp [Fields.keys, Fields.get?]
  | cons f rest ih =>
    obtain ⟨k, v⟩ := f
    rw [Fields.keys, map_cons, mem_cons, ← Fields.keys, ih, Fields.get?]
    by_cases hk : k = key
    · simp [hk]
    · simp [hk, Ne.symm hk]

/-- Setting a field that is there keeps the keys. -/
theorem keys_set_of_mem (h : key ∈ fs.keys) (x : Value) :
    Fields.keys (fs.set key x) = fs.keys := by
  induction fs with
  | nil => cases h
  | cons f rest ih =>
    obtain ⟨k, v⟩ := f
    by_cases hk : k = key
    · simp [Fields.set, Fields.keys, hk]
    · have hrest : key ∈ Fields.keys rest := (mem_cons.mp h).resolve_left (Ne.symm hk)
      have ih := ih hrest
      simp only [Fields.keys] at ih
      simp [Fields.set, Fields.keys, hk, ih]

/-- A new field comes last. -/
theorem keys_set_of_not_mem (h : key ∉ fs.keys) (x : Value) :
    Fields.keys (fs.set key x) = fs.keys ++ [key] := by
  rw [Fields.set_of_not_mem_keys h, Fields.keys, map_append]
  rfl

/-- Setting a field doubles no key. -/
theorem nodup_keys_set (h : fs.keys.Nodup) (key : String) (x : Value) :
    (Fields.keys (fs.set key x)).Nodup := by
  by_cases hkey : key ∈ fs.keys
  · rwa [keys_set_of_mem hkey]
  · rw [keys_set_of_not_mem hkey]
    exact nodup_append.mpr ⟨h, nodup_singleton key, fun a ha b hb => by
      rintro rfl
      exact hkey (mem_singleton.mp hb ▸ ha)⟩

/-- Erasing a field keeps the order of the keys. -/
theorem keys_erase_sublist (fs : Fields) (key : String) :
    (Fields.keys (fs.erase key)).Sublist fs.keys :=
  (filter_sublist).map _

/-- A node before and after some **fields are changed**, and its branches perhaps. -/
structure ChangedAt (keys : List String) (fs gs : Fields) : Prop where
  agree : AgreeBut ("nodes" :: keys) fs gs
  nodes : gs.get? "nodes" = none ↔ fs.get? "nodes" = none

/-- A change of branches only. -/
theorem changedAt_of_keys_eq (keys : List String) (hagree : AgreeBut ["nodes"] fs gs)
    (hkeys : gs.keys = fs.keys) : ChangedAt keys fs gs := by
  refine ⟨hagree.mono (by simp), not_iff_not.mp ?_⟩
  rw [← ne_eq, ← ne_eq, ← mem_keys_iff, ← mem_keys_iff, hkeys]

/-- One more change at one of the keys. -/
theorem ChangedAt.set (h : ChangedAt keys fs gs) (hkey : key ∈ keys) (hne : key ≠ "nodes")
    (x : Value) : ChangedAt keys fs (gs.set key x) where
  agree := h.agree.trans (agreeBut_set (.tail _ hkey) gs x)
  nodes := by
    rw [Fields.get?_set_of_ne _ _ hne]
    exact h.nodes

/-! ### Trees of nodes -/

/-- The **branches** of a node are the elements of its list `nodes`. Without this field it has
none. -/
inductive Branches (fs : Fields) : List Value → Prop
  | none (h : fs.get? "nodes" = none) : Branches fs []
  | list {vs : List Value} (h : fs.get? "nodes" = some (.list vs)) : Branches fs vs

/-- Branches are what is below a node. -/
theorem Branches.children_eq (h : Branches fs vs) : children (.object fs) = vs := by
  cases h with
  | none h => rw [children, Value.field?_object, h]
  | list h => rw [children, Value.field?_object, h]

/-- A node has its branches only. -/
theorem Branches.unique (h : Branches fs vs) (h' : Branches fs ws) : vs = ws :=
  h.children_eq.symm.trans h'.children_eq

/-- Branches depend on one field. -/
theorem Branches.congr (h : Branches fs vs)
    (heq : gs.get? "nodes" = fs.get? "nodes") : Branches gs vs := by
  cases h with
  | none h => exact .none (heq.trans h)
  | list h => exact .list (heq.trans h)

/-- The branches of a node stay when another field is changed. -/
theorem Branches.of_agreeBut (h : Branches fs vs) (hagree : AgreeBut keys fs gs)
    (hkeys : "nodes" ∉ keys) : Branches gs vs :=
  h.congr (hagree _ hkeys)

/-- The field of branches holds a list. -/
theorem Branches.eq_list {rest : Fields} (h : Branches (("nodes", v) :: rest) vs) :
    v = .list vs := by
  cases h with
  | none h => cases h
  | list h => exact Option.some.inj h

/-- Where a field `nodes` is not empty, it is missing exactly if there are no branches. -/
theorem get?_nodes_eq_none_iff (h : Branches fs vs)
    (hfs : fs.get? "nodes" ≠ some (.list [])) :
    fs.get? "nodes" = none ↔ vs.length = 0 := by
  cases h with
  | none hnone => simp [hnone]
  | @list vs hsome =>
    cases vs with
    | nil => exact absurd hsome hfs
    | cons v vs => simp [hsome]

/-- Other fields do not matter for branches. -/
theorem branches_cons_iff {k : String} (hk : k ≠ "nodes") {rest : Fields} :
    Branches ((k, v) :: rest) vs ↔ Branches rest vs := by
  have hget : Fields.get? ((k, v) :: rest) "nodes" = rest.get? "nodes" := by
    rw [Fields.get?, if_neg hk]
  exact ⟨fun h => h.congr hget.symm, fun h => h.congr hget⟩

/-- **Induction on the fields of a node**, up to its field `nodes`. -/
theorem Branches.induction {motive : ∀ fs vs, Branches fs vs → Prop}
    (nil : motive [] [] (.none rfl))
    (nodes : ∀ vs rest, motive (("nodes", .list vs) :: rest) vs (.list rfl))
    (cons : ∀ k v rest vs hk h, motive rest vs h →
      motive ((k, v) :: rest) vs ((branches_cons_iff hk).mpr h)) {fs : Fields} {vs : List Value}
    (h : Branches fs vs) : motive fs vs h := by
  induction fs with
  | nil =>
    cases h with
    | none => exact nil
    | list h => cases h
  | cons f rest ih =>
    obtain ⟨k, v⟩ := f
    by_cases hk : k = "nodes"
    · subst hk
      obtain rfl := h.eq_list
      exact nodes vs rest
    · exact cons k v rest vs hk _ (ih ((branches_cons_iff hk).mp h))

/-- A **tree of nodes** that all have a property. -/
inductive NodeTree (p : Fields → Prop) : Value → Prop
  | node {fs : Fields} {vs : List Value} (hfs : p fs) (hvs : Branches fs vs)
      (hbelow : ∀ v ∈ vs, NodeTree p v) : NodeTree p (.object fs)

/-- Nodes may be said to have less. -/
theorem NodeTree.imp {q : Fields → Prop} (hpq : ∀ fs, p fs → q fs) (h : NodeTree p v) :
    NodeTree q v := by
  induction h with
  | node hfs hvs _ ih => exact .node (hpq _ hfs) hvs ih

/-- **Induction on the nodes below a node.** -/
theorem children_induction {motive : Value → Prop}
    (step : ∀ v, (∀ c ∈ children v, motive c) → motive v) (v : Value) : motive v := by
  -- what stands in a list is reached through the list
  suffices h : motive v ∧ ∀ items, v = .list items → ∀ c ∈ items, motive c from h.1
  have hleaf : ∀ v, children v = [] → motive v := fun v hv =>
    step v fun c hc => absurd hc (by rw [hv]; exact not_mem_nil)
  induction v using outline_induction with
  | other v hlist hobject =>
    refine ⟨hleaf v ?_, fun items h => absurd h (hlist items)⟩
    cases v with
    | object fs => exact absurd rfl (hobject fs)
    | _ => rfl
  | list items ih =>
    refine ⟨hleaf _ rfl, ?_⟩
    rintro _ ⟨⟩ c hc
    exact (ih c hc).1
  | object fs ih =>
    refine ⟨step _ fun c hc => ?_, fun items h => nomatch h⟩
    rw [children] at hc
    split at hc
    · rename_i items hitems
      exact (ih _ hitems).2 items rfl c hc
    · cases hc

/-! ### Parallel trees -/

/-- Two trees of nodes are **parallel**: they have the same shape, and nodes at the same place are
related. -/
inductive Parallel (P : Fields → Fields → Prop) : Value → Value → Prop
  | node {fs gs : Fields} {vs ws : List Value} (hP : P fs gs) (hvs : Branches fs vs)
      (hws : Branches gs ws) (hbelow : Forall₂ (Parallel P) vs ws) :
      Parallel P (.object fs) (.object gs)

section

variable {P Q : Fields → Fields → Prop} {p : Fields → Prop} {u v w : Value}

/-- **Induction on parallel trees.** -/
@[elab_as_elim] theorem Parallel.induction {motive : Value → Value → Prop}
    (node : ∀ {fs gs vs ws}, P fs gs → Branches fs vs → Branches gs ws →
      Forall₂ (Parallel P) vs ws → Forall₂ motive vs ws →
      motive (.object fs) (.object gs)) (h : Parallel P v w) : motive v w := by
  induction v using children_induction generalizing w with
  | step v ih =>
    cases h with
    | node hP hvs hws hbelow =>
      rw [hvs.children_eq] at ih
      exact node hP hvs hws hbelow (forall₂_imp_of_mem hbelow fun c hc d hd => ih c hc hd)

/-- Another relation that follows from the first one, and from the numbers of branches. -/
theorem Parallel.imp_of_branches (hPQ : ∀ fs gs vs ws, P fs gs → Branches fs vs → Branches gs ws →
    vs.length = ws.length → Q fs gs) (h : Parallel P v w) : Parallel Q v w :=
  Parallel.induction (fun hP hvs hws hbelow ih =>
    .node (hPQ _ _ _ _ hP hvs hws hbelow.length_eq) hvs hws ih) h

/-- Relations may be weakened. -/
theorem Parallel.imp (hPQ : ∀ fs gs, P fs gs → Q fs gs) (h : Parallel P v w) : Parallel Q v w :=
  h.imp_of_branches fun fs gs _ _ hP _ _ _ => hPQ fs gs hP

/-- Relations **in turn**, node by node. -/
theorem Parallel.comp (h : Parallel P u v) (h' : Parallel Q v w) :
    Parallel (fun fs hs => ∃ gs, P fs gs ∧ Q gs hs) u w := by
  induction u using children_induction generalizing v w with
  | step u ih =>
    cases h with
    | node hP hus hvs hbelow =>
      cases h' with
      | node hQ hvs' hws hbelow' =>
        cases hvs.unique hvs'
        rw [hus.children_eq] at ih
        refine .node ⟨_, hP, hQ⟩ hus hws ?_
        refine forall₂_imp_of_mem (Run.forall₂_comp hbelow hbelow') fun a ha c => ?_
        rintro ⟨b, hab, hbc⟩
        exact ih a ha hab hbc

/-- Relations **the other way round**, node by node. -/
theorem Parallel.swap (h : Parallel P v w) : Parallel (fun gs fs => P fs gs) w v :=
  Parallel.induction (fun hP hvs hws _ ih => .node hP hws hvs ih.flip) h

/-- A tree of nodes is parallel to itself. -/
theorem NodeTree.parallel_self (h : NodeTree p v) : Parallel (fun fs gs => gs = fs ∧ p fs) v v := by
  induction h with
  | node hfs hvs _ ih => exact .node ⟨rfl, hfs⟩ hvs hvs (forall₂_same.mpr ih)

/-- The second of two parallel trees. -/
theorem Parallel.right (h : Parallel P v w) : NodeTree (fun gs => ∃ fs, P fs gs) w := by
  refine Parallel.induction (fun hP hvs hws _ ih => .node ⟨_, hP⟩ hws fun d hd => ?_) h
  obtain ⟨c, -, hcd⟩ := Run.exists_left_of_forall₂ ih d hd
  exact hcd

/-- A property that a relation carries over holds of the nodes of the parallel tree. -/
theorem Parallel.nodeTree_right {q : Fields → Prop} (h : Parallel P v w)
    (hq : ∀ fs gs, P fs gs → q gs) : NodeTree q w :=
  h.right.imp fun gs ⟨fs, hP⟩ => hq fs gs hP

/-- Parallel forests consist of trees. -/
theorem nodeTrees_of_parallel (h : Forall₂ (Parallel P) vs ws) :
    (∀ v ∈ vs, NodeTree (fun _ => True) v) ∧ ∀ w ∈ ws, NodeTree (fun _ => True) w := by
  constructor
  · intro v hv
    obtain ⟨w, -, hvw⟩ := Run.exists_right_of_forall₂ h v hv
    exact hvw.swap.nodeTree_right fun _ _ _ => trivial
  · intro w hw
    obtain ⟨v, -, hvw⟩ := Run.exists_left_of_forall₂ h w hw
    exact hvw.nodeTree_right fun _ _ _ => trivial

end

/-! ### Nodes in document order -/

/-- The nodes below a node are those of its branches. -/
theorem nodesBelow_of_branches (h : Branches fs vs) : nodesBelow fs = nodesOfList vs := by
  induction h using Branches.induction with
  | nil => rfl
  | nodes vs rest =>
    rw [nodesBelow, if_pos rfl, nodes]
    cases nodesOfList vs <;> rfl
  | cons k v rest vs hk _ ih => rw [nodesBelow, if_neg hk, ih]

/-- A node comes before those of its branches. -/
theorem nodes_of_branches {below : List Value} (h : Branches fs vs)
    (hbelow : nodesOfList vs = .ok below) :
    nodes (.object fs) = .ok (some (.object fs :: below)) := by
  rw [nodes, nodesBelow_of_branches h, hbelow]
  rfl

/-- The nodes of a tree come before those of the next. -/
theorem nodesOfList_cons {here rest : List Value} (hv : nodes v = .ok (some here))
    (hvs : nodesOfList vs = .ok rest) : nodesOfList (v :: vs) = .ok (here ++ rest) := by
  rw [nodesOfList, hv, hvs]
  rfl

/-- The nodes of the first tree, and the others. -/
theorem exists_of_nodesOfList_cons (h : nodesOfList (v :: vs) = .ok ns) :
    ∃ here rest, nodes v = .ok (some here) ∧ nodesOfList vs = .ok rest ∧ ns = here ++ rest := by
  obtain ⟨found, hfound, h⟩ := bind_eq_ok.mp h
  obtain ⟨here, hhere, h⟩ := bind_eq_ok.mp h
  obtain ⟨rest, hrest, h⟩ := bind_eq_ok.mp h
  cases h
  cases found with
  | none => cases hhere
  | some _ =>
    cases hhere
    exact ⟨here, rest, hfound, hrest, rfl⟩

/-- The nodes of two lists of trees. -/
theorem nodesOfList_append {ms : List Value} (hms : nodesOfList vs = .ok ms)
    (hns : nodesOfList ws = .ok ns) : nodesOfList (vs ++ ws) = .ok (ms ++ ns) := by
  induction vs generalizing ms with
  | nil =>
    cases hms
    exact hns
  | cons v vs ih =>
    obtain ⟨here, rest, hhere, hrest, rfl⟩ := exists_of_nodesOfList_cons hms
    rw [cons_append, nodesOfList_cons hhere (ih hrest), append_assoc]

/-- The nodes of two outlines in document order are related one by one. -/
def NodesRelated (R : Value → Value → Prop) (v w : Value) : Prop :=
  ∃ ms ns, nodes v = .ok (some ms) ∧ nodes w = .ok (some ns) ∧ Forall₂ R ms ns

/-- Trees with related nodes, in a list. -/
theorem exists_nodesOfList_related {R : Value → Value → Prop}
    (h : Forall₂ (NodesRelated R) vs ws) :
    ∃ ms ns, nodesOfList vs = .ok ms ∧ nodesOfList ws = .ok ns ∧ Forall₂ R ms ns := by
  induction h with
  | nil => exact ⟨[], [], rfl, rfl, .nil⟩
  | cons hvw _ ih =>
    obtain ⟨ms, ns, hms, hns, hR⟩ := hvw
    obtain ⟨ms', ns', hms', hns', hR'⟩ := ih
    exact ⟨ms ++ ms', ns ++ ns', nodesOfList_cons hms hms', nodesOfList_cons hns hns',
      rel_append hR hR'⟩

/-- **The nodes of parallel trees** in document order are parallel one by one. -/
theorem Parallel.exists_nodes (h : Parallel P v w) : NodesRelated (Parallel P) v w := by
  refine Parallel.induction (fun hP hvs hws hbelow ih => ?_) h
  obtain ⟨ms, ns, hms, hns, hR⟩ := exists_nodesOfList_related ih
  exact ⟨_, _, nodes_of_branches hvs hms, nodes_of_branches hws hns,
    .cons (.node hP hvs hws hbelow) hR⟩

/-- The nodes of parallel forests in document order are parallel one by one. -/
theorem exists_nodes_of_parallel_lists (h : Forall₂ (Parallel P) vs ws) :
    ∃ ms ns, nodes (.list vs) = .ok (some ms) ∧ nodes (.list ws) = .ok (some ns) ∧
      Forall₂ (Parallel P) ms ns := by
  obtain ⟨ms, ns, hms, hns, hR⟩ :=
    exists_nodesOfList_related (h.imp fun _ _ => Parallel.exists_nodes)
  refine ⟨ms, ns, ?_, ?_, hR⟩
  · rw [nodes, hms]
    rfl
  · rw [nodes, hns]
    rfl

/-- The nodes of a tree in document order are trees. -/
theorem NodeTree.exists_nodes (h : NodeTree p v) :
    ∃ ns, nodes v = .ok (some ns) ∧ ∀ n ∈ ns, NodeTree p n := by
  obtain ⟨ms, ns, hms, hns, hR⟩ := h.parallel_self.exists_nodes
  cases hms.symm.trans hns
  refine ⟨ms, hms, fun n hn => ?_⟩
  exact (forall₂_same.mp hR n hn).nodeTree_right fun fs gs h => h.1 ▸ h.2

/-- A node of a list lies within one of its trees. -/
theorem exists_within_of_mem_nodesOfList {below : List Value}
    (hwithin : ∀ v ∈ vs, ∀ {ns}, nodes v = .ok (some ns) → n ∈ ns → Within n v)
    (hbelow : nodesOfList vs = .ok below) (hn : n ∈ below) : ∃ c ∈ vs, Within n c := by
  induction vs generalizing below with
  | nil =>
    cases hbelow
    cases hn
  | cons v vs ih =>
    obtain ⟨here, rest, hhere, hrest, rfl⟩ := exists_of_nodesOfList_cons hbelow
    rcases mem_append.mp hn with hn | hn
    · exact ⟨v, .head _, hwithin v (.head _) hhere hn⟩
    · obtain ⟨c, hc, hnc⟩ := ih (fun c hc => hwithin c (.tail _ hc)) hrest hn
      exact ⟨c, .tail _ hc, hnc⟩

/-- The nodes of a tree in document order **lie within** it. -/
theorem NodeTree.within_of_mem_nodes (h : NodeTree p v) (hns : nodes v = .ok (some ns))
    (hn : n ∈ ns) : Within n v := by
  induction h generalizing ns with
  | node _ hvs _ ih =>
    obtain ⟨below, hbelow, hns⟩ := bind_eq_ok.mp hns
    cases hns
    rcases mem_cons.mp hn with rfl | hn
    · exact .self
    · rw [nodesBelow_of_branches hvs] at hbelow
      obtain ⟨c, hc, hnc⟩ := exists_within_of_mem_nodesOfList ih hbelow hn
      exact .child (hvs.children_eq.symm ▸ hc) hnc

/-- The nodes of a tree in document order are the tree itself and nodes **below** it. -/
theorem NodeTree.exists_nodes_below (h : NodeTree p v) :
    ∃ below, nodes v = .ok (some (v :: below)) ∧ ∀ n ∈ below, Below n v := by
  obtain ⟨ns, hns, -⟩ := h.exists_nodes
  cases h with
  | node hfs hvs hall =>
    obtain ⟨below, hbelow, hlist⟩ := bind_eq_ok.mp hns
    cases hlist
    refine ⟨below, hns, fun n hn => ?_⟩
    rw [nodesBelow_of_branches hvs] at hbelow
    obtain ⟨c, hc, hnc⟩ := exists_within_of_mem_nodesOfList
      (fun v hv _ hns hn => (hall v hv).within_of_mem_nodes hns hn) hbelow hn
    exact ⟨c, hvs.children_eq.symm ▸ hc, hnc⟩

/-- What lies within a tree of nodes is one. -/
theorem NodeTree.of_within (h : NodeTree p v) (hn : Within n v) : NodeTree p n := by
  induction hn with
  | self => exact h
  | child hc _ ih =>
    cases h with
    | node _ hvs hall => exact ih (hall _ (hvs.children_eq ▸ hc))

/-- What is picked out of the nodes of a list is what is picked out of each outline. -/
theorem exists_nodesOfList_filter {pick : Value → Bool} {picked : List (List Value)}
    (h : Forall₂ (fun v ps => ∃ ns, nodes v = .ok (some ns) ∧ ns.filter pick = ps) vs picked) :
    ∃ ns, nodesOfList vs = .ok ns ∧ ns.filter pick = picked.flatten := by
  induction h with
  | nil => exact ⟨[], rfl, rfl⟩
  | cons hv _ ih =>
    obtain ⟨here, hhere, rfl⟩ := hv
    obtain ⟨rest, hrest, hpicked⟩ := ih
    exact ⟨here ++ rest, nodesOfList_cons hhere hrest, by
      rw [filter_append, hpicked, flatten_cons]⟩

/-! ### Changing branches -/

/-- Changing branches keeps the keys. -/
theorem keys_of_mapNodes (h : mapNodes f fs = .ok gs) : gs.keys = fs.keys := by
  induction fs generalizing gs with
  | nil =>
    cases h
    rfl
  | cons field rest ih =>
    obtain ⟨k, v⟩ := field
    rw [mapNodes] at h
    split at h
    · obtain ⟨w, -, h⟩ := bind_eq_ok.mp h
      cases h
      rfl
    · obtain ⟨gs, hgs, h⟩ := bind_eq_ok.mp h
      cases h
      have hrest := ih hgs
      simp only [Fields.keys, map_cons] at hrest ⊢
      rw [hrest]

/-- An operation that changes the branches of a node **one by one** changes nothing else. -/
theorem exists_of_mapNodes {g : Value → Except Failure Value} (hf : ∀ {vs w}, f (.list vs) = .ok w →
      ∃ ws, w = .list ws ∧ Forall₂ (fun v u => g v = .ok u) vs ws) (hvs : Branches fs vs)
    (h : mapNodes f fs = .ok hs) :
    ∃ ws, Branches hs ws ∧ Forall₂ (fun v u => g v = .ok u) vs ws ∧
      AgreeBut ["nodes"] fs hs ∧ hs.keys = fs.keys := by
  have hlifts := lifts_of_mapNodes h
  have hagree : AgreeBut ["nodes"] fs hs := fun key hkey =>
    hlifts.other key fun heq => hkey (mem_singleton.mpr heq)
  cases hvs with
  | none hnone =>
    exact ⟨[], .none (hlifts.get?_eq_none hnone), .nil, hagree, keys_of_mapNodes h⟩
  | list hsome =>
    obtain ⟨w, hw, hfw⟩ := hlifts.exists_of_get? hsome
    obtain ⟨ws, rfl, hws⟩ := hf hfw
    exact ⟨ws, .list hw, hws, hagree, keys_of_mapNodes h⟩

/-- Branches are changed if the list of them is. -/
theorem exists_mapNodes_of_branches (hvs : Branches fs vs) (h : ∃ w, f (.list vs) = .ok w) :
    ∃ hs, mapNodes f fs = .ok hs := by
  refine exists_mapNodes fun v hv => ?_
  cases hvs with
  | none hnone => cases hnone.symm.trans hv
  | list hsome =>
    cases hsome.symm.trans hv
    exact h

/-! ### Rebuilding -/

/-- Lists are rebuilt tree by tree. -/
theorem rebuildList_eq_ok_forall₂ :
    rebuildList r vs = .ok ws ↔ Forall₂ (fun v w => rebuild r v = .ok w) vs ws := by
  rw [eq_mapM (g := rebuildList r) rfl fun _ _ => rfl, mapM_eq_ok_iff]

/-- The field `nodes` rebuilt, as far as it is not passed over. -/
def rebuildNodes (r : Rebuilder) (v : Value) : Except Failure Value :=
  if r.passEmpty && !v.isTruthy then .ok v else Value.list <$> rebuildElements r v

/-- Rebuilding below a node changes its branches. -/
theorem rebuildBelow_eq_mapNodes_rebuildNodes (r : Rebuilder) (fs : Fields) :
    rebuildBelow r fs = mapNodes (rebuildNodes r) fs := by
  induction fs with
  | nil => rfl
  | cons f rest ih =>
    obtain ⟨k, v⟩ := f
    rw [rebuildBelow, mapNodes, ih, rebuildNodes]
    split
    · split
      · rfl
      · cases rebuildElements r v <;> rfl
    · rfl

/-- Branches are rebuilt one by one. -/
theorem exists_of_rebuildNodes (h : rebuildNodes r (.list vs) = .ok w) :
    ∃ ws, w = .list ws ∧ Forall₂ (fun v u => rebuild r v = .ok u) vs ws := by
  unfold rebuildNodes at h
  split at h
  · rename_i hempty
    cases h
    have hnil : vs = [] := by simpa [Value.isTruthy] using (Bool.and_eq_true_iff.mp hempty).2
    subst hnil
    exact ⟨[], rfl, .nil⟩
  · obtain ⟨ws, hws, rfl⟩ := map_eq_ok_iff.mp h
    exact ⟨ws, rfl, rebuildList_eq_ok_forall₂.mp hws⟩

/-- Rebuilding below a node changes its branches and nothing else. -/
theorem exists_of_rebuildBelow (hvs : Branches fs vs) (h : rebuildBelow r fs = .ok hs) :
    ∃ ws, Branches hs ws ∧ Forall₂ (fun v w => rebuild r v = .ok w) vs ws ∧
      AgreeBut ["nodes"] fs hs ∧ hs.keys = fs.keys := by
  rw [rebuildBelow_eq_mapNodes_rebuildNodes] at h
  exact exists_of_mapNodes exists_of_rebuildNodes hvs h

/-- Rebuilding goes well below a node if it does for each branch. -/
theorem exists_rebuildBelow (hvs : Branches fs vs) (h : ∀ v ∈ vs, ∃ w, rebuild r v = .ok w) :
    ∃ hs, rebuildBelow r fs = .ok hs := by
  rw [rebuildBelow_eq_mapNodes_rebuildNodes]
  refine exists_mapNodes_of_branches hvs ?_
  obtain ⟨ws, hws⟩ := exists_forall₂ h
  unfold rebuildNodes
  split
  · exact ⟨_, rfl⟩
  · rw [rebuildElements, rebuildList_eq_ok_forall₂.mpr hws]
    exact ⟨_, rfl⟩

/-- **Rebuilding keeps the shape of a tree** if it keeps rebuilt branches. -/
theorem exists_rebuild_parallel
    (hnode : ∀ {fs hs ws}, p fs → AgreeBut ["nodes"] fs hs → hs.keys = fs.keys →
      Branches hs ws → ∃ gs, r.node hs = .ok gs ∧ P fs gs ∧ Branches gs ws) (h : NodeTree p v) :
    ∃ w, rebuild r v = .ok w ∧ Parallel P v w := by
  induction h with
  | @node fs vs hfs hvs _ ih =>
    obtain ⟨hs, hhs⟩ := exists_rebuildBelow hvs fun v hv => by
      obtain ⟨w, hw, -⟩ := ih v hv
      exact ⟨w, hw⟩
    obtain ⟨ws, hws, hbelow, hagree, hkeys⟩ := exists_of_rebuildBelow hvs hhs
    obtain ⟨gs, hgs, hP, hbranches⟩ := hnode hfs hagree hkeys hws
    refine ⟨.object gs, ?_, .node hP hvs hbranches ?_⟩
    · rw [rebuild, hhs]
      change (r.node hs >>= _) = _
      rw [hgs]
      rfl
    · refine forall₂_imp_of_mem hbelow fun c hc d hd => ?_
      obtain ⟨w, hw, hparallel⟩ := ih c hc
      cases hd.symm.trans hw
      exact hparallel

/-- A tree that is rebuilt is a tree, also where nodes **lose their branches**. -/
theorem nodeTree_of_rebuild
    (hp : ∀ {fs hs}, AgreeBut ["nodes"] fs hs → hs.keys = fs.keys → p fs → p hs)
    (hnode : ∀ {hs gs ws}, p hs → Branches hs ws → r.node hs = .ok gs →
      p gs ∧ (Branches gs ws ∨ Branches gs [])) (h : NodeTree p v) (hw : rebuild r v = .ok w) :
    NodeTree p w := by
  induction h generalizing w with
  | node hfs hvs _ ih =>
    obtain ⟨hs, hhs, hw⟩ := bind_eq_ok.mp hw
    obtain ⟨gs, hgs, hw⟩ := bind_eq_ok.mp hw
    cases hw
    obtain ⟨ws, hws, hbelow, hagree, hkeys⟩ := exists_of_rebuildBelow hvs hhs
    obtain ⟨hgs, hbranches | hbranches⟩ := hnode (hp hagree hkeys hfs) hws hgs
    · refine .node hgs hbranches fun d hd => ?_
      obtain ⟨c, hc, hcd⟩ := Run.exists_left_of_forall₂ hbelow d hd
      exact ih c hc hcd
    · exact .node hgs hbranches (forall_mem_nil _)

/-! ### Formatting -/

/-- A node as an **order shows it**: it has the fields of the order, in order, and `nodes` only if
there is something in it. -/
structure ShownAs (order : List String) (fs gs : Fields) : Prop where
  other : ∀ key, key ≠ "nodes" →
    gs.get? key = if key ∈ order then fs.get? key else none
  keys : gs.keys = order.filter fun key => (gs.get? key).isSome
  nodes : gs.get? "nodes" ≠ some (.list [])

/-- The keys that are left by an order. -/
theorem mem_keys_reorder :
    key ∈ Fields.keys (reorder order fs) ↔ key ∈ order ∧ fs.get? key ≠ none := by
  rw [mem_keys_iff, get?_reorder]
  by_cases hkey : key ∈ order <;> simp [hkey]

/-- A missing last key of an order shows nothing. -/
theorem reorder_concat_of_none (h : fs.get? key = none) (order : List String) :
    reorder (order ++ [key]) fs = reorder order fs := by
  rw [reorder, foldl_append, foldl_cons, foldl_nil, h]
  rfl

/-- The last key of an order comes last. -/
theorem reorder_concat_of_some (h : fs.get? key = some v) (order : List String) :
    reorder (order ++ [key]) fs = Fields.set (reorder order fs) key v := by
  rw [reorder, foldl_append, foldl_cons, foldl_nil, h]
  rfl

/-- Fields in an order without repetitions come **in that order**. -/
theorem keys_reorder (hnodup : order.Nodup) (fs : Fields) :
    Fields.keys (reorder order fs) = order.filter fun key => (fs.get? key).isSome := by
  induction order using List.reverseRecOn with
  | nil => rfl
  | append_singleton order key ih =>
    obtain ⟨hnodup, -, hdisjoint⟩ := nodup_append.mp hnodup
    have hkey : key ∉ Fields.keys (reorder order fs) := fun hmem =>
      hdisjoint key (mem_keys_reorder.mp hmem).1 key (mem_singleton_self key) rfl
    rw [filter_append, ← ih hnodup]
    cases hget : fs.get? key with
    | none =>
      rw [reorder_concat_of_none hget]
      simp [hget]
    | some v =>
      rw [reorder_concat_of_some hget, keys_set_of_not_mem hkey]
      simp [hget]

/-- **Formatting keeps the shape of a tree.** -/
theorem exists_formatWith_parallel {order : List String} (hnodup : order.Nodup)
    (hmem : "nodes" ∈ order) {p : Fields → Prop} {v : Value} (h : NodeTree p v) :
    ∃ w, formatWith (.ok order) v = .ok w ∧ Parallel (ShownAs order) v w := by
  obtain ⟨w, hw⟩ := exists_formatWith order v
  refine ⟨w, hw, ?_⟩
  induction h generalizing w with
  | @node fs vs _ hvs _ ih =>
    have hkeys : ∀ gs, w = .object gs →
        Fields.keys gs = order.filter fun key => (Fields.get? gs key).isSome := by
      rintro gs rfl
      obtain ⟨hs, -, hw⟩ := bind_eq_ok.mp hw
      cases hw
      rw [keys_reorder hnodup]
      exact filter_congr fun key hkey => by rw [get?_reorder, if_pos hkey]
    obtain ⟨gs, rfl, hother, hnone, hsome⟩ := exists_of_formatWith_object hw
    cases hvs with
    | none hfs =>
      refine .node ⟨hother, hkeys gs rfl, ?_⟩ (.none hfs) (.none (hnone hfs)) .nil
      rw [hnone hfs]
      exact (Option.some_ne_none _).symm
    | list hfs =>
      obtain ⟨u, hu, hget⟩ := hsome _ hfs
      obtain ⟨ws, rfl, hws⟩ := exists_of_formatWith_list hu
      have hbelow := forall₂_imp_of_mem hws fun c hc d hd => ih c hc d hd
      cases hws with
      | nil =>
        rw [if_neg fun h => absurd h.2 (by decide)] at hget
        refine .node ⟨hother, hkeys gs rfl, ?_⟩ (.list hfs) (.none hget) .nil
        rw [hget]
        exact (Option.some_ne_none _).symm
      | cons hd hrest =>
        rw [if_pos ⟨hmem, rfl⟩] at hget
        refine .node ⟨hother, hkeys gs rfl, ?_⟩ (.list hfs) (.list hget) hbelow
        rw [hget]
        rintro ⟨⟩

/-- Formatting keeps the shape of a forest. -/
theorem exists_formatWith_parallel_list (hnodup : order.Nodup) (hmem : "nodes" ∈ order)
    (h : ∀ v ∈ vs, NodeTree p v) :
    ∃ ws, formatWith (.ok order) (.list vs) = .ok (.list ws) ∧
      Forall₂ (Parallel (ShownAs order)) vs ws := by
  obtain ⟨ws, hws⟩ := exists_forall₂ fun v hv => exists_formatWith_parallel hnodup hmem (h v hv)
  refine ⟨ws, ?_, hws.imp fun _ _ h => h.2⟩
  rw [formatWith, formatList_eq_mapM, mapM_eq_ok_iff.mpr (hws.imp fun _ _ h => h.1)]
  rfl

/-! ### Writing values into nodes -/

/-- Values are assigned along the branches. -/
theorem branches_assignBelow (keyOf : Fields → Option String) (hvs : Branches fs vs)
    (values : List Value) :
    Branches (assignBelow keyOf fs values).1 (assignList keyOf vs values).1 ∧
      (assignBelow keyOf fs values).2 = (assignList keyOf vs values).2 := by
  induction hvs using Branches.induction with
  | nil => exact ⟨.none rfl, rfl⟩
  | nodes vs rest =>
    rw [assignBelow, if_pos rfl, assign]
    exact ⟨.list rfl, rfl⟩
  | cons k v rest vs hk _ ih =>
    rw [assignBelow, if_neg hk]
    exact ⟨(branches_cons_iff hk).mpr ih.1, ih.2⟩

/-- Assigning below a node changes its branches only. -/
theorem agreeBut_assignBelow (keyOf : Fields → Option String) (fs : Fields) (values : List Value) :
    AgreeBut ["nodes"] fs (assignBelow keyOf fs values).1 := by
  intro key hkey
  exact (lifts_assignBelow keyOf fs values).other key fun h => hkey (mem_singleton.mpr h)

/-- Assigning below a node keeps its keys. -/
theorem keys_assignBelow (keyOf : Fields → Option String) (fs : Fields) (values : List Value) :
    Fields.keys (assignBelow keyOf fs values).1 = fs.keys := by
  induction fs with
  | nil => rfl
  | cons f rest ih =>
    obtain ⟨k, v⟩ := f
    rw [assignBelow]
    split
    · rfl
    · simp only [Fields.keys, map_cons] at ih ⊢
      rw [ih]

/-- The two keys of summaries. -/
theorem summaryKey_mem (fs : Fields) : summaryKey fs ∈ ["summary", "prefix_summary"] := by
  unfold summaryKey
  split <;> decide

/-- **Writing values keeps the shape of a tree**, and changes the fields that it writes. -/
theorem parallel_assign (hkeys : "nodes" ∉ keys)
    (hkeyOf : ∀ {fs key}, keyOf fs = some key → key ∈ keys) (h : NodeTree p v)
    (values : List Value) : Parallel (ChangedAt keys) v (assign keyOf v values).1 := by
  induction h generalizing values with
  | @node fs vs _ hvs hall ih =>
    have hbelow : ∀ values, Forall₂ (Parallel (ChangedAt keys)) vs
        (assignList keyOf vs values).1 := by
      intro values
      refine forall₂_imp_of_mem (forall₂_assignList keyOf vs values) fun c hc d => ?_
      rintro ⟨values', rfl⟩
      exact ih c hc values'
    have hchanged : ∀ values, ChangedAt keys fs (assignBelow keyOf fs values).1 := fun values =>
      changedAt_of_keys_eq keys (agreeBut_assignBelow keyOf fs values)
        (keys_assignBelow keyOf fs values)
    cases hkey : keyOf fs with
    | none =>
      unfold assign
      simp only [hkey]
      exact .node (hchanged values) hvs (branches_assignBelow keyOf hvs values).1 (hbelow values)
    | some key =>
      unfold assign
      simp only [hkey]
      cases values with
      | nil =>
        have hsame := (NodeTree.node (p := fun _ => True) trivial hvs fun c hc =>
          (hall c hc).imp fun _ _ => trivial).parallel_self
        refine hsame.imp fun fs gs h => ?_
        rw [h.1]
        exact changedAt_of_keys_eq keys (.refl _ fs) rfl
      | cons x values =>
        have hmem := hkeyOf hkey
        have hne : key ≠ "nodes" := fun h => hkeys (h ▸ hmem)
        refine .node ((hchanged values).set hmem hne x) hvs ?_ (hbelow values)
        exact (branches_assignBelow keyOf hvs values).1.of_agreeBut (agreeBut_set hmem _ x) hkeys

/-- Assigning values keeps the shape of trees. -/
theorem parallel_assignList (hkeys : "nodes" ∉ keys)
    (hkeyOf : ∀ {fs key}, keyOf fs = some key → key ∈ keys) (h : ∀ v ∈ vs, NodeTree p v)
    (values : List Value) :
    Forall₂ (Parallel (ChangedAt keys)) vs (assignList keyOf vs values).1 := by
  refine forall₂_imp_of_mem (forall₂_assignList keyOf vs values) fun v hv w => ?_
  rintro ⟨values', rfl⟩
  exact parallel_assign hkeys hkeyOf (h v hv) values'

/-- Two nodes are **the same but** for the values of some fields: they have the same keys and the
same other fields. -/
structure SameBut (keys : List String) (fs gs : Fields) : Prop where
  order : gs.keys = fs.keys
  agree : AgreeBut keys fs gs

/-- Setting the same field on both sides. -/
theorem SameBut.set (h : SameBut keys fs gs) (key : String) (x : Value) :
    SameBut keys (fs.set key x) (gs.set key x) where
  order := by
    by_cases hkey : key ∈ fs.keys
    · rw [keys_set_of_mem hkey, keys_set_of_mem (h.order ▸ hkey), h.order]
    · rw [keys_set_of_not_mem hkey, keys_set_of_not_mem (h.order ▸ hkey), h.order]
  agree := by
    intro other hother
    by_cases heq : key = other
    · subst heq
      rw [Fields.get?_set_self, Fields.get?_set_self]
    · rw [Fields.get?_set_of_ne _ _ heq, Fields.get?_set_of_ne _ _ heq, h.agree other hother]

/-- Assigning the same values below both. -/
theorem SameBut.assignBelow (hnodes : "nodes" ∈ keys) (h : SameBut keys fs gs)
    (keyOf : Fields → Option String) (values : List Value) :
    SameBut keys (assignBelow keyOf fs values).1 (assignBelow keyOf gs values).1 where
  order := by rw [keys_assignBelow, keys_assignBelow, h.order]
  agree := by
    have hagree : ∀ fs, AgreeBut keys fs (Outline.assignBelow keyOf fs values).1 := fun fs =>
      (agreeBut_assignBelow keyOf fs values).mono (by simpa using hnodes)
    exact ((hagree fs).symm.trans h.agree).trans (hagree gs)

/-- What writing values makes of two outlines: trees of the same shape, and the same values left. -/
def AssignAlike (keyOf : Fields → Option String) (P : Fields → Fields → Prop) (v w : Value) :
    Prop :=
  ∀ values, Parallel P (assign keyOf v values).1 (assign keyOf w values).1 ∧
    (assign keyOf w values).2 = (assign keyOf v values).2

/-- The first tree takes its values first. -/
theorem assignList_cons (keyOf : Fields → Option String) (v : Value) (vs values : List Value) :
    assignList keyOf (v :: vs) values =
      ((assign keyOf v values).1 :: (assignList keyOf vs (assign keyOf v values).2).1,
        (assignList keyOf vs (assign keyOf v values).2).2) := rfl

/-- Lists of trees take the same values. -/
theorem assignList_alike (h : Forall₂ (AssignAlike keyOf P) vs ws) (values : List Value) :
    Forall₂ (Parallel P) (assignList keyOf vs values).1 (assignList keyOf ws values).1 ∧
      (assignList keyOf ws values).2 = (assignList keyOf vs values).2 := by
  induction h generalizing values with
  | nil => exact ⟨.nil, rfl⟩
  | @cons v w vs ws hvw _ ih =>
    obtain ⟨hhere, hleft⟩ := hvw values
    obtain ⟨hrest, hleft'⟩ := ih (assign keyOf v values).2
    rw [assignList_cons, assignList_cons, hleft]
    exact ⟨.cons hhere hrest, hleft'⟩

/-- **Writing the same values into parallel trees**, by the numbers of branches, keeps them
parallel. -/
theorem assign_alike {keyFor : Nat → String} (hnodes : "nodes" ∈ keys)
    (hkeyOf : ∀ {fs vs}, Branches fs vs → keyOf fs = some (keyFor vs.length))
    (hkeyFor : ∀ n, keyFor n ≠ "nodes") (h : Parallel (SameBut keys) v w) :
    AssignAlike keyOf (SameBut keys) v w := by
  refine Parallel.induction (fun {fs gs vs ws} hP hvs hws hbelow ih values => ?_) h
  unfold assign
  simp only [hkeyOf hvs, hkeyOf hws, ← hbelow.length_eq]
  cases values with
  | nil => exact ⟨.node hP hvs hws hbelow, rfl⟩
  | cons x values =>
    obtain ⟨hbranches, hleft⟩ := branches_assignBelow keyOf hvs values
    obtain ⟨hbranches', hleft'⟩ := branches_assignBelow keyOf hws values
    obtain ⟨hlists, hlists'⟩ := assignList_alike ih values
    have hset : ∀ {hs : Fields} {us : List Value}, Branches hs us →
        Branches (hs.set (keyFor vs.length) x) us := fun hbranches =>
      hbranches.congr (Fields.get?_set_of_ne _ _ (hkeyFor _))
    refine ⟨.node ((hP.assignBelow hnodes keyOf values).set _ x) (hset hbranches)
      (hset hbranches') hlists, ?_⟩
    rw [hleft, hleft', hlists']

end DocTree.Outline
