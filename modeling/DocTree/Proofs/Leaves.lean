import DocTree.Proofs.Identifiers

/-!
# Identifiers find their nodes

Numbering **visits** the objects of an outline in document order, and a search by identifier visits
them in the same order, so it finds the one node that got the identifier. The list of leaves needs
the field `nodes` at every node, but a nested table of contents has it at no leaf.
-/

namespace DocTree.Outline

open List

variable {fs : Fields} {vs : List Value} {id v : Value}

/-! ### Visited objects -/

mutual

/-- The objects that numbering **visits**, in document order. -/
def visited : Value → List Value
  | .object fields => .object fields :: visitedBelow fields
  | .list items => visitedOfList items
  | _ => []

def visitedOfList : List Value → List Value
  | [] => []
  | v :: rest => visited v ++ visitedOfList rest

/-- The objects that are visited in every field that holds nodes. -/
def visitedBelow : List (String × Value) → List Value
  | [] => []
  | (k, v) :: rest => if holdsNodes k then visited v ++ visitedBelow rest else visitedBelow rest

end

/-- Whether a node has **no children**: its field `nodes` is absent or empty. -/
def lacksChildren (node : Value) : Bool := !((node.field? "nodes").getD .null).isTruthy

/-- A node **keeps** its fields when it is numbered: all but its identifier and those that hold
nodes are as before. -/
def Keeps (v w : Value) : Prop :=
  ∀ key, holdsNodes key = false → key ≠ "node_id" → w.field? key = v.field? key

/-- An identifier changes nothing below. -/
theorem visitedBelow_set_identifier (fs : Fields) (id : Value) :
    visitedBelow (fs.set "node_id" id) = visitedBelow fs := by
  have hid : holdsNodes "node_id" = false := by decide
  induction fs with
  | nil => simp [Fields.set, visitedBelow, hid]
  | cons f rest ih =>
    obtain ⟨k, v⟩ := f
    by_cases hk : k = "node_id"
    · subst hk
      simp [Fields.set, visitedBelow, hid]
    · simp [Fields.set, visitedBelow, hk, ih]

/-- What numbering makes of the visited objects: each keeps its fields, and the identifiers are
**consecutive**. -/
def Renumbers (n : Nat) (vs ws : List Value) : Prop :=
  Forall₂ Keeps vs ws ∧ NumberedFrom n ws

/-- Numbers go on in the next part. -/
theorem Renumbers.append {n : Nat} {ws vs' ws' : List Value} (h : Renumbers n vs ws)
    (h' : Renumbers (n + vs.length) vs' ws') : Renumbers n (vs ++ vs') (ws ++ ws') :=
  ⟨rel_append h.1 h'.1, h.2.append (h.1.length_eq ▸ h'.2)⟩

mutual

/-- **Numbering any value** gives the visited objects consecutive identifiers. -/
theorem exists_number_visited : ∀ (v : Value) (n : Nat),
    ∃ w, number v (.int n) = .ok (w, .int ↑(n + (visited v).length)) ∧
      Renumbers n (visited v) (visited w)
  | .object fs, n => by
    obtain ⟨gs, hgs, hkeeps, hbelow⟩ := exists_numberFields_visited fs (n + 1)
    refine ⟨.object (Fields.set gs "node_id" (.str (padded n))), ?_, ?_⟩
    · rw [number, Value.add_of_int? rfl rfl]
      change (numberFields fs (.int ↑(n + 1)) >>= _) = _
      rw [hgs, identifier_ofNat, visited, length_cons, Nat.add_right_comm, Nat.add_assoc]
      rfl
    · rw [visited, visited, visitedBelow_set_identifier]
      refine ⟨.cons (fun key hkey hid => ?_) hbelow.1, .cons (Fields.get?_set_self _ _ _) hbelow.2⟩
      rw [Value.field?_object, Fields.get?_set_of_ne _ _ (Ne.symm hid), hkeeps key hkey]
      rfl
  | .list items, n => by
    obtain ⟨ws, hws, hrenumbers⟩ := exists_numberList_visited items n
    refine ⟨.list ws, ?_, hrenumbers⟩
    rw [number, hws]
    rfl
  | .null, n | .bool _, n | .int _, n | .float _, n | .str _, n =>
    ⟨_, rfl, .nil, numberedFrom_nil n⟩

/-- A list is numbered in document order. -/
theorem exists_numberList_visited : ∀ (vs : List Value) (n : Nat),
    ∃ ws, numberList vs (.int n) = .ok (ws, .int ↑(n + (visitedOfList vs).length)) ∧
      Renumbers n (visitedOfList vs) (visitedOfList ws)
  | [], n => ⟨[], rfl, .nil, numberedFrom_nil n⟩
  | v :: rest, n => by
    obtain ⟨w, hw, hhere⟩ := exists_number_visited v n
    obtain ⟨ws, hws, hrest⟩ := exists_numberList_visited rest (n + (visited v).length)
    refine ⟨w :: ws, ?_, hhere.append hrest⟩
    rw [numberList, hw]
    change (numberList rest (.int ↑(n + (visited v).length)) >>= _) = _
    rw [hws, visitedOfList, length_append, Nat.add_assoc]
    rfl

/-- So are the fields that hold nodes. -/
theorem exists_numberFields_visited : ∀ (fs : Fields) (n : Nat),
    ∃ gs, numberFields fs (.int n) = .ok (gs, .int ↑(n + (visitedBelow fs).length)) ∧
      (∀ key, holdsNodes key = false → Fields.get? gs key = Fields.get? fs key) ∧
      Renumbers n (visitedBelow fs) (visitedBelow gs)
  | [], n => ⟨[], rfl, fun _ _ => rfl, .nil, numberedFrom_nil n⟩
  | (k, v) :: rest, n => by
    rw [numberFields, visitedBelow]
    by_cases hk : holdsNodes k
    · obtain ⟨w, hw, hhere⟩ := exists_number_visited v n
      obtain ⟨gs, hgs, hkeeps, hrest⟩ := exists_numberFields_visited rest (n + (visited v).length)
      rw [if_pos hk, if_pos hk, hw]
      refine ⟨(k, w) :: gs, ?_, fun key hkey => ?_, ?_⟩
      · change (numberFields rest (.int ↑(n + (visited v).length)) >>= _) = _
        rw [hgs, length_append, Nat.add_assoc]
        rfl
      · have hne : k ≠ key := fun h => Bool.false_ne_true (hkey.symm.trans (h ▸ hk))
        rw [Fields.get?, Fields.get?, if_neg hne, if_neg hne, hkeeps key hkey]
      · rw [visitedBelow, if_pos hk]
        exact hhere.append hrest
    · obtain ⟨gs, hgs, hkeeps, hrest⟩ := exists_numberFields_visited rest n
      rw [if_neg hk, if_neg hk, hgs]
      refine ⟨(k, v) :: gs, rfl, fun key hkey => ?_, ?_⟩
      · rw [Fields.get?, Fields.get?, hkeeps key hkey]
      · rw [visitedBelow, if_neg hk]
        exact hrest

end

/-! ### Searching by identifier -/

def hasIdentifier (id node : Value) : Bool := Value.same ((node.field? "node_id").getD .null) id

/-- The first that is found. -/
theorem map_orElse {found next : Option Fields} (h : found ≠ some []) :
    (orElse found next).map Value.object = (found.map .object).or (next.map .object) := by
  cases found with
  | none => rfl
  | some fields =>
    cases fields with
    | nil => exact absurd rfl h
    | cons f rest => rfl

/-- No empty object is found. -/
theorem ne_some_nil_of_map_eq {found : Option Fields} {p : Value → Bool}
    (h : found.map Value.object = vs.find? p) (hvs : .object [] ∉ vs) : found ≠ some [] := by
  rintro rfl
  exact hvs (mem_of_find?_eq_some h.symm)

mutual

/-- **A search by identifier** goes through the visited objects, if none of them is empty. -/
theorem map_find? (id : Value) : ∀ v : Value, .object [] ∉ visited v →
    (find? id v).map Value.object = (visited v).find? (hasIdentifier id)
  | .object fields, h => by
    rw [visited, mem_cons, not_or] at h
    rw [find?, visited, find?_cons, hasIdentifier, Value.field?_object,
      apply_ite (Option.map _), map_findBelow? id fields h.2]
    split
    · rename_i hid
      rw [hid]
      rfl
    · rename_i hid
      rw [Bool.eq_false_iff.mpr hid]
  | .list items, h => map_findInList? id items h
  | .null, _ | .bool _, _ | .int _, _ | .float _, _ | .str _, _ => rfl

/-- The first with the identifier in a list. -/
theorem map_findInList? (id : Value) : ∀ vs : List Value, .object [] ∉ visitedOfList vs →
    (findInList? id vs).map Value.object = (visitedOfList vs).find? (hasIdentifier id)
  | [], _ => rfl
  | v :: rest, h => by
    rw [visitedOfList, mem_append, not_or] at h
    have hv := map_find? id v h.1
    rw [findInList?, map_orElse (ne_some_nil_of_map_eq hv h.1), hv, map_findInList? id rest h.2,
      visitedOfList, find?_append]

/-- The first with the identifier below a node. -/
theorem map_findBelow? (id : Value) : ∀ fs : Fields, .object [] ∉ visitedBelow fs →
    (findBelow? id fs).map Value.object = (visitedBelow fs).find? (hasIdentifier id)
  | [], _ => rfl
  | (k, v) :: rest, h => by
    rw [findBelow?]
    rw [visitedBelow] at h ⊢
    split
    · rename_i hk
      rw [if_pos hk, mem_append, not_or] at h
      have hv := map_find? id v h.1
      rw [map_orElse (ne_some_nil_of_map_eq hv h.1), hv, map_findBelow? id rest h.2,
        find?_append]
    · rename_i hk
      rw [if_neg hk] at h
      exact map_findBelow? id rest h

end

/-- A leaf is found among the visited objects. -/
theorem isLeaf_eq_any (h : .object [] ∉ visited v) :
    isLeaf v id = ((visited v).find? (hasIdentifier id)).any lacksChildren := by
  rw [isLeaf, ← map_find? id v h]
  have hne := ne_some_nil_of_map_eq (map_find? id v h) h
  cases hfound : find? id v with
  | none => rfl
  | some fields =>
    rw [hfound] at hne
    cases fields with
    | nil => exact absurd rfl hne
    | cons f rest => rfl

/-- Only a text is the same as a text. -/
theorem same_str_iff {s : String} : Value.same (.str s) v = true ↔ v = .str s := by
  cases v with
  | str t => rw [Value.same_str, beq_iff_eq, Value.str.injEq, eq_comm]
  | _ => simp [Value.same, Value.sameNumber?, Value.int?]

section

variable {n : Nat} {ns : List Value}

/-- A numbered node has a text as its identifier, so it has any other identifier in no sense. -/
theorem NumberedFrom.hasIdentifier_iff (h : NumberedFrom n ns) {node : Value} (hnode : node ∈ ns) :
    hasIdentifier id node = true ↔ node.field? "node_id" = some id := by
  have hmem : node.field? "node_id" ∈ ns.map (·.field? "node_id") := mem_map_of_mem hnode
  rw [h] at hmem
  obtain ⟨i, -, hi⟩ := mem_map.mp hmem
  rw [hasIdentifier, ← hi, Option.getD_some, same_str_iff, Option.some.injEq, eq_comm]

/-- Numbered nodes have **distinct identifiers**. -/
theorem NumberedFrom.nodup (h : NumberedFrom n ns) : (ns.map (·.field? "node_id")).Nodup := by
  rw [h]
  refine Nodup.map (fun i j hij => padded_injective ?_) (nodup_range' 1)
  simpa using hij

/-- The one node with an identifier is found. -/
theorem NumberedFrom.find?_hasIdentifier (h : NumberedFrom n ns) {node : Value} (hnode : node ∈ ns)
    (hid : node.field? "node_id" = some id) : ns.find? (hasIdentifier id) = some node := by
  obtain ⟨found, hfound⟩ := Option.isSome_iff_exists.mp
    (find?_isSome.mpr ⟨node, hnode, (h.hasIdentifier_iff hnode).mpr hid⟩)
  have hmem := mem_of_find?_eq_some hfound
  have hsame := (h.hasIdentifier_iff hmem).mp (find?_some hfound)
  rw [hfound, inj_on_of_nodup_map h.nodup hmem hnode (hsame.trans hid.symm)]

/-- Numbered objects are not empty. -/
theorem NumberedFrom.not_mem_nil (h : NumberedFrom n ns) : .object [] ∉ ns :=
  fun hmem => h.field?_ne_none hmem rfl

/-- In a numbered outline **an identifier tells a leaf** from the field `nodes` of its node. -/
theorem isLeaf_of_numberedFrom {node : Value} (h : NumberedFrom n (visited v))
    (hnode : node ∈ visited v) (hid : node.field? "node_id" = some id) :
    isLeaf v id = lacksChildren node := by
  rw [isLeaf_eq_any h.not_mem_nil, h.find?_hasIdentifier hnode hid]
  rfl

/-- What is no identifier is no leaf. -/
theorem isLeaf_eq_false (h : NumberedFrom n (visited v))
    (hid : ∀ node ∈ visited v, node.field? "node_id" ≠ some id) : isLeaf v id = false := by
  have hnone : (visited v).find? (hasIdentifier id) = none :=
    find?_eq_none.mpr fun node hnode hhas =>
      hid node hnode ((h.hasIdentifier_iff hnode).mp hhas)
  rw [isLeaf_eq_any h.not_mem_nil, hnone]
  rfl

end

/-- **Identifiers find their nodes.** Numbering any value from `k` on succeeds, and gives the
visited objects, in document order, distinct numbers from `k` on with at least four digits. The
identifier of an object tells exactly whether it has children, and no other value is the identifier
of a leaf. -/
theorem identifiers_find_their_nodes (v : Value) (k : Nat) :
    ∃ w, number v (.int k) = .ok (w, .int ↑(k + (visited v).length)) ∧
      Forall₂ Keeps (visited v) (visited w) ∧
      (visited w).map (·.field? "node_id") =
        (List.range' k (visited v).length).map (fun i => some (.str (padded i))) ∧
      ((visited w).map (·.field? "node_id")).Nodup ∧
      (∀ node ∈ visited w, ∀ id, node.field? "node_id" = some id →
        isLeaf w id = lacksChildren node) ∧
      ∀ id, (∀ node ∈ visited w, node.field? "node_id" ≠ some id) → isLeaf w id = false := by
  obtain ⟨w, hw, hkeeps, hids⟩ := exists_number_visited v k
  refine ⟨w, hw, hkeeps, ?_, hids.nodup, fun node hnode id hid => ?_, fun id hid => ?_⟩
  · rw [hkeeps.length_eq]
    exact hids
  · exact isLeaf_of_numberedFrom hids hnode hid
  · exact isLeaf_eq_false hids hid

/-! ### The list of leaves -/

/-- Fields without nodes are not visited. -/
theorem visitedBelow_filter (fs : Fields) :
    visitedBelow (fs.filter fun f => holdsNodes f.1) = visitedBelow fs := by
  induction fs with
  | nil => rfl
  | cons f rest ih =>
    obtain ⟨k, v⟩ := f
    by_cases hk : holdsNodes k <;> simp [visitedBelow, hk, ih]

/-- Fields without nodes have no leaves. -/
theorem leavesBelow_filter (fs : Fields) :
    leavesBelow (fs.filter fun f => holdsNodes f.1) = leavesBelow fs := by
  induction fs with
  | nil => rfl
  | cons f rest ih =>
    obtain ⟨k, v⟩ := f
    by_cases hk : holdsNodes k <;> simp [leavesBelow, hk, ih]

/-- Of the fields of a node only `nodes` holds nodes. -/
theorem Numberable.filter_holdsNodes (h : Numberable fs) :
    fs.filter (fun f => holdsNodes f.1) =
      ((fs.get? "nodes").map fun v => ("nodes", v)).toList := by
  induction fs with
  | nil => rfl
  | cons f rest ih =>
    obtain ⟨k, v⟩ := f
    rw [Fields.get?]
    by_cases hk : k = "nodes"
    · subst hk
      have hrest : ("nodes" : String) ∉ Fields.keys rest := (nodup_cons.mp h.nodup).1
      rw [mem_keys_iff, not_not] at hrest
      have hholds : holdsNodes "nodes" = true := by decide
      rw [filter_cons, if_pos hholds, ih h.tail, hrest, if_pos rfl]
      rfl
    · have hholds : ¬ holdsNodes k := fun hholds => hk (h.nodes k (.head _) hholds)
      rw [filter_cons, if_neg hholds, ih h.tail, if_neg hk]

/-- Only branches are visited. -/
theorem Numberable.visitedBelow_eq (h : Numberable fs) (hvs : Branches fs vs) :
    visitedBelow fs = visitedOfList vs := by
  rw [← visitedBelow_filter, h.filter_holdsNodes]
  cases hvs with
  | none hnone =>
    rw [hnone]
    rfl
  | list hlist =>
    have hholds : holdsNodes "nodes" = true := by decide
    simp [hlist, visitedBelow, visited, hholds]

/-- Only branches have leaves. -/
theorem Numberable.leavesBelow_eq (h : Numberable fs)
    (hlist : fs.get? "nodes" = some (.list vs)) : leavesBelow fs = leavesOfList vs := by
  have hholds : holdsNodes "nodes" = true := by decide
  rw [← leavesBelow_filter, h.filter_holdsNodes, hlist]
  simp only [Option.map_some, Option.toList_some, leavesBelow, leaves, if_pos hholds]
  cases leavesOfList vs with
  | error why => rfl
  | ok found => exact congrArg Except.ok (append_nil found)

/-- The leaves among some nodes, which all have to have the field `nodes`. -/
def listed (ns : List Value) : Except Failure (List Value) :=
  if ∀ node ∈ ns, node.field? "nodes" ≠ none then
    .ok ((ns.filter lacksChildren).map (·.without "nodes"))
  else .error (.missingKey (.str "nodes"))

/-- Leaves of two parts. -/
theorem listed_append (ms ns : List Value) :
    listed (ms ++ ns) = (do return (← listed ms) ++ (← listed ns)) := by
  simp only [listed, forall_mem_append, filter_append, map_append]
  by_cases hms : ∀ node ∈ ms, node.field? "nodes" ≠ none
  · by_cases hns : ∀ node ∈ ns, node.field? "nodes" ≠ none
    · rw [if_pos ⟨hms, hns⟩, if_pos hms, if_pos hns]
      rfl
    · rw [if_neg fun h => hns h.2, if_pos hms, if_neg hns]
      rfl
  · rw [if_neg fun h => hms h.1, if_neg hms]
    rfl

/-- Leaves of a list, tree by tree. -/
theorem leavesOfList_eq_listed (h : ∀ v ∈ vs, leaves v = some <$> listed (visited v)) :
    leavesOfList vs = listed (visitedOfList vs) := by
  induction vs with
  | nil => rfl
  | cons v rest ih =>
    obtain ⟨hv, hrest⟩ := forall_mem_cons.mp h
    rw [leavesOfList, visitedOfList, listed_append, hv, ih hrest]
    cases listed (visited v) <;> rfl

/-- **The leaves of a tree** are listed if all its nodes have the field `nodes`. -/
theorem leaves_of_nodeTree (h : NodeTree Numberable v) :
    leaves v = some <$> listed (visited v) := by
  induction h with
  | @node fs vs hfs hvs _ ih =>
    rw [visited, hfs.visitedBelow_eq hvs, ← singleton_append, listed_append,
      ← leavesOfList_eq_listed ih, leaves]
    cases hvs with
    | none hnone =>
      have hfield : (Value.object fs).field "nodes" = .error (.missingKey (.str "nodes")) := by
        simp [Value.field, hnone]
      have hhead : listed [.object fs] = .error (.missingKey (.str "nodes")) := by
        simp [listed, hnone]
      rw [hfield, hhead]
      rfl
    | list hlist =>
      have hfield : (Value.object fs).field "nodes" = .ok (.list vs) :=
        Value.field_eq_ok_iff.mpr hlist
      cases vs with
      | nil =>
        have hhead : listed [.object fs] = .ok [.object (fs.erase "nodes")] := by
          simp [listed, lacksChildren, hlist, Value.isTruthy, Value.without]
        rw [hfield, hhead]
        rfl
      | cons c cs =>
        have hhead : listed [.object fs] = .ok [] := by
          simp [listed, lacksChildren, hlist, Value.isTruthy]
        rw [hfield, hhead, hfs.leavesBelow_eq hlist]
        cases leavesOfList (c :: cs) <;> rfl

/-! ### Nested entries -/

/-- A node of a nested table of contents has the field `nodes` **only if it has children**, and no
text. -/
structure Nested (fs : Fields) : Prop extends Numberable fs where
  notEmpty : fs.get? "nodes" ≠ some (.list [])
  textless : fs.get? "text" = none

/-- An entry over nested ones. -/
theorem nodeTree_node {entry : Value} {items : List Value}
    (h : ∀ c ∈ items, NodeTree Nested c) : NodeTree Nested (node entry items) := by
  have hkeys : ∀ key ∈ ["title", "start_index", "end_index", "nodes"],
      holdsNodes key → key = "nodes" := by decide
  cases items with
  | nil =>
    have hfew : ["title", "start_index", "end_index"] ⊆
        ["title", "start_index", "end_index", "nodes"] := by decide
    have hnone : (node entry []).field? "nodes" = none := rfl
    exact .node ⟨⟨by simp [Fields.keys], fun key hkey => hkeys key (hfew hkey)⟩, by rintro ⟨⟩, rfl⟩
      (.none hnone) h
  | cons c cs =>
    have hlist : (node entry (c :: cs)).field? "nodes" = some (.list (c :: cs)) := rfl
    exact .node ⟨⟨by simp [Fields.keys], hkeys⟩, by rintro ⟨⟩, rfl⟩ (.list hlist) h

/-- Nested entries are a forest. -/
theorem nodeTrees_of_nest {entries : List Value} {outline : Value}
    (h : nest (.list entries) = .ok outline) :
    ∃ roots, outline = .list roots ∧ (∀ v ∈ roots, NodeTree Nested v) ∧
      (entries ≠ [] → roots ≠ []) := by
  obtain ⟨roots, rfl, hwithin⟩ := exists_within_of_nest h
  refine ⟨roots, rfl, ?_, ?_⟩
  · obtain ⟨_, -, h⟩ := bind_eq_ok.mp h
    obtain ⟨codes, -, h⟩ := bind_eq_ok.mp h
    cases h
    intro v hv
    obtain ⟨e, he, rfl⟩ := mem_map.mp hv
    exact forall_mem_assemble (fun _ _ _ => nodeTree_node) e he
  · intro hne
    obtain ⟨entry, hentry⟩ := exists_mem_of_ne_nil _ hne
    obtain ⟨-, root, hroot, -⟩ := hwithin entry hentry
    exact ne_nil_of_mem hroot

/-- What is visited in a list is in one of its trees. -/
theorem mem_visitedOfList {node : Value} :
    node ∈ visitedOfList vs ↔ ∃ v ∈ vs, node ∈ visited v := by
  induction vs with
  | nil => simp [visitedOfList]
  | cons v rest ih => simp [visitedOfList, ih]

/-- What is visited is a tree of nodes. -/
theorem NodeTree.of_mem_visited {p : Fields → Prop} (hp : ∀ fs, p fs → Numberable fs)
    (h : NodeTree p v) : ∀ node ∈ visited v, NodeTree p node := by
  induction h with
  | @node fs vs hfs hvs hbelow ih =>
    intro node hnode
    rw [visited, (hp fs hfs).visitedBelow_eq hvs, mem_cons, mem_visitedOfList] at hnode
    rcases hnode with rfl | ⟨c, hc, hnode⟩
    · exact .node hfs hvs hbelow
    · exact ih c hc node hnode

/-- Every tree of nested entries has a leaf, and that has no field `nodes`. -/
theorem exists_leaf_of_nested (h : NodeTree Nested v) :
    ∃ node ∈ visited v, node.field? "nodes" = none := by
  induction h with
  | @node fs vs hfs hvs _ ih =>
    rw [visited, hfs.visitedBelow_eq hvs]
    cases hvs with
    | none hnone => exact ⟨_, .head _, hnone⟩
    | list hlist =>
      cases vs with
      | nil => exact absurd hlist hfs.notEmpty
      | cons c cs =>
        obtain ⟨node, hnode, hnone⟩ := ih c (.head _)
        exact ⟨node, .tail _ (mem_visitedOfList.mpr ⟨c, .head _, hnode⟩), hnone⟩

/-- A nested node lacks children exactly if it has no field `nodes`. -/
theorem lacksChildren_iff (h : NodeTree Nested v) :
    lacksChildren v = true ↔ v.field? "nodes" = none := by
  cases h with
  | @node fs vs hfs hvs _ =>
    cases hvs with
    | none hnone => simp [lacksChildren, hnone, Value.isTruthy]
    | list hlist =>
      cases vs with
      | nil => exact absurd hlist hfs.notEmpty
      | cons c cs => simp [lacksChildren, hlist, Value.isTruthy]

/-- Numbered entries are nested as before. -/
theorem nested_of_identified {w : Value} (h : NodeTree Nested v)
    (hparallel : Parallel Identified v w) : NodeTree Nested w := by
  refine ((h.parallel_self.comp hparallel).imp_of_branches (Q := fun _ gs => Nested gs)
    fun fs gs vs ws hP hvs hws hlength => ?_).nodeTree_right fun _ _ h => h
  obtain ⟨_, ⟨rfl, hfs⟩, hgs⟩ := hP
  refine ⟨hgs.numberable, fun hempty => ?_, (hgs.agree _ (by decide)).trans hfs.textless⟩
  -- without branches the node before had no field `nodes`
  obtain rfl := hws.unique (.list hempty)
  obtain rfl := length_eq_zero_iff.mp hlength
  cases hvs with
  | none hnone => exact hgs.nodes (by rw [hempty]; exact Option.some_ne_none _) hnone
  | list hlist => exact hfs.notEmpty hlist

/-- A forest that is numbered is a parallel one with consecutive identifiers. -/
theorem exists_number_forest (h : ∀ v ∈ vs, NodeTree Numberable v) (k : Nat) :
    ∃ ws next, number (.list vs) (.int k) = .ok (.list ws, next) ∧
      Forall₂ (Parallel Identified) vs ws ∧ NumberedFrom k (visited (.list ws)) := by
  obtain ⟨ws, ns, hws, hparallel, -⟩ := exists_number_list h k
  obtain ⟨w, hw, -, hids⟩ := exists_number_visited (.list vs) k
  obtain ⟨rfl, -⟩ := Prod.mk.inj (Except.ok.inj (hw.symm.trans hws))
  exact ⟨ws, _, hws, hparallel, hids⟩

/-- The leaves of a forest with identifiers. -/
theorem leaves_of_identified {ws : List Value} (h : Forall₂ (Parallel Identified) vs ws) :
    leaves (.list ws) = some <$> listed (visited (.list ws)) := by
  rw [leaves, visited, leavesOfList_eq_listed fun w hw => ?_]
  · rfl
  · obtain ⟨v, -, hvw⟩ := Run.exists_left_of_forall₂ h w hw
    exact leaves_of_nodeTree (hvw.nodeTree_right fun _ _ h => h.numberable)

/-- The nodes whose identifiers are those of **leaves**, without the field `nodes`. -/
def leavesById (v : Value) : List Value :=
  ((visited v).filter fun node => isLeaf v ((node.field? "node_id").getD .null)).map
    (·.without "nodes")

/-- The leaves by identifiers are those without children. -/
theorem leavesById_eq {k : Nat} (h : NumberedFrom k (visited v)) :
    leavesById v = ((visited v).filter lacksChildren).map (·.without "nodes") := by
  refine congrArg _ (filter_congr fun node hnode => ?_)
  obtain ⟨id, hid⟩ := Option.ne_none_iff_exists'.mp (h.field?_ne_none hnode)
  rw [hid, Option.getD_some, isLeaf_of_numberedFrom h hnode hid]

/-- **The leaves of nested entries are never listed.** In a numbered forest the leaves are listed
just as their identifiers tell them, without the field `nodes`, if every node has this field;
otherwise the list fails. Nested entries keep it only at nodes with children, so the list fails,
while the identifiers tell their leaves. -/
theorem leaves_listed_where_nodes_are_kept (k : Nat) :
    (∀ vs, (∀ v ∈ vs, NodeTree Numberable v) →
      ∃ w next, number (.list vs) (.int k) = .ok (w, next) ∧
      leaves w = if ∀ node ∈ visited w, node.field? "nodes" ≠ none then .ok (some (leavesById w))
        else .error (.missingKey (.str "nodes"))) ∧
    ∀ entries outline, entries ≠ [] → nest (.list entries) = .ok outline →
      ∃ w next, number outline (.int k) = .ok (w, next) ∧
        leaves w = .error (.missingKey (.str "nodes")) ∧
        ∀ node ∈ visited w, ∀ id, node.field? "node_id" = some id →
          (isLeaf w id = true ↔ node.field? "nodes" = none) := by
  constructor
  · intro vs hvs
    obtain ⟨ws, next, hws, hparallel, hids⟩ := exists_number_forest hvs k
    refine ⟨_, next, hws, ?_⟩
    rw [leaves_of_identified hparallel, listed, leavesById_eq hids]
    split <;> rfl
  · intro entries outline hne hnest
    obtain ⟨roots, rfl, htrees, hroots⟩ := nodeTrees_of_nest hnest
    obtain ⟨ws, next, hws, hparallel, hids⟩ :=
      exists_number_forest (fun v hv => (htrees v hv).imp fun _ h => h.toNumberable) k
    have hnested : ∀ w ∈ ws, NodeTree Nested w := by
      intro w hw
      obtain ⟨v, hv, hvw⟩ := Run.exists_left_of_forall₂ hparallel w hw
      exact nested_of_identified (htrees v hv) hvw
    refine ⟨_, next, hws, ?_, fun node hnode id hid => ?_⟩
    · -- each of the trees has a leaf
      obtain ⟨root, hroot⟩ := exists_mem_of_ne_nil _ (hroots hne)
      obtain ⟨w, hw, -⟩ := Run.exists_right_of_forall₂ hparallel root hroot
      obtain ⟨leaf, hleaf, hnone⟩ := exists_leaf_of_nested (hnested w hw)
      have hmem := mem_visitedOfList.mpr ⟨w, hw, hleaf⟩
      rw [leaves_of_identified hparallel, listed, if_neg fun hall => hall leaf hmem hnone]
      rfl
    · obtain ⟨w, hw, hmem⟩ := mem_visitedOfList.mp hnode
      rw [isLeaf_of_numberedFrom hids hnode hid, lacksChildren_iff
        ((hnested w hw).of_mem_visited (fun _ h => h.toNumberable) node hmem)]

/-- An entry with one below it: its forest is numbered, and its leaf is not listed. -/
theorem two_entries_are_not_listed :
    ∃ w next, number (.list [node (.object [("title", .str "A")])
        [node (.object [("title", .str "B")]) []]]) (.int 0) = .ok (w, next) ∧
      leaves w = .error (.missingKey (.str "nodes")) ∧
      ∀ node ∈ visited w, ∀ id, node.field? "node_id" = some id →
        (isLeaf w id = true ↔ node.field? "nodes" = none) :=
  (leaves_listed_where_nodes_are_kept 0).2
    [.object [("structure", .str "1"), ("title", .str "A")],
      .object [("structure", .str "1.1"), ("title", .str "B")]] _ (cons_ne_nil _ _)
    (by decide +kernel)

/-- The leaf of a single entry is told by its identifier but not listed. -/
theorem single_entry_is_not_listed :
    nest (.list [.object [("title", .str "A")]]) =
      .ok (.list [.object [("title", .str "A"), ("start_index", .null), ("end_index", .null)]]) ∧
    number (.list [.object [("title", .str "A"), ("start_index", .null), ("end_index", .null)]])
      (.int 0) = .ok (.list [.object [("title", .str "A"), ("start_index", .null),
        ("end_index", .null), ("node_id", .str "0000")]], .int 1) ∧
    leaves (.list [.object [("title", .str "A"), ("start_index", .null), ("end_index", .null),
      ("node_id", .str "0000")]]) = .error (.missingKey (.str "nodes")) ∧
    isLeaf (.list [.object [("title", .str "A"), ("start_index", .null), ("end_index", .null),
      ("node_id", .str "0000")]]) (.str "0000") = true := by
  decide

end DocTree.Outline
