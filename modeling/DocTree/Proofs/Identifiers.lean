import DocTree.Proofs.Parallel

/-!
# Identifiers of the nodes of a tree

Numbering visits every field whose key contains `nodes`. If a tree has no such field but `nodes`,
its n-th node gets the n-th number, and nothing else changes.
-/

namespace DocTree.Outline

open List

variable {fs : Fields} {ns vs : List Value} {n : Nat}

/-! ### Numbers with four digits -/

/-- The decimal digits of a number, with **zeros in front** up to four digits. -/
def padded (n : Nat) : String := String.ofList (List.leftpad 4 '0' (Nat.toDigits 10 n))

/-- Filling up with zeros. -/
theorem zeroFill_natText (n : Nat) : Decimal.zeroFill 4 (Decimal.natText n) = padded n := by
  have hdigits : ∀ c ∈ Nat.toDigits 10 n, c.isDigit := fun c hc =>
    Nat.isDigit_of_mem_toDigits (by decide) (by decide) hc
  have hzeros : padded n =
      String.ofList (replicate (4 - (Decimal.natText n).length) '0') ++ Decimal.natText n := by
    simp [padded, List.leftpad, Decimal.natText]
  rw [hzeros, Decimal.zeroFill]
  -- the first digit is no sign
  split
  · rename_i rest hrest
    have hsign : '-' ∈ Nat.toDigits 10 n := by
      rw [← String.toList_ofList (l := Nat.toDigits 10 n)]
      exact hrest ▸ (.head _)
    exact absurd (hdigits _ hsign) (by decide)
  · rename_i rest hrest
    have hsign : '+' ∈ Nat.toDigits 10 n := by
      rw [← String.toList_ofList (l := Nat.toDigits 10 n)]
      exact hrest ▸ (.head _)
    exact absurd (hdigits _ hsign) (by decide)
  · rfl

/-- The identifier of a natural number is the number **with at least four digits**. -/
theorem identifier_ofNat (n : Nat) : identifier (.int n) = padded n := by
  have hdisplay : (Value.int n).display = Decimal.natText n := by
    simp [Value.display, Value.literal, Decimal.intText]
  rw [identifier, hdisplay, zeroFill_natText]

example : padded 7 = "0007" ∧ padded 12345 = "12345" := by decide

/-- Zeros in front do not make two numbers alike: the number is read off the digits again. -/
theorem padded_injective : Function.Injective padded := by
  have hread (n : Nat) : Nat.ofDigitChars 10 (padded n).toList 0 = n := by
    rw [padded, String.toList_ofList, List.leftpad, Nat.ofDigitChars_append,
      Nat.ofDigitChars_replicate_zero, Nat.mul_zero, Nat.ofDigitChars_ten_toDigits]
  intro m n h
  rw [← hread m, h, hread n]

/-! ### Consecutive identifiers -/

/-- The identifiers of some nodes are **consecutive** from a number on. -/
def NumberedFrom (n : Nat) (ns : List Value) : Prop :=
  ns.map (·.field? "node_id") = (List.range' n ns.length).map fun i => some (.str (padded i))

/-- Nothing to number. -/
theorem numberedFrom_nil (n : Nat) : NumberedFrom n [] := rfl

/-- One more number. -/
theorem NumberedFrom.cons {n : Nat} {v : Value} {ns : List Value}
    (hv : v.field? "node_id" = some (.str (padded n))) (h : NumberedFrom (n + 1) ns) :
    NumberedFrom n (v :: ns) := by
  rw [NumberedFrom, length_cons, range'_succ, map_cons, map_cons, hv, h]

/-- Numbers of two parts. -/
theorem NumberedFrom.append {ms : List Value} (hms : NumberedFrom n ms)
    (hns : NumberedFrom (n + ms.length) ns) : NumberedFrom n (ms ++ ns) := by
  rw [NumberedFrom, length_append, ← range'_append_1, map_append, map_append,
    hms, hns]

/-- Numbered nodes have identifiers. -/
theorem NumberedFrom.field?_ne_none (h : NumberedFrom n ns) {v : Value} (hv : v ∈ ns) :
    v.field? "node_id" ≠ none := by
  have hmem : v.field? "node_id" ∈ ns.map (·.field? "node_id") := mem_map_of_mem hv
  rw [h] at hmem
  obtain ⟨i, -, hi⟩ := mem_map.mp hmem
  rw [← hi]
  exact Option.some_ne_none _

/-- Nodes at the same places with the same identifiers are numbered alike. -/
theorem NumberedFrom.of_parallel {P : Fields → Fields → Prop}
    (hP : ∀ fs gs, P fs gs → gs.get? "node_id" = fs.get? "node_id") {ms : List Value}
    (h : NumberedFrom n ms) (hparallel : Forall₂ (Parallel P) ms ns) : NumberedFrom n ns := by
  have hids : ns.map (·.field? "node_id") = ms.map (·.field? "node_id") := by
    clear h
    induction hparallel with
    | nil => rfl
    | cons hvw _ ih =>
      cases hvw with
      | node hfs _ _ _ =>
        rw [map_cons, map_cons, ih, Value.field?_object, Value.field?_object, hP _ _ hfs]
  rw [NumberedFrom, hids, ← hparallel.length_eq]
  exact h

/-! ### Numbering -/

/-- A node that numbering visits **once**: its keys are distinct, and `nodes` is the only one that
holds nodes. -/
structure Numberable (fs : Fields) : Prop where
  nodup : fs.keys.Nodup
  nodes : ∀ key ∈ fs.keys, holdsNodes key → key = "nodes"

/-- Fewer fields are numberable. -/
theorem Numberable.tail {f : String × Value} {rest : Fields} (h : Numberable (f :: rest)) :
    Numberable rest where
  nodup := (nodup_cons.mp h.nodup).2
  nodes key hkey := h.nodes key (.tail _ hkey)

/-- Nothing to number in other fields. -/
theorem numberFields_of_not_holdsNodes (h : ∀ key ∈ fs.keys, ¬ holdsNodes key) (n : Value) :
    numberFields fs n = .ok (fs, n) := by
  induction fs with
  | nil => rfl
  | cons f rest ih =>
    obtain ⟨k, v⟩ := f
    rw [numberFields, if_neg (h k (.head _)), ih fun key hkey => h key (.tail _ hkey)]
    rfl

/-- Another field stays numberable. -/
theorem Numberable.set {key : String} (h : Numberable fs) (hkey : holdsNodes key → key = "nodes")
    (x : Value) : Numberable (fs.set key x) where
  nodup := nodup_keys_set h.nodup _ _
  nodes other hother hholds := by
    by_cases heq : key = other
    · subst heq
      exact hkey hholds
    · rw [mem_keys_iff, Fields.get?_set_of_ne _ _ heq, ← mem_keys_iff] at hother
      exact h.nodes other hother hholds

/-- Numbering below a node goes through its branches. -/
theorem exists_numberFields {ws : List Value} {n next : Value} (hfs : Numberable fs)
    (hvs : Branches fs vs) (h : numberList vs n = .ok (ws, next)) :
    ∃ gs, numberFields fs n = .ok (gs, next) ∧ Branches gs ws ∧ AgreeBut ["nodes"] fs gs ∧
      Fields.keys gs = Fields.keys fs := by
  induction fs with
  | nil =>
    cases hvs with
    | none hnone =>
      cases h
      exact ⟨[], rfl, .none hnone, .refl _ _, rfl⟩
    | list hsome => cases hsome
  | cons f rest ih =>
    obtain ⟨k, v⟩ := f
    rw [numberFields]
    by_cases hk : k = "nodes"
    · subst hk
      obtain rfl := hvs.eq_list
      -- no later field holds nodes: it would have the same key
      have hrest : ∀ key ∈ Fields.keys rest, ¬ holdsNodes key := by
        intro key hkey hholds
        obtain rfl := hfs.tail.nodes key hkey hholds
        exact (nodup_cons.mp hfs.nodup).1 hkey
      have hholds : holdsNodes "nodes" = true := by decide
      rw [if_pos hholds, number, h]
      refine ⟨("nodes", .list ws) :: rest, ?_, .list rfl, fun key hkey => ?_, rfl⟩
      · change (numberFields rest next >>= _) = _
        rw [numberFields_of_not_holdsNodes hrest]
        rfl
      · have hne : "nodes" ≠ key := fun h => hkey (mem_singleton.mpr h.symm)
        rw [Fields.get?, Fields.get?, if_neg hne, if_neg hne]
    · have hholds : ¬ holdsNodes k := fun hholds => hk (hfs.nodes k (.head _) hholds)
      obtain ⟨gs, hgs, hbranches, hagree, hkeys⟩ := ih hfs.tail ((branches_cons_iff hk).mp hvs)
      rw [if_neg hholds, hgs]
      refine ⟨(k, v) :: gs, rfl, (branches_cons_iff hk).mpr hbranches, fun key hkey => ?_,
        congrArg (k :: ·) hkeys⟩
      rw [Fields.get?, Fields.get?, hagree key hkey]

/-- A node **with an identifier**, perhaps another one: nothing else is changed. -/
structure Identified (fs gs : Fields) : Prop where
  agree : AgreeBut ["nodes", "node_id"] fs gs
  identifier : gs.get? "node_id" ≠ none
  numberable : Numberable gs
  nodes : gs.get? "nodes" ≠ none → fs.get? "nodes" ≠ none

/-- What numbering makes of an outline: a parallel tree with **consecutive identifiers**. -/
def Numbers (n : Nat) (v w : Value) (ns : List Value) : Prop :=
  number v (.int n) = .ok (w, .int ↑(n + ns.length)) ∧ Parallel Identified v w ∧
    nodes w = .ok (some ns) ∧ NumberedFrom n ns

/-- Trees are numbered one after another. -/
theorem exists_numberList (h : ∀ v ∈ vs, ∀ n, ∃ w ns, Numbers n v w ns) (n : Nat) :
    ∃ ws ns, numberList vs (.int n) = .ok (ws, .int ↑(n + ns.length)) ∧
      Forall₂ (Parallel Identified) vs ws ∧ nodesOfList ws = .ok ns ∧ NumberedFrom n ns := by
  induction vs generalizing n with
  | nil => exact ⟨[], [], rfl, .nil, rfl, numberedFrom_nil n⟩
  | cons v vs ih =>
    obtain ⟨w, here, hw, hvw, hhere, hids⟩ := h v (.head _) n
    obtain ⟨ws, rest, hws, hvsws, hrest, hids'⟩ :=
      ih (fun v hv => h v (.tail _ hv)) (n + here.length)
    refine ⟨w :: ws, here ++ rest, ?_, .cons hvw hvsws, nodesOfList_cons hhere hrest,
      hids.append hids'⟩
    rw [numberList, hw]
    change (numberList vs (.int ↑(n + here.length)) >>= _) = _
    rw [hws, length_append, ← Nat.add_assoc]
    rfl

/-- **Numbering a tree** gives its nodes consecutive identifiers in document order. -/
theorem exists_number {v : Value} (h : NodeTree Numberable v) (n : Nat) :
    ∃ w ns, Numbers n v w ns := by
  induction h generalizing n with
  | @node fs vs hfs hvs _ ih =>
    obtain ⟨ws, below, hws, hvsws, hbelow, hids⟩ := exists_numberList ih (n + 1)
    obtain ⟨gs, hgs, hbranches, hagree, hkeys⟩ := exists_numberFields hfs hvs hws
    have hset : Branches (Fields.set gs "node_id" (.str (padded n))) ws :=
      hbranches.congr (Fields.get?_set_of_ne _ _ (by decide))
    have hid : Fields.get? (Fields.set gs "node_id" (.str (padded n))) "node_id" =
        some (.str (padded n)) := Fields.get?_set_self _ _ _
    have hidentified : Identified fs (Fields.set gs "node_id" (.str (padded n))) := by
      refine ⟨(hagree.mono (by simp)).trans (agreeBut_set (by simp) gs _),
        hid.symm ▸ Option.some_ne_none _,
        Numberable.set ⟨hkeys ▸ hfs.nodup, hkeys ▸ hfs.nodes⟩ (by decide) _, ?_⟩
      rw [Fields.get?_set_of_ne _ _ (by decide), ← mem_keys_iff, ← mem_keys_iff, hkeys]
      exact id
    refine ⟨.object (Fields.set gs "node_id" (.str (padded n))), _, ?_,
      .node hidentified hvs hset hvsws, nodes_of_branches hset hbelow, .cons hid hids⟩
    rw [number, Value.add_of_int? rfl rfl]
    change (numberFields fs (.int ↑(n + 1)) >>= _) = _
    rw [hgs, identifier_ofNat, length_cons, Nat.add_right_comm n, Nat.add_assoc]
    rfl

/-- A forest is numbered. -/
theorem exists_number_list (h : ∀ v ∈ vs, NodeTree Numberable v) (n : Nat) :
    ∃ ws ns, number (.list vs) (.int n) = .ok (.list ws, .int ↑(n + ns.length)) ∧
      Forall₂ (Parallel Identified) vs ws ∧ nodes (.list ws) = .ok (some ns) ∧
      NumberedFrom n ns := by
  obtain ⟨ws, ns, hws, hvsws, hns, hids⟩ := exists_numberList (fun v hv => exists_number (h v hv)) n
  refine ⟨ws, ns, ?_, hvsws, ?_, hids⟩
  · rw [number, hws]
    rfl
  · rw [nodes, hns]
    rfl

end DocTree.Outline
