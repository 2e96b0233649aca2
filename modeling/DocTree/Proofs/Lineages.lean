import DocTree.Code.KotlinOutline
import DocTree.Proofs.Links

/-!
# Lineages

The shape of an outline is told by its **lineages**: every node with all nodes above it, the nearest
first, in document order. Outlines that are put together from links have the lineages that the links
lead along.
-/

namespace DocTree.Code

open Kotlin Forest List

/-- A node **without** the nodes below it. -/
def Node.alone : Node → Node
  | .mk title kind first last details _ => .mk title kind first last details []

/-- A node alone has its kind. -/
@[simp] theorem Node.kind_alone (n : Node) : n.alone.kind = n.kind := by cases n; rfl

/-- A node alone has its title. -/
theorem Node.title_alone (n : Node) : n.alone.title = n.title := by cases n; rfl

mutual

/-- The **lineages** of a node and of the nodes below it, where `above` is the lineage that leads to
the node. -/
def lineages (above : List Node) : Node → List (List Node)
  | .mk title kind first last details children =>
    (.mk title kind first last details [] :: above) ::
      lineagesOf (.mk title kind first last details [] :: above) children

/-- The lineages of several nodes and of the nodes below them. -/
def lineagesOf (above : List Node) : List Node → List (List Node)
  | [] => []
  | n :: rest => lineages above n ++ lineagesOf above rest

end

/-- Lineages node by node. -/
theorem lineagesOf_eq_flatMap (above : List Node) (ns : List Node) :
    lineagesOf above ns = ns.flatMap (lineages above) := by
  induction ns with
  | nil => rfl
  | cons n rest ih => rw [lineagesOf, ih, flatMap_cons]

/-- A node comes before the nodes below it. -/
theorem lineages_eq_cons (above : List Node) (n : Node) :
    lineages above n = (n.alone :: above) :: lineagesOf (n.alone :: above) n.children := by
  cases n
  rw [lineages]
  rfl

/-- Further children come after those that are there. -/
theorem lineages_withChildren (above : List Node) (n : Node) (more : List Node) :
    lineages above (withChildren n more) =
      lineages above n ++ lineagesOf (n.alone :: above) more := by
  cases n
  simp only [withChildren, lineages, Node.alone, lineagesOf_eq_flatMap, flatMap_append,
    cons_append]

/-- Those lineages that belong to nodes of some kinds. -/
def ofKinds (kept : Kind → Bool) (ls : List (List Node)) : List (List Node) :=
  ls.filter fun l => l.head?.any fun n => kept n.kind

/-! ### Outlines from links -/

/-- The lineages of a linked node, if `line` gives that of every number. -/
def linkedLineages (line : Nat → List Node) (e : Option Nat × Node) : List (List Node) :=
  lineages (e.1.elim [] line) e.2

/-- Entries that are numbered from `i` on have links to **earlier** numbers, and the lineages that
the links lead along. -/
def Linked (line : Nat → List Node) (i : Nat) (entries : List (Option Nat × Node)) : Prop :=
  ∀ e ∈ entries.zipIdx i, (∀ k, e.1.1 = some k → k < e.2) ∧
    line e.2 = e.1.2.alone :: e.1.1.elim [] line

section

variable {line : Nat → List Node} {i : Nat} {entries : List (Option Nat × Node)}

/-- One step: the children of the first entry are those that link to it. -/
theorem flatMap_assemble_cons {e : Option Nat × Node}
    (hline : line i = e.2.alone :: e.1.elim [] line) :
    (assemble withChildren i (e :: entries)).flatMap (linkedLineages line) =
      linkedLineages line e ++
        (((assemble withChildren (i + 1) entries).filter fun f => f.1 = some i) ++
          (assemble withChildren (i + 1) entries).filter fun f => !f.1 = some i).flatMap
            (linkedLineages line) := by
  have hchildren : ∀ fs : List (Option Nat × Node), (∀ f ∈ fs, f.1 = some i) →
      lineagesOf (line i) (fs.map Prod.snd) = fs.flatMap (linkedLineages line) := by
    intro fs hfs
    rw [lineagesOf_eq_flatMap, flatMap_map]
    refine flatMap_congr fun f hf => ?_
    rw [linkedLineages, hfs f hf]
    rfl
  obtain ⟨link, node⟩ := e
  rw [assemble, flatMap_cons, linkedLineages, lineages_withChildren, ← hline, hchildren,
    flatMap_append, append_assoc]
  · simp [linkedLineages]
  · exact fun f hf => by simpa using (mem_filter.mp hf).2

/-- What is still open links to numbers before. -/
theorem Linked.lt_of_mem_assemble (h : Linked line i entries) :
    ∀ e ∈ assemble withChildren i entries, ∀ k, e.1 = some k → k < i := by
  induction entries generalizing i with
  | nil => exact forall_mem_nil _
  | cons first rest ih =>
    obtain ⟨hfirst, hrest⟩ := forall_mem_cons.mp h
    refine forall_mem_cons.mpr ⟨hfirst.1, fun e he k hk => ?_⟩
    obtain ⟨he, hne⟩ := mem_filter.mp he
    exact Nat.lt_of_le_of_ne (Nat.le_of_lt_succ (ih hrest e he k hk))
      fun heq => by simp [hk, heq] at hne

/-- Links lead along lineages. -/
theorem Linked.lineagesOf_ofLinks (h : Linked line 0 entries) :
    lineagesOf [] (ofLinks withChildren entries) =
      (assemble withChildren 0 entries).flatMap (linkedLineages line) := by
  rw [ofLinks, lineagesOf_eq_flatMap, flatMap_map]
  refine flatMap_congr fun e he => ?_
  cases hlink : e.1 with
  | none => rw [linkedLineages, hlink]; rfl
  | some k => exact absurd (h.lt_of_mem_assemble e he k hlink) (Nat.not_lt_zero k)

/-- **The lineages of an outline from links** are those that the links lead along. -/
theorem Linked.perm_lineages (h : Linked line i entries) :
    ((assemble withChildren i entries).flatMap (linkedLineages line)).Perm
      (entries.flatMap (linkedLineages line)) := by
  induction entries generalizing i with
  | nil => exact .nil
  | cons first rest ih =>
    obtain ⟨hfirst, hrest⟩ := forall_mem_cons.mp h
    rw [flatMap_assemble_cons hfirst.2, flatMap_cons]
    refine Perm.append_left _ (Perm.trans (Perm.flatMap_right _ ?_) (ih hrest))
    exact filter_append_perm (fun f : Option Nat × Node => decide (f.1 = some i)) _

/-! ### Outlines in the order of the links -/

/-- Entries whose nodes of some kinds are linked as on a **stack**: once one links past a number,
none links to it any more. Other nodes are not linked to. -/
structure Stacked (kept : Kind → Bool) (i : Nat) (entries : List (Option Nat × Node)) : Prop where
  others : ∀ e ∈ entries.zipIdx i, kept e.1.2.kind = false →
    (∀ above, ofKinds kept (lineages above e.1.2) = []) ∧ ∀ f ∈ entries, f.1 ≠ some e.2
  nested : (entries.zipIdx i).Pairwise fun e f => ∀ k < e.2, f.1.1 = some k →
    kept e.1.2.kind = true → ∃ l, e.1.1 = some l ∧ k ≤ l

variable {kept : Kind → Bool}

/-- What is stacked stays so. -/
theorem Stacked.tail {e : Option Nat × Node} (h : Stacked kept i (e :: entries)) :
    Stacked kept (i + 1) entries where
  others f hf hkind := (h.others f (.tail _ hf) hkind).imp_right
    fun hnone g hg => hnone g (.tail _ hg)
  nested := (pairwise_cons.mp h.nested).2

/-- Parts that are chosen come first where nothing is lost by it. -/
theorem flatMap_filter_append {α β : Type} {f : α → List β} {p : α → Bool} {as : List α}
    (h : as.Pairwise fun a b => p b = true → p a = false → f a = []) :
    (as.filter p ++ as.filter fun a => !p a).flatMap f = as.flatMap f := by
  induction h with
  | nil => rfl
  | @cons a as hfirst _ ih =>
    cases ha : p a with
    | true => simpa [ha] using ih
    | false =>
      by_cases hf : f a = []
      · simpa [ha, hf] using ih
      · -- nothing after `a` is chosen
        have hnone : as.filter p = [] := filter_eq_nil_iff.mpr fun b hb hp =>
          hf (hfirst b hb hp ha)
        rw [hnone, nil_append] at ih
        simpa [ha, hnone] using ih

/-- What is still open is linked as the entries are. -/
theorem sublist_assemble (i : Nat) (entries : List (Option Nat × Node)) :
    ((assemble withChildren i entries).map fun e => (e.1, e.2.kind)).Sublist
      (entries.map fun e => (e.1, e.2.kind)) := by
  induction entries generalizing i with
  | nil => exact .slnil
  | cons e rest ih =>
    obtain ⟨link, title, kind, first, last, details, children⟩ := e
    exact .cons_cons _ ((filter_sublist.map _).trans (ih (i + 1)))

/-- A node of another kind has no node of the kinds below it. -/
theorem Stacked.ofKinds_of_mem_assemble (h : Stacked kept i entries) :
    ∀ e ∈ assemble withChildren i entries, kept e.2.kind = false →
      ofKinds kept (linkedLineages line e) = [] := by
  induction entries generalizing i with
  | nil => exact forall_mem_nil _
  | cons first rest ih =>
    obtain ⟨link, node⟩ := first
    refine forall_mem_cons.mpr
      ⟨fun hkind => ?_, fun e he => ih h.tail e (mem_filter.mp he).1⟩
    obtain ⟨hown, hnone⟩ := h.others _ (.head _) (by cases node; exact hkind)
    have hchildren : (assemble withChildren (i + 1) rest).filter (fun e => e.1 = some i) = [] := by
      refine filter_eq_nil_iff.mpr fun e he hlink => ?_
      obtain ⟨f, hf, heq⟩ := mem_map.mp
        ((sublist_assemble _ rest).subset (mem_map_of_mem he))
      exact hnone f (.tail _ hf)
        ((congrArg Prod.fst heq).trans (of_decide_eq_true hlink))
    rw [hchildren, linkedLineages, lineages_withChildren, map_nil, lineagesOf, append_nil]
    exact hown _

/-- **Lineages in the order of the links**, where nodes of some kinds are linked as on a stack. -/
theorem Stacked.ofKinds_assemble (h : Stacked kept i entries) (hlinked : Linked line i entries) :
    ofKinds kept ((assemble withChildren i entries).flatMap (linkedLineages line)) =
      ofKinds kept (entries.flatMap (linkedLineages line)) := by
  induction entries generalizing i with
  | nil => rfl
  | cons first rest ih =>
    obtain ⟨hfirst, hrest⟩ := forall_mem_cons.mp hlinked
    have hpairs : (assemble withChildren (i + 1) rest).Pairwise fun e f =>
        decide (f.1 = some i) = true → decide (e.1 = some i) = false →
          ofKinds kept (linkedLineages line e) = [] := by
      have hnested : (rest.map fun e => (e.1, e.2.kind)).Pairwise fun a b =>
          b.1 = some i → kept a.2 = true → ∃ l, a.1 = some l ∧ i ≤ l := by
        have := h.tail.nested.imp_of_mem fun {e f} he _ h => h i (le_snd_of_mem_zipIdx he)
        rw [← zipIdx_map_fst (i + 1) rest, map_map]
        exact pairwise_map.mpr this
      refine (pairwise_map.mp (hnested.sublist (sublist_assemble _ rest))).imp_of_mem ?_
      intro e f he _ hpair hlink hother
      cases hkept : kept e.2.kind with
      | false => exact h.tail.ofKinds_of_mem_assemble e he hkept
      | true =>
        obtain ⟨k, hk, hle⟩ := hpair (of_decide_eq_true hlink) hkept
        have hlt := Linked.lt_of_mem_assemble hrest e he k hk
        exact absurd (hk.trans (congrArg some (by omega))) (of_decide_eq_false hother)
    have hordered := flatMap_filter_append hpairs
    have ih := ih h.tail hrest
    simp only [ofKinds, filter_flatMap] at ih hordered ⊢
    rw [← filter_flatMap, flatMap_assemble_cons hfirst.2, flatMap_cons,
      filter_append, filter_flatMap, ← ih, ← hordered]

end

end DocTree.Code
