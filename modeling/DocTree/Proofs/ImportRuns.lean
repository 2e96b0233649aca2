import DocTree.Proofs.Contraction
import DocTree.Proofs.Definitions

/-!
# Runs of imports in Python modules

Imports are gathered until another statement comes or the module ends, so the groups of imports are
the longest runs of them.
-/

namespace DocTree.Python

open Code Statement List

variable {s : Statement} {body : List Statement} {ns : List Node}

/-- Whether a statement is an **import**. -/
def Statement.isImport (s : Statement) : Bool := (importNode? s).isSome

/-- The bare **node** of an import or a definition at the top of a module. -/
def Statement.topNode? (s : Statement) : Option Node := (importNode? s).or (s.node? false)

/-- Whether two statements are both imports. -/
def areImports (s t : Statement) : Bool := s.isImport && t.isImport

/-- The nodes of a **run** of statements: imports make one group; other statements have the nodes of
definitions. -/
def runNodes (run : List Statement) : Except Failure (List Node) :=
  if run.all isImport then .ok (groupRun (run.filterMap importNode?)) else definitions false run

/-- The node of an import. -/
theorem importNode_of_importNode? {n : Node} (h : importNode? s = some n) :
    n.kind = .importLine ∧ n.bare = n := by
  cases s <;> cases h <;> exact ⟨rfl, rfl⟩

/-- A run of imports is one group. -/
theorem importGroup_filterMap (run : List Statement) :
    importGroup (run.filterMap importNode?) = groupRun (run.filterMap importNode?) := by
  refine importGroup_eq_groupRun fun n hn => ?_
  obtain ⟨s, -, hs⟩ := mem_filterMap.mp hn
  exact (importNode_of_importNode? hs).1

/-- **In place of the groups** are the nodes of all imports and definitions, one after the other. -/
theorem ungroup_outlineFrom {pending : List Node} (h : outlineFrom pending body = .ok ns) :
    (ungroup ns).map Node.bare = pending.map Node.bare ++ body.filterMap topNode? := by
  induction body generalizing pending ns with
  | nil =>
    cases h
    rw [ungroup_importGroup, filterMap_nil, append_nil]
  | cons s rest ih =>
    rw [outlineFrom] at h
    split at h
    · rename_i n hn
      rw [ih h, filterMap_cons, topNode?, hn, map_append, append_assoc]
      simp [(importNode_of_importNode? hn).2]
    · rename_i hnone
      obtain ⟨o, ho, h⟩ := bind_eq_ok.mp h
      obtain ⟨more, hmore, h⟩ := bind_eq_ok.mp h
      cases h
      have htop : (ungroup o.toList).map Node.bare = (topNode? s).toList := by
        rw [topNode?, hnone, Option.none_or]
        obtain ⟨rfl, hs⟩ | ⟨_, kind, _, _, _, _, rfl, hnode, -⟩ := definition_cases ho
        · rw [Option.not_isSome_iff_eq_none.mp (ne_true_of_eq_false hs)]
          rfl
        · rw [hnode, ungroup]
          rcases kind_of_node? hnode with hkind | hkind | hkind <;> cases hkind <;> rfl
      have hrest := ih hmore
      rw [map_nil, nil_append] at hrest
      rw [ungroup_append, ungroup_append, ungroup_importGroup, map_append, map_append,
        htop, hrest, append_assoc, filterMap_cons]
      cases topNode? s <;> rfl

/-- Imports alone are **one run**. -/
theorem mapM_runNodes_imports {run : List Statement} (h : ∀ s ∈ run, s.isImport = true) :
    ∃ nss, (run.splitBy areImports).mapM runNodes = .ok nss ∧
      nss.flatten = importGroup (run.filterMap importNode?) := by
  cases run with
  | nil => exact ⟨[], rfl, rfl⟩
  | cons s rest =>
    have hchain : (s :: rest).IsChain fun a b => areImports a b = true :=
      (pairwise_of_forall_mem_list fun a ha b hb => by
        simp [areImports, h a ha, h b hb]).isChain
    rw [splitBy_of_isChain (cons_ne_nil s rest) hchain, mapM_cons, mapM_nil,
      runNodes, if_pos (all_eq_true.mpr h), importGroup_filterMap]
    exact ⟨[_], rfl, append_nil _⟩

/-- A statement that is no import is a run **of its own**. -/
theorem runNodes_singleton (h : s.isImport = false) :
    runNodes [s] = Option.toList <$> definition false s := by
  rw [runNodes, all_cons, h, if_neg (by simp), definitions]
  cases definition false s with
  | error why => rfl
  | ok o => exact congrArg Except.ok (append_nil _)

/-- **The groups are the longest runs** of imports, those that are pending among them. -/
theorem outlineFrom_eq {pending : List Statement} (hpending : ∀ s ∈ pending, s.isImport = true)
    (body : List Statement) :
    outlineFrom (pending.filterMap importNode?) body =
      List.flatten <$> ((pending ++ body).splitBy areImports).mapM runNodes := by
  induction body generalizing pending with
  | nil =>
    obtain ⟨nss, hnss, hflatten⟩ := mapM_runNodes_imports hpending
    rw [outlineFrom, append_nil, hnss, ← hflatten]
    rfl
  | cons s rest ih =>
    rw [outlineFrom]
    split
    · rename_i n hn
      have hs : s.isImport = true := by rw [isImport, hn]; rfl
      have hmore := ih (forall_mem_append.mpr ⟨hpending, forall_mem_singleton.mpr hs⟩)
      rw [append_assoc, filterMap_append, filterMap_cons, hn] at hmore
      exact hmore
    · rename_i hnone
      have hs : s.isImport = false := by rw [isImport, hnone]; rfl
      have hcut : (s :: rest).splitBy areImports = [s] :: rest.splitBy areImports :=
        splitBy_append (l := [s]) (by simp [areImports, hs])
      have hrest := ih (forall_mem_nil _)
      rw [filterMap_nil, nil_append] at hrest
      obtain ⟨nss, hnss, hflatten⟩ := mapM_runNodes_imports hpending
      rw [splitBy_append_cons _ fun a _ => by simp [areImports, hs], hcut, mapM_append,
        hnss, mapM_cons, runNodes_singleton hs, hrest, ← hflatten]
      cases definition false s with
      | error why => rfl
      | ok o =>
        cases (rest.splitBy areImports).mapM runNodes with
        | error why => rfl
        | ok more => exact congrArg Except.ok (by simp)

/-- **Imports are grouped in runs.** The outline of a module is made of the nodes of its runs: the
longest runs of imports, and single other statements. It can be made exactly if all of these can.
With imports in place of their groups, it has one node for each import, class and function at the
top, in order. -/
theorem imports_are_grouped_in_runs (body : List Statement) :
    outlineOf body = List.flatten <$> (body.splitBy areImports).mapM runNodes ∧
      ∀ ns, outlineOf body = .ok ns → (ungroup ns).map Node.bare = body.filterMap topNode? :=
  ⟨outlineFrom_eq (forall_mem_nil _) body, fun _ h => ungroup_outlineFrom h⟩

/-- Imports before and after a statement without a node, and at the end. -/
def scatteredImports : List Statement :=
  [.importModules ⟨1, 1⟩ [⟨"a", none⟩], .importModules ⟨2, 3⟩ [⟨"b", none⟩], .other,
   .importModules ⟨5, 5⟩ [⟨"c", none⟩], .classDef ⟨6, 7⟩ ⟨"Imports", []⟩ [.other],
   .importModules ⟨8, 8⟩ [⟨"d", none⟩]]

/-- A module with several runs. -/
theorem scattered_imports_are_grouped : ∃ ns, outlineOf scatteredImports = .ok ns ∧
    ns.map (fun n => (n.kind, n.first, n.last)) = [(.importGroup, 1, 3), (.importGroup, 5, 5),
      (.classDecl, 6, 7), (.importGroup, 8, 8)] ∧
    (ungroup ns).map Node.bare = scatteredImports.filterMap topNode? :=
  ⟨_, rfl, rfl, (imports_are_grouped_in_runs scatteredImports).2 _ rfl⟩

end DocTree.Python
