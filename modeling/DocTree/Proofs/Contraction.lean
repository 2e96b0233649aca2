import DocTree.Code.SyntaxTree
import DocTree.Proofs.Lineages
import Mathlib.Data.List.SplitBy

/-!
# Contraction of syntax trees

The outline of a syntax tree leaves out the trees whose types are not kept: what lies below one goes
to the nearest kept tree above it. Runs of includes at the top become groups of imports.
-/

namespace DocTree.Code

open List

namespace SyntaxTree

/-- The type of a tree. -/
def type : SyntaxTree → String
  | .mk type _ _ _ _ _ => type

mutual

/-- The **lineages** of a tree and of the trees below it, where `above` are the trees above it, the
nearest first. -/
def lineages (above : List SyntaxTree) : SyntaxTree → List (List SyntaxTree)
  | .mk type first last text children fields =>
    (.mk type first last text children fields :: above) ::
      lineagesAll (.mk type first last text children fields :: above) children

/-- The lineages of several trees and of the trees below them. -/
def lineagesAll (above : List SyntaxTree) : List SyntaxTree → List (List SyntaxTree)
  | [] => []
  | t :: rest => lineages above t ++ lineagesAll above rest

end

/-- Whether a tree is a function. -/
def isFunction (t : SyntaxTree) : Bool :=
  t.type = "function_definition" || t.type = "template_function"

/-- Whether a tree is a class or structure. -/
def isRecord (t : SyntaxTree) : Bool := t.type = "class_specifier" || t.type = "struct_specifier"

/-- Whether a tree is **kept**. -/
def isKept (t : SyntaxTree) : Bool := (kindOf? none t.type).isSome

/-- The **kind** of a tree that is kept. A function below a class or structure is a method. -/
def kindBelow (parent : Option SyntaxTree) (t : SyntaxTree) : Kind :=
  if t.isFunction && parent.any isRecord then .methodDecl
  else (kindOf? none t.type).getD .includeLine

/-- The node of a tree that is kept, without the nodes below it. -/
def nodeBelow (parent : Option SyntaxTree) : SyntaxTree → Node
  | .mk type first last text children fields =>
    let kind := kindBelow parent (.mk type first last text children fields)
    .mk (titleOf kind text fields) kind (first + 1) (last + 1) [] []

end SyntaxTree

/-- A node, which is an import if it is an include. -/
def asImport (n : Node) : Node := if n.kind = .includeLine then includeAsImport n else n

namespace SyntaxTree

/-- A node with some trees above it. Includes that have none are imports. -/
def placed (above : List SyntaxTree) (n : Node) : Node := if above.isEmpty then asImport n else n

/-- The nodes of a lineage of trees that are kept. -/
def nodesOf : List SyntaxTree → List Node
  | [] => []
  | t :: above => placed above (t.nodeBelow above.head?) :: nodesOf above

/-- The kind of the nearest of the trees above. -/
def kindAbove : List SyntaxTree → Option Kind
  | [] => none
  | t :: above => some (t.kindBelow above.head?)

/-- The lineages of trees that are kept, without the trees that are not. -/
def keptLineages (ls : List (List SyntaxTree)) : List (List SyntaxTree) :=
  (ls.filter fun l => l.head?.any isKept).map (List.filter isKept)

/-- Classes and structures are known by their kinds. -/
theorem kindBelow_eq_iff (parent : Option SyntaxTree) (t : SyntaxTree) :
    (t.kindBelow parent = .classDecl ∨ t.kindBelow parent = .structDecl) ↔ t.isRecord := by
  simp only [kindBelow, kindOf?, isFunction, isRecord]
  grind

/-- The kind of a kept tree. -/
theorem kindOf?_kindAbove (above : List SyntaxTree) (t : SyntaxTree) :
    kindOf? (kindAbove above) t.type =
      if t.isKept then some (t.kindBelow above.head?) else none := by
  have hrecord : (decide (kindAbove above = some .classDecl) ||
      decide (kindAbove above = some .structDecl)) = above.head?.any isRecord := by
    cases above with
    | nil => rfl
    | cons p rest =>
      rw [Bool.eq_iff_iff]
      simpa [kindAbove] using kindBelow_eq_iff rest.head? p
  simp only [kindOf?, hrecord, isKept, kindBelow, isFunction]
  split_ifs <;> simp_all

/-- Nodes below a node do not change with its place. -/
theorem lineages_placed (ns : List Node) (above : List SyntaxTree) (n : Node) :
    Code.lineages ns (placed above n) =
      (placed above n.alone :: ns) :: lineagesOf (placed above n.alone :: ns) n.children := by
  obtain ⟨title, kind, first, last, details, children⟩ := n
  by_cases hroot : above.isEmpty <;> by_cases hkind : kind = .includeLine <;>
    simp only [placed, asImport, Node.alone, Node.kind, hroot, hkind, if_pos] <;>
    exact lineages_eq_cons _ _

/-- What is kept of one lineage. -/
theorem keptLineages_cons (t : SyntaxTree) (above : List SyntaxTree)
    (ls : List (List SyntaxTree)) :
    keptLineages ((t :: above) :: ls) =
      (if t.isKept then [t :: above.filter isKept] else []) ++ keptLineages ls := by
  cases h : t.isKept <;> simp [keptLineages, h]

mutual

/-- **What is kept of a tree** has its lineages, without the trees that are not kept. -/
theorem lineagesOf_contract (above : List SyntaxTree) : ∀ t : SyntaxTree,
    lineagesOf (nodesOf (above.filter isKept))
        ((t.contract (kindAbove (above.filter isKept))).map (placed (above.filter isKept))) =
      (keptLineages (t.lineages above)).map nodesOf
  | .mk type first last text children fields => by
    have hbelow := lineagesOf_contractAll
      (.mk type first last text children fields :: above) children
    have hkind := kindOf?_kindAbove (above.filter isKept)
      (.mk type first last text children fields)
    rw [SyntaxTree.type] at hkind
    rw [contract, hkind, lineages, keptLineages_cons]
    cases hkept : (mk type first last text children fields).isKept with
    | true =>
      -- what is below a tree that is kept has it above, and so no include there is an import
      have hsame : placed (mk type first last text children fields :: above.filter isKept) = id :=
        rfl
      rw [filter_cons_of_pos hkept, nodesOf, kindAbove, hsame, map_id] at hbelow
      rw [if_pos rfl, if_pos rfl, map_append, map_singleton, ← hbelow, map_singleton,
        lineagesOf, lineagesOf, append_nil, lineages_placed, nodesOf]
      rfl
    | false =>
      rw [filter_cons_of_neg (by simp [hkept])] at hbelow
      exact hbelow

/-- Trees are contracted one by one. -/
theorem lineagesOf_contractAll (above : List SyntaxTree) : ∀ ts : List SyntaxTree,
    lineagesOf (nodesOf (above.filter isKept))
        ((contractAll (kindAbove (above.filter isKept)) ts).map (placed (above.filter isKept))) =
      (keptLineages (lineagesAll above ts)).map nodesOf
  | [] => rfl
  | t :: rest => by
    rw [contractAll, lineagesAll, map_append, lineagesOf_eq_flatMap, flatMap_append,
      ← lineagesOf_eq_flatMap, ← lineagesOf_eq_flatMap, lineagesOf_contract above t,
      lineagesOf_contractAll above rest]
    simp only [keptLineages, filter_append, map_append]

end

end SyntaxTree

/-! ### Groups -/

/-- Nodes with the imports of groups **in place of** the groups. -/
def ungroup (ns : List Node) : List Node :=
  ns.flatMap fun n => if n.kind = .importGroup then n.children else [n]

/-- Whether two nodes are both imports. -/
def areImports (a b : Node) : Bool := a.kind = .importLine && b.kind = .importLine

/-- A run of imports as a **group**, from its first to its last line. Other nodes are as they are.
-/
def groupRun : List Node → List Node
  | [] => []
  | n :: rest =>
    if n.kind = .importLine then
      [.mk "Imports" .importGroup n.first ((n :: rest).getLast (cons_ne_nil n rest)).last []
        (n :: rest)]
    else n :: rest

/-- Nodes among which there are neither imports nor groups. -/
def AreRaw (ns : List Node) : Prop := ∀ n ∈ ns, n.kind ≠ .importLine ∧ n.kind ≠ .importGroup

/-- A group is opened again. -/
theorem ungroup_importGroup (run : List Node) : ungroup (importGroup run) = run := by
  cases run <;> simp [importGroup, ungroup, Node.kind, Node.children]

/-- Groups of two parts. -/
theorem ungroup_append (as bs : List Node) : ungroup (as ++ bs) = ungroup as ++ ungroup bs :=
  flatMap_append

/-- A run of imports is grouped. -/
theorem importGroup_eq_groupRun {run : List Node} (h : ∀ n ∈ run, n.kind = .importLine) :
    importGroup run = groupRun run := by
  cases run with
  | nil => rfl
  | cons n rest =>
    rw [groupRun, if_pos (h n (.head _)), importGroup]
    cases rest using List.reverseRecOn <;> simp

/-- One group is one run. -/
theorem importGroup_eq {run : List Node} (h : ∀ n ∈ run, n.kind = .importLine) :
    importGroup run = (run.splitBy areImports).flatMap groupRun := by
  rw [importGroup_eq_groupRun h]
  cases run with
  | nil => rfl
  | cons n rest =>
    have hchain : (n :: rest).IsChain fun a b => areImports a b = true :=
      (pairwise_of_forall_mem_list fun a ha b hb => by
        simp [areImports, h a ha, h b hb]).isChain
    rw [splitBy_of_isChain (cons_ne_nil n rest) hchain, flatMap_singleton]

/-- **In place of the groups** are all nodes, where includes are imports. -/
theorem ungroup_groupIncludes {ns : List Node} (h : AreRaw ns) (run : List Node) :
    ungroup (groupIncludes run ns) = run ++ ns.map asImport := by
  induction ns generalizing run with
  | nil => rw [groupIncludes, ungroup_importGroup, map_nil, append_nil]
  | cons n rest ih =>
    obtain ⟨⟨-, hgroup⟩, hrest⟩ := forall_mem_cons.mp h
    rw [groupIncludes, map_cons, asImport]
    split
    · rw [ih hrest, append_assoc, singleton_append]
    · have hrest := ih hrest []
      have hrun := ungroup_importGroup run
      simp only [ungroup, flatMap_append, flatMap_cons, if_neg hgroup] at hrest hrun ⊢
      rw [hrest, hrun]
      rfl

/-- **The groups are the longest runs** of imports. -/
theorem groupIncludes_eq {ns : List Node} (h : AreRaw ns) {run : List Node}
    (hrun : ∀ n ∈ run, n.kind = .importLine) :
    groupIncludes run ns = ((run ++ ns.map asImport).splitBy areImports).flatMap groupRun := by
  induction ns generalizing run with
  | nil => rw [groupIncludes, map_nil, append_nil, importGroup_eq hrun]
  | cons n rest ih =>
    obtain ⟨⟨himport, -⟩, hrest⟩ := forall_mem_cons.mp h
    rw [groupIncludes, map_cons, asImport]
    split
    · have himport : (includeAsImport n).kind = .importLine := by cases n; rfl
      rw [ih hrest (forall_mem_append.mpr ⟨hrun, forall_mem_singleton.mpr himport⟩),
        append_assoc, singleton_append]
    · have hleft : ∀ a, areImports a n = false := fun a => by simp [areImports, himport]
      have hright : ∀ b, areImports n b = false := fun b => by simp [areImports, himport]
      have hcut : (n :: rest.map asImport).splitBy areImports =
          [n] :: (rest.map asImport).splitBy areImports :=
        splitBy_append (l := [n]) (by simp [hright])
      rw [splitBy_append_cons _ fun a _ => hleft a, hcut, flatMap_append,
        flatMap_cons, ← importGroup_eq hrun, groupRun, if_neg himport,
        ih hrest (forall_mem_nil _)]
      rfl

/-! ### Outlines -/

namespace SyntaxTree

/-- Kept trees are no imports. -/
theorem ne_of_kindOf? {above : Option Kind} {type : String} {kind : Kind}
    (h : kindOf? above type = some kind) : kind ≠ .importLine ∧ kind ≠ .importGroup := by
  unfold kindOf? at h
  split_ifs at h <;> cases h <;> decide

mutual

/-- Contraction makes no groups. -/
theorem areRaw_contract (above : Option Kind) : ∀ t : SyntaxTree, AreRaw (t.contract above)
  | .mk type first last text children fields => by
    rw [contract]
    split
    · rename_i kind hkind
      exact forall_mem_singleton.mpr (ne_of_kindOf? hkind)
    · exact areRaw_contractAll above children

/-- Nor does that of several trees. -/
theorem areRaw_contractAll (above : Option Kind) : ∀ ts : List SyntaxTree,
    AreRaw (contractAll above ts)
  | [] => forall_mem_nil _
  | t :: rest =>
    forall_mem_append.mpr ⟨areRaw_contract above t, areRaw_contractAll above rest⟩

end

/-- **An outline is the contraction of a tree.** With the imports of groups in place of the groups,
it has one node for each kept tree, in preorder, below the nodes of the kept trees above it. The
groups are the longest runs of imports, from the first to the last line of them. -/
theorem outline_contracts_tree (tree : SyntaxTree) (isPlain : Bool) (session : Session) :
    ∃ nodes, ((nativeOutline [some tree] (.str (if isPlain then "c" else "cpp"))).execute
        session {}).1 = .ok nodes ∧
      lineagesOf [] (ungroup nodes) = (keptLineages (tree.lineages [])).map nodesOf ∧
      nodes = ((ungroup nodes).splitBy areImports).flatMap groupRun := by
  have hraw := areRaw_contract none tree
  have hungroup : ungroup tree.outline = (tree.contract none).map asImport :=
    ungroup_groupIncludes hraw []
  refine ⟨tree.outline, ?_, ?_, ?_⟩
  · cases isPlain <;> rfl
  · rw [hungroup]
    exact lineagesOf_contract [] tree
  · rw [hungroup]
    exact groupIncludes_eq hraw (forall_mem_nil _)

end SyntaxTree

end DocTree.Code
