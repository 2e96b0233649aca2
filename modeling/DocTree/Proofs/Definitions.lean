import DocTree.Code.PythonOutline
import DocTree.Proofs.Lineages
import DocTree.Proofs.Run

/-!
# Definitions in Python modules

A statement has a **lineage**: the statements around it, through bodies and blocks. The outline has
a node for each definition around which there are only definitions.
-/

namespace DocTree

open List

/-- A node without its details and without the nodes below it. -/
def Code.Node.bare : Code.Node → Code.Node
  | .mk title kind first last _ _ => .mk title kind first last [] []

def Code.detailKeys : List String := ["signature", "docstring", "decorators"]

namespace Python

open Code

namespace Statement

/-! ### Statements in statements -/

/-- The statements in the **body** of a definition, or in the blocks of another statement. -/
def body : Statement → List Statement
  | .functionDef _ _ body => body
  | .classDef _ _ body => body
  | .compound body => body
  | _ => []

def isClass : Statement → Bool
  | .classDef _ _ _ => true
  | _ => false

/-- The bare **node** of a definition. A function in the body of a class is a method. -/
def node? (inClass : Bool) : Statement → Option Node
  | .classDef lines head _ => some (.mk head.name .classDecl lines.first lines.last [] [])
  | .functionDef lines head _ =>
    some (.mk (head.name ++ "()") (if inClass then .methodDecl else .functionDecl) lines.first
      lines.last [] [])
  | _ => none

def isDefinition (s : Statement) : Bool := (s.node? false).isSome

mutual

/-- **Induction on the statements in a statement.** -/
theorem body_induction {motive : Statement → Prop}
    (step : ∀ s, (∀ c ∈ s.body, motive c) → motive s) : ∀ s, motive s
  | .functionDef _ _ body => step _ (bodies_induction step body)
  | .classDef _ _ body => step _ (bodies_induction step body)
  | .compound body => step _ (bodies_induction step body)
  | .importModules _ _ => step _ (forall_mem_nil _)
  | .importFrom _ _ _ _ => step _ (forall_mem_nil _)
  | .expression _ => step _ (forall_mem_nil _)
  | .other => step _ (forall_mem_nil _)

/-- **Induction on statements** through their bodies. -/
theorem bodies_induction {motive : Statement → Prop}
    (step : ∀ s, (∀ c ∈ s.body, motive c) → motive s) : ∀ ss : List Statement, ∀ c ∈ ss, motive c
  | [] => forall_mem_nil _
  | s :: rest =>
    forall_mem_cons.mpr ⟨body_induction step s, bodies_induction step rest⟩

end

mutual

/-- The **lineages** of a statement and of the statements in it, where `above` are the statements
around it, the nearest first. -/
def lineages (above : List Statement) : Statement → List (List Statement)
  | .functionDef lines head body =>
    (.functionDef lines head body :: above) ::
      lineagesAll (.functionDef lines head body :: above) body
  | .classDef lines head body =>
    (.classDef lines head body :: above) :: lineagesAll (.classDef lines head body :: above) body
  | .compound body => (.compound body :: above) :: lineagesAll (.compound body :: above) body
  | s => [s :: above]

/-- The lineages of several statements and of the statements in them. -/
def lineagesAll (above : List Statement) : List Statement → List (List Statement)
  | [] => []
  | s :: rest => lineages above s ++ lineagesAll above rest

end

/-- A statement comes before those in its body. -/
theorem lineages_eq (above : List Statement) (s : Statement) :
    lineages above s = (s :: above) :: lineagesAll (s :: above) s.body := by
  cases s <;> rfl

/-- Statements one by one. -/
theorem lineagesAll_eq_flatMap (above ss : List Statement) :
    lineagesAll above ss = ss.flatMap (lineages above) := by
  induction ss with
  | nil => rfl
  | cons s rest ih => rw [lineagesAll, ih, flatMap_cons]

/-- What is around a statement is around its body. -/
theorem suffix_of_mem_lineages {above l : List Statement} {s : Statement}
    (h : l ∈ lineages above s) : (s :: above) <:+ l := by
  induction s using body_induction generalizing above with
  | step s ih =>
    rw [lineages_eq, lineagesAll_eq_flatMap] at h
    rcases mem_cons.mp h with rfl | h
    · exact suffix_refl _
    · obtain ⟨c, hc, hl⟩ := mem_flatMap.mp h
      exact (suffix_cons c _).trans (ih c hc hl)

/-- The bare nodes of a lineage of definitions. -/
def nodesOf : List Statement → List Node
  | [] => []
  | s :: above => (s.node? (above.head?.any isClass)).toList ++ nodesOf above

end Statement

open Statement

variable {inClass : Bool} {s : Statement} {body above : List Statement} {ns up : List Node}
  {P : Node → Prop}

/-! ### Nodes of definitions -/

/-- What the **node of a statement** can be. -/
theorem definition_cases {o : Option Node} (h : definition inClass s = .ok o) :
    o = none ∧ s.isDefinition = false ∨
      ∃ title kind first last details children,
        o = some (.mk title kind first last details children) ∧
        s.node? inClass = some (.mk title kind first last [] []) ∧
        details.keys.Sublist detailKeys ∧
        definitions s.isClass s.body = .ok children := by
  cases s with
  | classDef lines head body =>
    rw [definition] at h
    obtain ⟨details, hdetails, h⟩ := bind_eq_ok.mp h
    obtain ⟨children, hchildren, h⟩ := bind_eq_ok.mp h
    obtain ⟨marks, -, hdetails⟩ := bind_eq_ok.mp hdetails
    cases hdetails
    cases h
    exact .inr ⟨_, _, _, _, _, children, rfl, rfl, sublist_cons_self _ _, hchildren⟩
  | functionDef lines head body =>
    rw [definition] at h
    obtain ⟨signature, -, h⟩ := bind_eq_ok.mp h
    obtain ⟨details, hdetails, h⟩ := bind_eq_ok.mp h
    obtain ⟨children, hchildren, h⟩ := bind_eq_ok.mp h
    obtain ⟨marks, -, hdetails⟩ := bind_eq_ok.mp hdetails
    cases hdetails
    cases h
    exact .inr ⟨_, _, _, _, _, children, rfl, rfl, Sublist.refl _, hchildren⟩
  | _ =>
    cases h
    exact .inl ⟨rfl, rfl⟩

/-- Definitions are classes, functions and methods. -/
theorem kind_of_node? {n : Node} (h : s.node? inClass = some n) :
    n.kind = .classDecl ∨ n.kind = .functionDecl ∨ n.kind = .methodDecl := by
  cases s with
  | classDef =>
    cases h
    exact .inl rfl
  | functionDef =>
    cases h
    cases inClass
    · exact .inr (.inl rfl)
    · exact .inr (.inr rfl)
  | _ => cases h

/-- The nodes of several statements, **one statement after the other**. -/
theorem exists_of_definitions (h : definitions inClass body = .ok ns) :
    ∃ os, Forall₂ (fun s o => definition inClass s = .ok o) body os ∧
      ns = os.flatMap Option.toList := by
  induction body generalizing ns with
  | nil =>
    cases h
    exact ⟨[], .nil, rfl⟩
  | cons s rest ih =>
    obtain ⟨o, ho, h⟩ := bind_eq_ok.mp h
    obtain ⟨more, hmore, h⟩ := bind_eq_ok.mp h
    cases h
    obtain ⟨os, hos, rfl⟩ := ih hmore
    exact ⟨o :: os, .cons ho hos, rfl⟩

/-- **Induction on the nodes of definitions.** -/
theorem definition_induction
    (step : ∀ title kind first last details children,
      kind = .classDecl ∨ kind = .functionDecl ∨ kind = .methodDecl →
      details.keys.Sublist detailKeys → (∀ c ∈ children, P c) →
      P (.mk title kind first last details children)) {o : Option Node}
    (h : definition inClass s = .ok o) : ∀ n ∈ o.toList, P n := by
  induction s using body_induction generalizing inClass o with
  | step s ih =>
    obtain ⟨rfl, -⟩ | ⟨_, _, _, _, _, children, rfl, hnode, hdetails, hchildren⟩ :=
      definition_cases h
    · exact forall_mem_nil _
    · refine forall_mem_singleton.mpr (step _ _ _ _ _ _ (kind_of_node? hnode) hdetails ?_)
      intro n hn
      obtain ⟨os, hos, rfl⟩ := exists_of_definitions hchildren
      obtain ⟨o, ho, hn⟩ := mem_flatMap.mp hn
      obtain ⟨c, hc, hco⟩ := Run.exists_left_of_forall₂ hos o ho
      exact ih c hc hco n hn

section

variable
  (hgroup : ∀ run, (∀ n ∈ run, ∃ title first last, n = importNode title first last) →
    ∀ n ∈ importGroup run, P n)
  (hdefinition : ∀ s o, definition false s = .ok o → ∀ n ∈ o.toList, P n)
include hgroup hdefinition

/-- What holds of groups of imports and of definitions holds of **all nodes** of a module. -/
theorem forall_mem_outlineFrom {pending : List Node}
    (hpending : ∀ n ∈ pending, ∃ title first last, n = importNode title first last)
    (h : outlineFrom pending body = .ok ns) : ∀ n ∈ ns, P n := by
  induction body generalizing pending ns with
  | nil =>
    cases h
    exact hgroup pending hpending
  | cons s rest ih =>
    rw [outlineFrom] at h
    split at h
    · rename_i node hnode
      refine ih (forall_mem_append.mpr ⟨hpending, forall_mem_singleton.mpr ?_⟩) h
      cases s <;> cases hnode <;> exact ⟨_, _, _, rfl⟩
    · obtain ⟨o, ho, h⟩ := bind_eq_ok.mp h
      obtain ⟨more, hmore, h⟩ := bind_eq_ok.mp h
      cases h
      exact forall_mem_append.mpr ⟨forall_mem_append.mpr
        ⟨hgroup pending hpending, hdefinition s o ho⟩, ih (forall_mem_nil _) hmore⟩

/-- What holds of all nodes of an outline. -/
theorem forall_mem_outline {source : String}
    (h : outline source = .ok ns) : ∀ n ∈ ns, P n := by
  unfold outline at h
  split at h
  · cases h
    exact forall_mem_nil _
  · split at h
    · exact forall_mem_outlineFrom hgroup hdefinition (forall_mem_nil _) h
    · cases h
      exact forall_mem_nil _

end

/-- Without the groups of imports, the nodes of a module are **those of its definitions**. -/
theorem definitions_of_outlineFrom {pending : List Node} (h : outlineFrom pending body = .ok ns) :
    definitions false body = .ok (ns.filter fun n => n.kind ≠ .importGroup) := by
  have hgroup : ∀ run, (importGroup run).filter (fun n => n.kind ≠ .importGroup) = [] := by
    intro run
    cases run <;> rfl
  induction body generalizing pending ns with
  | nil =>
    cases h
    rw [hgroup]
    rfl
  | cons s rest ih =>
    rw [outlineFrom] at h
    rw [definitions]
    split at h
    · rename_i node hnode
      have hnone : definition false s = .ok none := by
        cases s <;> first | rfl | cases hnode
      rw [hnone, ih h]
      rfl
    · obtain ⟨o, ho, h⟩ := bind_eq_ok.mp h
      obtain ⟨more, hmore, h⟩ := bind_eq_ok.mp h
      cases h
      have hkept : o.toList.filter (fun n => n.kind ≠ .importGroup) = o.toList := by
        obtain ⟨rfl, -⟩ | ⟨_, kind, _, _, _, _, rfl, hnode, -⟩ := definition_cases ho
        · rfl
        · have := kind_of_node? hnode
          refine filter_eq_self.mpr (forall_mem_singleton.mpr ?_)
          change decide (kind ≠ .importGroup) = true
          grind [Node.kind]
      rw [ho, ih hmore, filter_append, filter_append, hgroup, hkept]
      rfl

/-! ### Lineages of nodes -/

/-- The nodes of a body. -/
theorem lineagesOf_flatMap {os : List (Option Node)}
    (hos : Forall₂ (fun s o => (lineagesOf up o.toList).map (List.map Node.bare) =
      ((s.lineages above).filter (List.all · isDefinition)).map nodesOf) body os) :
    (lineagesOf up (os.flatMap Option.toList)).map (List.map Node.bare) =
      ((lineagesAll above body).filter (List.all · isDefinition)).map nodesOf := by
  induction hos with
  | nil => rfl
  | @cons s o rest os hs _ ih =>
    rw [flatMap_cons, lineagesOf_eq_flatMap, flatMap_append, ← lineagesOf_eq_flatMap,
      ← lineagesOf_eq_flatMap, lineagesAll, map_append, filter_append, map_append,
      hs, ih]

/-- **The node of a definition** lies below those around it, and above those right in its body. -/
theorem lineagesOf_definition (habove : above.all isDefinition = true)
    (hup : up.map Node.bare = nodesOf above) {o : Option Node}
    (h : definition (above.head?.any isClass) s = .ok o) :
    (lineagesOf up o.toList).map (List.map Node.bare) =
      ((s.lineages above).filter (List.all · isDefinition)).map nodesOf := by
  induction s using body_induction generalizing above up o with
  | step s ih =>
    obtain ⟨rfl, hs⟩ | ⟨title, kind, first, last, details, children, rfl, hnode, -, hchildren⟩ :=
      definition_cases h
    · -- whatever is in a block has the block around it
      have hnone : (s.lineages above).filter (List.all · isDefinition) = [] := by
        refine filter_eq_nil_iff.mpr fun l hl hall => ?_
        have hmem := (suffix_of_mem_lineages hl).subset (.head _)
        rw [all_eq_true.mp hall s hmem] at hs
        cases hs
      rw [hnone]
      rfl
    · have hs : s.isDefinition = true := by
        cases s <;> first | rfl | cases hnode
      have hall : (s :: above).all isDefinition = true := by
        rw [all_cons, hs, habove]
        rfl
      have hnodes : (Node.mk title kind first last details [] :: up).map Node.bare =
          nodesOf (s :: above) := by
        rw [map_cons, hup, nodesOf, hnode]
        rfl
      obtain ⟨os, hos, rfl⟩ := exists_of_definitions hchildren
      have hbelow := lineagesOf_flatMap (forall₂_imp_of_mem hos fun c hc o ho =>
        ih c hc hall hnodes ho)
      rw [lineages_eq, filter_cons, if_pos hall, map_cons, ← hbelow, ← hnodes,
        Option.toList_some, lineagesOf, lineagesOf, append_nil, Code.lineages, map_cons]

/-! ### Modules -/

/-- The **definitions that an outline shows**, each with those above it, as bare nodes. -/
def shownDefinitions (ns : List Node) : List (List Node) :=
  (lineagesOf [] (ns.filter fun n => n.kind ≠ .importGroup)).map (List.map Node.bare)

/-- The lineages of definitions, each right below the **nearest** definition around it. -/
def definitionLineages (ls : List (List Statement)) : List (List Statement) :=
  (ls.filter fun l => l.head?.any isDefinition).map (List.filter isDefinition)

/-- Where all are definitions, so is the first. -/
theorem isDefinition_head? {l : List Statement} (hl : l ∈ lineagesAll [] body)
    (hall : l.all isDefinition = true) : l.head?.any isDefinition = true := by
  rw [lineagesAll_eq_flatMap] at hl
  obtain ⟨s, -, hl⟩ := mem_flatMap.mp hl
  cases l with
  | nil => cases (suffix_of_mem_lineages hl).subset (.head _)
  | cons d around => exact all_eq_true.mp hall d (.head _)

/-- What is shown has only definitions around. -/
theorem shownDefinitions_eq (h : outlineOf body = .ok ns) :
    shownDefinitions ns =
      ((lineagesAll [] body).filter (List.all · isDefinition)).map nodesOf := by
  obtain ⟨os, hos, hns⟩ := exists_of_definitions (definitions_of_outlineFrom h)
  rw [shownDefinitions, hns]
  exact lineagesOf_flatMap (hos.imp fun s o ho => lineagesOf_definition rfl rfl ho)

/-- Lineages of definitions only are **all of them** if no other statement is around one. -/
theorem map_filter_all_eq_iff (body : List Statement) :
    ((lineagesAll [] body).filter (List.all · isDefinition)).map nodesOf =
        (definitionLineages (lineagesAll [] body)).map nodesOf ↔
      ∀ l ∈ lineagesAll [] body, l.head?.any isDefinition = true → l.all isDefinition = true := by
  rw [definitionLineages]
  constructor
  · intro heq l hl hhead
    -- as many lineages are left, so none is lost
    have hsub : ((lineagesAll [] body).filter (List.all · isDefinition)).Sublist
        ((lineagesAll [] body).filter fun l => l.head?.any isDefinition) := by
      have htwice : (lineagesAll [] body).filter (List.all · isDefinition) =
          ((lineagesAll [] body).filter fun l => l.head?.any isDefinition).filter
            (List.all · isDefinition) := by
        rw [filter_filter]
        refine filter_congr fun l hl => ?_
        cases hall : l.all isDefinition with
        | false => rfl
        | true => rw [isDefinition_head? hl hall, Bool.and_self]
      exact htwice ▸ filter_sublist
    have hlength := congrArg List.length heq
    rw [length_map, length_map, length_map] at hlength
    have hmem : l ∈ (lineagesAll [] body).filter fun l => l.head?.any isDefinition :=
      mem_filter.mpr ⟨hl, hhead⟩
    rw [← hsub.eq_of_length hlength] at hmem
    exact (mem_filter.mp hmem).2
  · intro hall
    have hsame : ((lineagesAll [] body).filter fun l => l.head?.any isDefinition) =
        (lineagesAll [] body).filter (List.all · isDefinition) := by
      refine filter_congr fun l hl => Bool.eq_iff_iff.mpr ?_
      exact ⟨hall l hl, isDefinition_head? hl⟩
    have hid : ∀ l ∈ (lineagesAll [] body).filter (List.all · isDefinition),
        List.filter isDefinition l = l := fun l hl =>
      filter_eq_self.mpr (all_eq_true.mp (mem_filter.mp hl).2)
    rw [hsame, map_congr_left hid, map_id']

/-- **Definitions in blocks are missed.** An outline shows the definitions around which there are
definitions only, once, in order and below those around them. So it shows all of them exactly if
none stands in a block. -/
theorem blocks_hide_definitions (h : outlineOf body = .ok ns) :
    shownDefinitions ns =
        ((lineagesAll [] body).filter (List.all · isDefinition)).map nodesOf ∧
      (shownDefinitions ns = (definitionLineages (lineagesAll [] body)).map nodesOf ↔
        ∀ l ∈ lineagesAll [] body, l.head?.any isDefinition = true →
          l.all isDefinition = true) := by
  have hshown := shownDefinitions_eq h
  exact ⟨hshown, hshown ▸ map_filter_all_eq_iff body⟩

/-- A function without parameters. -/
def plainHead (name : String) : FunctionHead where
  concurrent := false
  name := name
  parameters := .mk [] [] [] none [] none
  result := none
  decorators := []

/-- A class with a method, and a function in a block. -/
def guardedModule : List Statement :=
  [.classDef ⟨1, 3⟩ ⟨"Shelf", []⟩ [.functionDef ⟨2, 3⟩ (plainHead "size") [.other]],
   .compound [.functionDef ⟨5, 6⟩ (plainHead "main") [.other]]]

/-- A module with a block. -/
theorem guarded_module_shows_class : ∃ ns, outlineOf guardedModule = .ok ns ∧
    shownDefinitions ns =
      ((lineagesAll [] guardedModule).filter (List.all · isDefinition)).map nodesOf :=
  ⟨_, rfl, (blocks_hide_definitions rfl).1⟩

/-- The function in the block is **not shown**. -/
theorem function_in_block_is_hidden : ∃ ns, outlineOf guardedModule = .ok ns ∧
    (shownDefinitions ns).length = 2 ∧
    (definitionLineages (lineagesAll [] guardedModule)).length = 3 ∧
    shownDefinitions ns ≠ (definitionLineages (lineagesAll [] guardedModule)).map nodesOf :=
  ⟨_, rfl, rfl, rfl, fun h => absurd (congrArg List.length h) (by decide)⟩

end Python

end DocTree
