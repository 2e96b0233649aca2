import DocTree.Code.Index
import DocTree.Proofs.Definitions
import DocTree.Proofs.Parallel

/-!
# Trees of source files

The nodes of all outlines have the same form, with at most a signature, a description and decorators
besides title, kind, lines and children. So the tree of a source file has distinct and known keys,
and texts can be added to it.
-/

namespace DocTree.Code

open Outline Run List

variable {clipped : Bool} {fs : Fields} {l l' : Ledger} {lines : List String}
  {session : Session} {path source text : String} {around : Surroundings} {v : Value}
  {ns : List Node} {t : Kotlin.Tracker} {language : Language}

/-! ### Nodes of outlines -/

/-- A node of an outline is **regular**: it and the nodes below it have no other details than those
that there are keys for. -/
inductive Node.Regular : Node → Prop
  | mk {title : String} {kind : Kind} {first last : Int} {details : Fields} {children : List Node}
      (hdetails : details.keys.Sublist detailKeys)
      (hchildren : ∀ c ∈ children, Regular c) : Regular (.mk title kind first last details children)

def AllRegular (ns : List Node) : Prop := ∀ n ∈ ns, n.Regular

/-- No node is irregular. -/
theorem allRegular_nil : AllRegular [] := forall_mem_nil _

/-- Regular nodes of two parts. -/
theorem AllRegular.append {ms ns : List Node} (hms : AllRegular ms) (hns : AllRegular ns) :
    AllRegular (ms ++ ns) :=
  forall_mem_append.mpr ⟨hms, hns⟩

/-- One regular node. -/
theorem allRegular_singleton {n : Node} (h : n.Regular) : AllRegular [n] :=
  forall_mem_singleton.mpr h

/-- Nodes of imports are regular. -/
theorem regular_importNode (title : String) (first last : Int) :
    (importNode title first last).Regular :=
  .mk (nil_sublist _) allRegular_nil

/-- Groups of imports are regular. -/
theorem allRegular_importGroup (h : AllRegular ns) :
    AllRegular (importGroup ns) := by
  cases ns with
  | nil => exact allRegular_nil
  | cons n rest => exact allRegular_singleton (.mk (nil_sublist _) h)

/-! ### Languages -/

mutual

/-- Java declarations have regular nodes. -/
theorem regular_memberNode : ∀ d : Java.Declaration, AllRegular (Java.memberNode d)
  | .type .enumType name about members => by
    rw [Java.memberNode]
    exact allRegular_singleton (.mk (sublist_cons_self _ _) allRegular_nil)
  | .type .classType name about members => by
    rw [Java.memberNode]
    · exact allRegular_singleton (.mk (sublist_cons_self _ _) (regular_memberNodes members))
    · rintro ⟨⟩
  | .type .interfaceType name about members => by
    rw [Java.memberNode]
    · exact allRegular_singleton (.mk (sublist_cons_self _ _) (regular_memberNodes members))
    · rintro ⟨⟩
  | .method m about => by
    rw [Java.memberNode]
    exact allRegular_singleton (.mk (Sublist.refl _) allRegular_nil)
  | .other => by
    rw [Java.memberNode]
    exact allRegular_nil

/-- So do all declarations of a body. -/
theorem regular_memberNodes : ∀ ds : List Java.Declaration, AllRegular (Java.memberNodes ds)
  | [] => by
    rw [Java.memberNodes]
    exact allRegular_nil
  | d :: rest => by
    rw [Java.memberNodes]
    exact (regular_memberNode d).append (regular_memberNodes rest)

end

/-- Java outlines are regular. -/
theorem regular_javaOutline {read : Java.Reader} (h : Java.outline read source = .ok ns) :
    AllRegular ns := by
  unfold Java.outline at h
  split at h
  · cases h
    refine (allRegular_importGroup fun n hn => ?_).append (regular_memberNodes _)
    obtain ⟨i, -, rfl⟩ := mem_map.mp hn
    exact regular_importNode _ _ _
  · cases h
    exact allRegular_nil
  · cases h

/-- What is known after some lines is regular: the imports and the entries are. -/
structure TrackerRegular (t : Kotlin.Tracker) : Prop where
  imports : AllRegular t.imports
  entries : ∀ e ∈ t.entries, e.2.Regular

/-- Flushing imports keeps entries regular. -/
theorem TrackerRegular.flush (h : TrackerRegular t) :
    TrackerRegular t.flush where
  imports := allRegular_nil
  entries := by
    refine forall_mem_append.mpr ⟨h.entries, fun e he => ?_⟩
    obtain ⟨n, hn, rfl⟩ := mem_map.mp he
    exact allRegular_importGroup h.imports n hn

/-- Closing scopes keeps entries regular. -/
theorem regular_closeAt {line : Nat} {balance : Int} {scopes : List Kotlin.Scope}
    {entries : List (Option Nat × Node)} (h : ∀ e ∈ entries, e.2.Regular) :
    ∀ e ∈ (Kotlin.Tracker.closeAt line balance scopes entries).2, e.2.Regular := by
  induction scopes generalizing entries with
  | nil => exact h
  | cons s rest ih =>
    rw [Kotlin.Tracker.closeAt]
    split
    · refine ih fun e he => ?_
      obtain ⟨i, hi⟩ := mem_iff_getElem?.mp he
      rw [getElem?_modify] at hi
      obtain ⟨e', he', rfl⟩ := Option.map_eq_some_iff.mp hi
      have hregular := h e' (mem_of_getElem? he')
      split
      · obtain ⟨parent, title, kind, first, last, details, children⟩ := e'
        cases hregular with
        | mk hdetails hchildren => exact .mk hdetails hchildren
      · exact hregular
    · exact h

/-- What one more **line** changes stays regular. -/
theorem TrackerRegular.step (h : TrackerRegular t) (line : Nat) (l : Kotlin.Line) :
    TrackerRegular (t.step line l) := by
  have hsettle : ∀ {t : Kotlin.Tracker} {change : Int}, TrackerRegular t →
      TrackerRegular (t.settle line change) := fun h => ⟨h.imports, regular_closeAt h.entries⟩
  cases l with
  | imports text =>
    exact ⟨h.imports.append (allRegular_singleton (regular_importNode _ _ _)), h.entries⟩
  | code change hasBrace head endsImports =>
    have hflushed : TrackerRegular (if endsImports then t.flush else t) := by
      split
      · exact h.flush
      · exact h
    have hsettled := @hsettle _ change hflushed
    cases head with
    | none => exact hsettled
    | some head =>
      refine ⟨hsettled.imports, forall_mem_append.mpr ⟨hsettled.entries, ?_⟩⟩
      refine forall_mem_singleton.mpr ?_
      cases head with
      | type kind name => exact .mk (nil_sublist _) allRegular_nil
      | function name signature =>
        exact .mk (show ["signature"].Sublist detailKeys by decide) allRegular_nil

/-- All lines keep entries regular. -/
theorem TrackerRegular.run (h : TrackerRegular t) (line : Nat) (lines : List Kotlin.Line) :
    TrackerRegular (t.run line lines) := by
  induction lines generalizing t line with
  | nil => exact h
  | cons l rest ih => exact ih (h.step line l) (line + 1)

/-- Kotlin outlines are regular. -/
theorem regular_kotlinOutline (lines : List Kotlin.Line) : AllRegular (Kotlin.outlineOf lines) := by
  have hrun : TrackerRegular (Kotlin.Tracker.run {} 1 lines) :=
    TrackerRegular.run ⟨allRegular_nil, forall_mem_nil _⟩ 1 lines
  intro n hn
  obtain ⟨e, he, rfl⟩ := mem_map.mp hn
  refine forall_mem_assemble (fun e he items hitems => ?_) e he
  obtain ⟨parent, title, kind, first, last, details, children⟩ := e
  cases hrun.entries _ he with
  | mk hdetails hchildren => exact .mk hdetails (AllRegular.append hchildren hitems)

mutual

/-- Contracted trees have regular nodes. -/
theorem regular_contract : ∀ (above : Option Kind) (t : SyntaxTree), AllRegular (t.contract above)
  | above, .mk type first last text children fields => by
    rw [SyntaxTree.contract]
    split
    · exact allRegular_singleton (.mk (nil_sublist _) (regular_contractAll _ children))
    · exact regular_contractAll above children

/-- So have several trees. -/
theorem regular_contractAll :
    ∀ (above : Option Kind) (ts : List SyntaxTree), AllRegular (SyntaxTree.contractAll above ts)
  | above, [] => by
    rw [SyntaxTree.contractAll]
    exact allRegular_nil
  | above, t :: rest => by
    rw [SyntaxTree.contractAll]
    exact (regular_contract above t).append (regular_contractAll above rest)

end

/-- Includes become regular nodes. -/
theorem regular_includeAsImport {n : Node} (h : n.Regular) : (includeAsImport n).Regular := by
  cases h with
  | mk hdetails hchildren => exact .mk hdetails hchildren

/-- Groups of includes are regular. -/
theorem regular_groupIncludes {run ns : List Node} (hrun : AllRegular run) (hns : AllRegular ns) :
    AllRegular (groupIncludes run ns) := by
  induction ns generalizing run with
  | nil => exact allRegular_importGroup hrun
  | cons n rest ih =>
    obtain ⟨hn, hrest⟩ := forall_mem_cons.mp hns
    rw [groupIncludes]
    split
    · exact ih (hrun.append (allRegular_singleton (regular_includeAsImport hn))) hrest
    · exact (allRegular_importGroup hrun).append
        (forall_mem_cons.mpr ⟨hn, ih allRegular_nil hrest⟩)

/-- The next syntax tree is taken. -/
theorem returns_nextTree (trees : List (Option SyntaxTree)) (session : Session) (l : Ledger) :
    (nextTree trees).Returns session l (trees[l.parses]?).join
      { l with parses := l.parses + 1 } := rfl

/-- C or C++. -/
theorem nativeName_eq (path : String) :
    nativeName path = .str "c" ∨ nativeName path = .str "cpp" := by
  unfold nativeName
  dsimp only
  split
  · exact .inl rfl
  · exact .inr rfl

/-- A C or C++ file **always has an outline**, without nodes if there is no tree. -/
theorem exists_nativeOutline (trees : List (Option SyntaxTree)) (path : String)
    (session : Session) (l : Ledger) :
    ∃ ns l', (nativeOutline trees (nativeName path)).Returns session l ns l' ∧
      AllRegular ns ∧ ((trees[l.parses]?).join = none → ns = []) ∧
      l'.parses = l.parses + 1 := by
  have hnext := returns_nextTree trees session l
  unfold nativeOutline
  split
  · cases htree : (trees[l.parses]?).join with
    | none =>
      rw [htree] at hnext
      exact ⟨[], _, hnext.bind (Returns.bind rfl rfl), allRegular_nil, fun _ => rfl, rfl⟩
    | some tree =>
      rw [htree] at hnext
      exact ⟨tree.outline, _, hnext.bind rfl,
        regular_groupIncludes allRegular_nil (regular_contract none tree), nofun, rfl⟩
  · rename_i hname
    exact absurd (by simpa using nativeName_eq path) hname

/-- Python outlines are regular. -/
theorem regular_pythonOutline (h : Python.outline source = .ok ns) :
    AllRegular ns := by
  refine Python.forall_mem_outline (fun run hrun => allRegular_importGroup fun n hn => ?_)
    (fun s o => Python.definition_induction fun _ _ _ _ _ _ _ => .mk) h
  obtain ⟨_, _, _, rfl⟩ := hrun n hn
  exact regular_importNode _ _ _

/-! ### Nodes as values -/

/-- A node of a tree is **declared**: its keys are distinct, and an index has an order for them. -/
structure Declared (fs : Fields) : Prop where
  nodup : fs.keys.Nodup
  known : ∀ key ∈ fs.keys, key ∈ fieldOrder

/-- Only keys matter for a declared node. -/
theorem Declared.of_keys_eq {gs : Fields} (h : Declared fs)
    (hkeys : gs.keys = fs.keys) : Declared gs :=
  ⟨hkeys ▸ h.nodup, hkeys ▸ h.known⟩

/-- A known key may be set. -/
theorem Declared.set (h : Declared fs) {key : String} (hkey : key ∈ fieldOrder) (x : Value) :
    Declared (fs.set key x) := by
  refine ⟨nodup_keys_set h.nodup key x, ?_⟩
  by_cases hmem : key ∈ fs.keys
  · rw [keys_set_of_mem hmem]
    exact h.known
  · rw [keys_set_of_not_mem hmem]
    exact forall_mem_append.mpr ⟨h.known, forall_mem_singleton.mpr hkey⟩

/-- Any key may be erased. -/
theorem Declared.erase (h : Declared fs) (key : String) : Declared (fs.erase key) :=
  ⟨h.nodup.sublist (keys_erase_sublist fs key),
    fun k hk => h.known k ((keys_erase_sublist fs key).subset hk)⟩

/-- The node of a **declaration**: it is declared, and has a kind. -/
structure IsDeclaration (fs : Fields) : Prop where
  declared : Declared fs
  kind : ∃ kind : Kind, fs.get? "type" = some (.str kind.text)

/-- A node that has its **first and last line**. -/
def HasLines (fs : Fields) : Prop :=
  ∃ first last, fs.get? "start_line" = some (.int first) ∧
    fs.get? "end_line" = some (.int last)

abbrev DeclarationTree (v : Value) : Prop := NodeTree IsDeclaration v

/-- Values of nodes, one by one. -/
theorem values_eq_map (ns : List Node) : Node.values ns = ns.map Node.value := by
  induction ns with
  | nil => rfl
  | cons n rest ih => rw [Node.values, ih, map_cons]

/-- The branches of a node as a value are its children. -/
theorem branches_value {title : String} {kind : Kind} {first last : Int} {details : Fields}
    (hdetails : details.keys.Sublist detailKeys) (children : List Node) :
    Branches (Node.ownFields title kind first last details ++
      [("nodes", .list (Node.values children))]) (Node.values children) := by
  have hnone : details.get? "nodes" = none := by
    by_contra hsome
    exact absurd (hdetails.subset (mem_keys_iff.mpr hsome)) (by decide)
  refine .list ?_
  rw [get?_append, Node.ownFields, get?_append, hnone]
  rfl

/-- A regular node as a value is a tree of declarations with lines. -/
theorem nodeTree_value {n : Node} (h : n.Regular) :
    NodeTree (fun fs => IsDeclaration fs ∧ HasLines fs) n.value := by
  induction h with
  | @mk title kind first last details children hdetails _ ih =>
    have hkeys : Fields.keys (Node.ownFields title kind first last details ++
        [("nodes", .list (Node.values children))]) =
        ["title", "type", "start_line", "end_line"] ++ details.keys ++ ["nodes"] := by
      simp [Node.ownFields, Fields.keys]
    have hsublist : (["title", "type", "start_line", "end_line"] ++ details.keys ++
        ["nodes"]).Sublist (["title", "type", "start_line", "end_line"] ++ detailKeys ++
          ["nodes"]) :=
      ((Sublist.refl _).append hdetails).append (Sublist.refl _)
    rw [Node.value]
    refine .node ⟨⟨⟨?_, ?_⟩, kind, rfl⟩, first, last, rfl, rfl⟩ (branches_value hdetails _)
      fun v hv => ?_
    · rw [hkeys]
      exact Nodup.sublist hsublist (by decide)
    · rw [hkeys]
      have hknown : ∀ key ∈ ["title", "type", "start_line", "end_line"] ++ detailKeys ++ ["nodes"],
          key ∈ fieldOrder := by decide
      exact fun key hkey => hknown key (hsublist.subset hkey)
    · rw [values_eq_map] at hv
      obtain ⟨c, hc, rfl⟩ := mem_map.mp hv
      exact ih c hc

/-- Regular nodes have trees of declarations with lines. -/
theorem nodeTree_of_mem_values (h : AllRegular ns) :
    ∀ v ∈ Node.values ns, NodeTree (fun fs => IsDeclaration fs ∧ HasLines fs) v := by
  intro v hv
  rw [values_eq_map] at hv
  obtain ⟨n, hn, rfl⟩ := mem_map.mp hv
  exact nodeTree_value (h n hn)

/-! ### Texts -/

/-- Texts are added tree by tree. -/
theorem addTextList_eq_ok_iff {vs ws : List Value} :
    addTextList clipped lines vs = .ok ws ↔
      Forall₂ (fun v w => addText clipped lines v = .ok w) vs ws := by
  rw [eq_mapM (g := addTextList clipped lines) rfl fun _ _ => rfl, mapM_eq_ok_iff]

/-- Texts are added along a list. -/
theorem addTexts_list_eq_ok_iff {vs : List Value} {w : Value} :
    addTexts clipped lines (.list vs) = .ok w ↔
      ∃ ws, w = .list ws ∧ Forall₂ (fun v w => addText clipped lines v = .ok w) vs ws := by
  rw [addTexts]
  constructor
  · intro h
    obtain ⟨ws, hws, h⟩ := bind_eq_ok.mp h
    cases h
    exact ⟨ws, rfl, addTextList_eq_ok_iff.mp hws⟩
  · rintro ⟨ws, rfl, hws⟩
    rw [addTextList_eq_ok_iff.mpr hws]
    rfl

/-- Below a node, texts are added to its branches. -/
theorem addTextBelow_eq_mapNodes (clipped : Bool) (lines : List String) (fs : Fields) :
    addTextBelow clipped lines fs = mapNodes (addTexts clipped lines) fs := by
  induction fs with
  | nil => rfl
  | cons f rest ih => rw [addTextBelow, mapNodes, ih]

/-- A node **before and after it gets its text**: its branches may change as well. -/
def Texted (clipped : Bool) (lines : List String) (fs gs : Fields) : Prop :=
  ∃ hs text, textOf clipped lines (.object fs) = .ok text ∧ AgreeBut ["nodes"] fs hs ∧
    hs.keys = fs.keys ∧ gs = hs.set "text" (.str text)

/-- A declaration with a text is a declaration. -/
theorem Texted.isDeclaration {gs : Fields} (h : Texted clipped lines fs gs)
    (hfs : IsDeclaration fs) : IsDeclaration gs := by
  obtain ⟨hs, text, -, hagree, hkeys, rfl⟩ := h
  obtain ⟨kind, hkind⟩ := hfs.kind
  refine ⟨(hfs.declared.of_keys_eq hkeys).set (by decide) _, kind, ?_⟩
  rw [Fields.get?_set_of_ne _ _ (by decide), hagree _ (by decide), hkind]

/-- Texts are added node by node. -/
theorem parallel_of_addText {p : Fields → Prop} {w : Value} (h : NodeTree p v)
    (hw : addText clipped lines v = .ok w) : Parallel (Texted clipped lines) v w := by
  induction h generalizing w with
  | node _ hvs _ ih =>
    obtain ⟨text, htext, hw⟩ := bind_eq_ok.mp hw
    obtain ⟨hs, hhs, hw⟩ := bind_eq_ok.mp hw
    cases hw
    rw [addTextBelow_eq_mapNodes] at hhs
    obtain ⟨ws, hws, hbelow, hagree, hkeys⟩ :=
      exists_of_mapNodes addTexts_list_eq_ok_iff.mp hvs hhs
    exact .node ⟨hs, text, htext, hagree, hkeys, rfl⟩ hvs
      (hws.congr (Fields.get?_set_of_ne _ _ (by decide)))
      (forall₂_imp_of_mem hbelow fun c hc d hd => ih c hc hd)

/-- A node with lines has a text. -/
theorem exists_textOf (h : HasLines fs) (clipped : Bool) (lines : List String) :
    ∃ text, textOf clipped lines (.object fs) = .ok text := by
  obtain ⟨first, last, hfirst, hlast⟩ := h
  have hend : ∃ stop, endOf clipped lines.length (.int last) = .ok stop := by
    unfold endOf
    split
    · rw [Value.less_of_int? rfl rfl]
      by_cases h : (lines.length : Int) < last
      · rw [decide_eq_true h]
        exact ⟨_, rfl⟩
      · rw [decide_eq_false h]
        exact ⟨_, rfl⟩
    · exact ⟨last, rfl⟩
  obtain ⟨stop, hstop⟩ := hend
  have hfirst' : (Value.object fs).field "start_line" = .ok (.int first) :=
    Value.field_eq_ok_iff.mpr hfirst
  have hlast' : (Value.object fs).field "end_line" = .ok (.int last) :=
    Value.field_eq_ok_iff.mpr hlast
  exact ⟨_, bind_ok hfirst'
    (bind_ok (Value.sub_of_int? rfl rfl) (bind_ok hlast' (bind_ok hstop rfl)))⟩

/-- A tree whose nodes have lines can be given texts. -/
theorem exists_addText {p : Fields → Prop} (hp : ∀ fs, p fs → HasLines fs) (clipped : Bool)
    (lines : List String) (h : NodeTree p v) : ∃ w, addText clipped lines v = .ok w := by
  induction h with
  | @node fs vs hfs hvs _ ih =>
    obtain ⟨text, htext⟩ := exists_textOf (hp fs hfs) clipped lines
    obtain ⟨ws, hws⟩ := exists_forall₂ ih
    obtain ⟨hs, hhs⟩ := exists_mapNodes_of_branches hvs
      ⟨_, addTexts_list_eq_ok_iff.mpr ⟨ws, rfl, hws⟩⟩
    rw [← addTextBelow_eq_mapNodes] at hhs
    rw [addText, htext]
    change ∃ w, (addTextBelow clipped lines fs >>= _) = _
    rw [hhs]
    exact ⟨_, rfl⟩

/-! ### Files -/

/-- The node of a **file** with a text: declarations are below it. -/
def IsFileNode (path text : String) (v : Value) : Prop :=
  ∃ below, v = .object [("title", .str (Path.baseName path)), ("type", .str "file"),
      ("path", .str path), ("start_line", .int 1),
      ("end_line", .ofNat (Text.lines text).length), ("text", .str text),
      ("nodes", .list below)] ∧ ∀ c ∈ below, DeclarationTree c

/-- Outlines are trees of declarations. -/
theorem declarationTree_of_outline {nodes : List Value}
    (h : (outline around language path source).Returns session l nodes l') :
    ∀ v ∈ nodes, DeclarationTree v := by
  have hvalues : ∀ {ns}, AllRegular ns → ∀ v ∈ Node.values ns, DeclarationTree v :=
    fun hns v hv => (nodeTree_of_mem_values hns v hv).imp fun _ h => h.1
  cases language with
  | java =>
    obtain ⟨ns, l₁, hns, h⟩ := h.of_bind
    cases h
    exact hvalues (regular_javaOutline hns.of_lift)
  | kotlin =>
    obtain ⟨lasts, hlasts, h⟩ := bind_eq_ok.mp h.of_lift
    cases h
    refine forall_mem_append.mpr ⟨hvalues (regular_kotlinOutline _), ?_⟩
    unfold Kotlin.LastImports.group at hlasts
    split at hlasts
    · cases hlasts
    · cases hlasts
      exact forall_mem_nil _
    · cases hlasts
    · cases hlasts
      refine forall_mem_singleton.mpr
        (.node ⟨⟨?_, ?_⟩, .importGroup, rfl⟩ (.list rfl) (forall_mem_nil _))
      · change ["title", "type", "start_line", "end_line", "nodes"].Nodup
        decide
      · change ∀ key ∈ ["title", "type", "start_line", "end_line", "nodes"], _
        decide
  | native =>
    obtain ⟨ns, l₁, hns, h⟩ := h.of_bind
    cases h
    obtain ⟨ns', l₁', hns', hregular, -⟩ := exists_nativeOutline around.trees path session l
    obtain ⟨rfl, -⟩ := hns.unique hns'
    exact hvalues hregular
  | python =>
    obtain ⟨ns, l₁, hns, h⟩ := h.of_bind
    cases h
    exact hvalues (regular_pythonOutline hns.of_lift)

/-- **The node of a source text** is a file with declarations below it. -/
theorem isFileNode_of_fileNode
    (h : (fileNode around language path source).Returns session l v l') :
    IsFileNode path source v := by
  obtain ⟨nodes, _, hnodes, h⟩ := h.of_bind
  obtain ⟨texts, _, htexts, h⟩ := h.of_bind
  cases h
  obtain ⟨below, rfl, hbelow⟩ := addTexts_list_eq_ok_iff.mp htexts.of_lift
  refine ⟨below, rfl, fun d hd => ?_⟩
  obtain ⟨c, hc, hcd⟩ := exists_left_of_forall₂ hbelow d hd
  have htree := declarationTree_of_outline hnodes c hc
  have hparallel := (htree.parallel_self.comp (parallel_of_addText htree hcd)).right
  refine hparallel.imp ?_
  rintro gs ⟨fs, _, ⟨rfl, hfs⟩, htexted⟩
  exact htexted.isDeclaration hfs

/-- A source text **has a node** as soon as it has an outline and the lines in it are known. -/
theorem exists_fileNode {nodes : List Value}
    (h : (outline around language path source).Returns session l nodes l')
    (hlines : ∀ v ∈ nodes, NodeTree (fun fs => IsDeclaration fs ∧ HasLines fs) v) :
    ∃ v, (fileNode around language path source).Returns session l v l' := by
  obtain ⟨below, hbelow⟩ := exists_forall₂ fun v hv =>
    exists_addText (fun _ h => h.2) (language ≠ .python) (Text.lines source) (hlines v hv)
  have htexts := addTexts_list_eq_ok_iff.mpr ⟨below, rfl, hbelow⟩
  exact ⟨_, h.bind (Returns.bind (returns_lift htexts) rfl)⟩

/-- A C or C++ file **always has a node**. -/
theorem exists_fileNode_native (around : Surroundings) (path source : String) (session : Session)
    (l : Ledger) :
    ∃ v l', (fileNode around .native path source).Returns session l v l' := by
  obtain ⟨ns, l', hns, hregular, -⟩ := exists_nativeOutline around.trees path session l
  have houtline : (outline around .native path source).Returns session l (Node.values ns)
      l' := hns.bind rfl
  obtain ⟨v, hv⟩ := exists_fileNode houtline (nodeTree_of_mem_values hregular)
  exact ⟨v, l', hv⟩

/-- The node of a file is a tree of nodes. -/
theorem IsFileNode.nodeTree (h : IsFileNode path text v) : NodeTree Declared v := by
  obtain ⟨below, rfl, hbelow⟩ := h
  refine .node ⟨?_, ?_⟩ (.list rfl) fun c hc => (hbelow c hc).imp fun _ h => h.declared
  · change ["title", "type", "path", "start_line", "end_line", "text", "nodes"].Nodup
    decide
  · change ∀ key ∈ ["title", "type", "path", "start_line", "end_line", "text", "nodes"], _
    decide

/-! ### Types of nodes -/

/-- A node has a **type**. -/
def HasType (type : String) (v : Value) : Prop := v.field? "type" = some (.str type)

instance (type : String) (v : Value) : Decidable (HasType type v) :=
  inferInstanceAs (Decidable (_ = _))

/-- The node of a file has its type. -/
theorem IsFileNode.hasType (h : IsFileNode path text v) : HasType "file" v := by
  obtain ⟨below, rfl, -⟩ := h
  rfl

/-- A node has one type. -/
theorem HasType.unique {type type' : String} (h : HasType type v) (h' : HasType type' v) :
    type = type' :=
  Value.str.inj (Option.some.inj (h.symm.trans h'))

/-- A declaration is **neither a file nor a directory**. -/
theorem not_hasType_of_declarationTree {type : String} (htype : type = "file" ∨ type = "directory")
    (h : DeclarationTree v) : ¬ HasType type v := by
  intro hv
  cases h with
  | node hfs _ _ =>
    obtain ⟨kind, hkind⟩ := hfs.kind
    have hkinds : kind.text ≠ "file" ∧ kind.text ≠ "directory" := by
      cases kind <;> decide
    have heq : type = kind.text := hv.unique hkind
    rcases htype with rfl | rfl
    · exact hkinds.1 heq.symm
    · exact hkinds.2 heq.symm

/-- Below a file there are declarations only. -/
theorem IsFileNode.declarationTree_of_below {n : Value} (h : IsFileNode path text v)
    (hn : Below n v) : DeclarationTree n := by
  obtain ⟨below, rfl, hbelow⟩ := h
  obtain ⟨c, hc, hnc⟩ := hn
  exact (hbelow c hc).of_within hnc

/-- **The only file** in the tree of a file is the file itself. -/
theorem IsFileNode.exists_nodes (h : IsFileNode path text v) :
    ∃ ns, nodes v = .ok (some ns) ∧ ns.filter (HasType "file") = [v] := by
  obtain ⟨below, hns, hbelow⟩ := h.nodeTree.exists_nodes_below
  refine ⟨v :: below, hns, ?_⟩
  have hnone : below.filter (fun n => decide (HasType "file" n)) = [] := by
    refine filter_eq_nil_iff.mpr fun n hn => ?_
    rw [decide_eq_true_iff]
    exact not_hasType_of_declarationTree (.inl rfl) (h.declarationTree_of_below (hbelow n hn))
  rw [filter_cons, if_pos (decide_eq_true h.hasType), hnone]

end DocTree.Code
