import DocTree.Proofs.SourceTree
import DocTree.Proofs.Sources

/-!
# Trees of directories

The tree of a directory is made by visiting the source files that it leads to. It can be made
exactly if each of their nodes can. A directory without source files has no place in it, unless it
is the root.
-/

namespace DocTree.Code

open Outline Run List

variable {e : Entry} {entries : List (String × Entry)} {vs : List Value} {name path text : String}
  {d : String × Entry} {around : Surroundings} {v : Value}

/-! ### Visiting source files -/

/-- The work for a **source file** that is found along names below a path. -/
def visit (around : Surroundings) (path : String) (s : List String × String) : Run (Option Value) :=
  entryNode around (Path.along path s.1) (some s.2)

/-- A path ends with its last name. -/
theorem suffix_join (path name : String) : name.toList <:+ (Path.join path name).toList := by
  unfold Path.join
  split
  · exact suffix_rfl
  · split
    · rw [String.toList_append]
      exact suffix_append _ _
    · rw [String.toList_append]
      exact suffix_append _ _

/-- A source file has a **language**. -/
theorem exists_language (h : IsSourceName path) :
    ∃ language, Language.ofName? path = some language := by
  obtain ⟨ending, hending, hsuffix⟩ := h
  have hends : ∀ {endings}, ending ∈ endings → Text.endsWithAny path endings = true :=
    fun hmem => Text.endsWithAny_iff.mpr ⟨ending, hmem, hsuffix⟩
  unfold Language.ofName?
  split
  · exact ⟨_, rfl⟩
  · split
    · exact ⟨_, rfl⟩
    · split
      · exact ⟨_, rfl⟩
      · split
        · exact ⟨_, rfl⟩
        · exfalso
          rename_i hjava hkotlin hnative hpython
          rcases mem_append.mp hending with hmem | hmem
          · have hcases : ending = ".py" ∨ ending = ".java" ∨ ending = ".kt" := by simpa using hmem
            rcases hcases with rfl | rfl | rfl
            · exact hpython (Text.endsWith_iff.mpr hsuffix)
            · exact hjava (Text.endsWith_iff.mpr hsuffix)
            · exact hkotlin (Text.endsWith_iff.mpr hsuffix)
          · exact hnative (hends hmem)

/-- A path of a source file has a source name. -/
theorem IsSourceName.join (h : IsSourceName name) (path : String) :
    IsSourceName (Path.join path name) := by
  obtain ⟨ending, hending, hsuffix⟩ := h
  exact ⟨ending, hending, hsuffix.trans (suffix_join path name)⟩

/-- What is returned for a source file is its **node**. -/
theorem exists_isFileNode_of_entryNode {o : Option Value} {session : Session}
    {l l' : Ledger} (hsource : IsSourceName path)
    (h : (entryNode around path (some text)).Returns session l o l') :
    ∃ v, o = some v ∧ IsFileNode path (Files.uniform text) v := by
  obtain ⟨language, hlanguage⟩ := exists_language hsource
  rw [entryNode, hlanguage] at h
  obtain ⟨v, l₁, hv, h⟩ := h.of_bind
  cases h
  exact ⟨v, rfl, isFileNode_of_fileNode hv⟩

/-! ### Trees of directories -/

def directoryFields (path : String) (below : List Value) : Fields :=
  [("title", .str (Path.baseName (Path.normalize path))), ("type", .str "directory"),
    ("path", .str path), ("nodes", .list below)]

/-- A value is the node of a source file in the directory at a path. -/
def IsFileIn (path : String) (s : String × String) (v : Value) : Prop :=
  IsFileNode (Path.join path s.1) (Files.uniform s.2) v

/-- **The tree of a directory** at a path, and the nodes of files in it in document order: the trees
of its directories with source files come first, and then the nodes of its own source files. -/
inductive DirectoryTree : String × Entry → Value × List Value → Prop
  | node {path : String} {entries : List (String × Entry)} {made : List (Value × List Value)}
      {files : List Value}
      (hmade : Forall₂ DirectoryTree
        ((sourceDirectories entries).map fun d => (Path.join path d.1, d.2)) made)
      (hfiles : Forall₂ (IsFileIn path) (sourceFiles entries) files) :
      DirectoryTree (path, .directory entries)
        (.object (directoryFields path (made.map Prod.fst ++ files)),
          made.flatMap Prod.snd ++ files)

/-- **What is below a directory** is one of its directories or one of its files. -/
theorem DirectoryTree.child_cases {c : Value} (h : DirectoryTree (path, .directory entries) (v, vs))
    (hc : c ∈ children v) :
    (∃ d ∈ sourceDirectories entries, ∃ us, DirectoryTree (Path.join path d.1, d.2) (c, us)) ∨
      ∃ s ∈ sourceFiles entries, IsFileIn path s c := by
  cases h with
  | @node _ _ made files hmade hfiles =>
    rcases mem_append.mp (show c ∈ made.map Prod.fst ++ files from hc) with hc | hc
    · obtain ⟨x, hx, rfl⟩ := mem_map.mp hc
      obtain ⟨p, hp, hpx⟩ := exists_left_of_forall₂ hmade x hx
      obtain ⟨d, hd, rfl⟩ := mem_map.mp hp
      exact .inl ⟨d, hd, x.2, hpx⟩
    · exact .inr (exists_left_of_forall₂ hfiles c hc)

/-- A directory leads to no source file. -/
theorem sources_directory_eq_nil_iff :
    sources (.directory entries) = [] ↔
      sourceDirectories entries = [] ∧ sourceFiles entries = [] := by
  rw [sources, append_eq_nil_iff, map_eq_nil_iff, sourcesBelow_eq,
    flatMap_eq_nil_iff]
  refine and_congr_left fun _ => ⟨fun h => eq_nil_iff_forall_not_mem.mpr fun d hd => ?_, ?_⟩
  · exact (mem_sourceDirectories_iff.mp hd).2.2 (map_eq_nil_iff.mp (h d hd))
  · intro h d hd
    rw [h] at hd
    cases hd

/-- A list of nodes with files. -/
theorem hasFilesList_of_forall (h : ∀ v ∈ vs, hasFiles v = .ok true) :
    hasFilesList vs = .ok (!vs.isEmpty) := by
  cases vs with
  | nil => rfl
  | cons v vs =>
    rw [hasFilesList, h v (.head _)]
    rfl

/-- The node of a file has one. -/
theorem IsFileNode.hasFiles (h : IsFileNode path text v) : hasFiles v = .ok true := by
  obtain ⟨below, rfl, -⟩ := h
  rfl

/-- There is a file in the tree of a directory exactly if it **leads to a source file**. -/
theorem DirectoryTree.hasFiles (h : DirectoryTree (path, e) (v, vs)) :
    hasFiles v = .ok !(sources e).isEmpty := by
  induction e using Entry.entry_induction generalizing path v vs with
  | file => cases h
  | directory entries ih =>
    have hall : ∀ c ∈ children v, Code.hasFiles c = .ok true := by
      intro c hc
      rcases h.child_cases hc with ⟨d, hd, us, hcd⟩ | ⟨s, -, hs⟩
      · obtain ⟨hmem, -, hne⟩ := mem_sourceDirectories_iff.mp hd
        rw [ih d hmem hcd, isEmpty_eq_false_iff.mpr hne, Bool.not_false]
      · exact IsFileNode.hasFiles hs
    cases h with
    | @node _ _ made files hmade hfiles =>
      have hnil : made.map Prod.fst ++ files = [] ↔ sources (.directory entries) = [] := by
        rw [sources_directory_eq_nil_iff, append_eq_nil_iff, map_eq_nil_iff,
          ← length_eq_zero_iff, ← length_eq_zero_iff, ← hmade.length_eq,
          ← hfiles.length_eq, length_map, length_eq_zero_iff, length_eq_zero_iff]
      have hempty : (made.map Prod.fst ++ files).isEmpty = (sources (.directory entries)).isEmpty :=
        Bool.eq_iff_iff.mpr (by rw [List.isEmpty_iff, List.isEmpty_iff, hnil])
      rw [← hempty]
      exact hasFilesList_of_forall hall

/-- A value is the node of a source file that is found along names below a path. -/
def IsFileAlong (path : String) (s : List String × String) (v : Value) : Prop :=
  IsFileNode (Path.along path s.1) (Files.uniform s.2) v

/-- The nodes of files in the tree of a directory are those of its **source files in order**. -/
theorem DirectoryTree.forall₂_sources (h : DirectoryTree (path, e) (v, vs)) :
    Forall₂ (IsFileAlong path) (sources e) vs := by
  induction e using Entry.entry_induction generalizing path v vs with
  | file => cases h
  | directory entries ih =>
    cases h with
    | node hmade hfiles =>
      rw [sources, sourcesBelow_eq]
      refine rel_append (rel_flatMap (R := fun d x =>
        Forall₂ (IsFileAlong path) ((sources d.2).map fun s => (d.1 :: s.1, s.2)) x.2)
        ?_ fun _ _ h => h) (forall₂_map_left_iff.mpr hfiles)
      refine forall₂_imp_of_mem (forall₂_map_left_iff.mp hmade) fun d hd x hx => ?_
      exact forall₂_map_left_iff.mpr (ih d (mem_of_mem_filter hd) hx)

/-! ### Making the tree -/

/-- What is no source file is passed over. -/
theorem sourceFiles_cons_of_none (h : sourceText? d = none) (rest : List (String × Entry)) :
    sourceFiles (d :: rest) = sourceFiles rest := by
  rw [sourceFiles, filterMap_cons, h]
  rfl

/-- A source file is taken. -/
theorem sourceFiles_cons_of_some (h : sourceText? d = some text) (rest : List (String × Entry)) :
    sourceFiles (d :: rest) = (d.1, text) :: sourceFiles rest := by
  rw [sourceFiles, filterMap_cons, h]
  rfl

/-- What is no source file has no node. -/
theorem fileNodes_cons_of_none (h : sourceText? (name, e) = none) (around : Surroundings)
    (path : String) (rest : List (String × Entry)) :
    fileNodes around path ((name, e) :: rest) = fileNodes around path rest := by
  have hskip : (pure none >>= fun here : Option Value => fileNodes around path rest >>= fun more =>
      pure (here.toList ++ more)) = fileNodes around path rest := by
    rw [pure_bind]
    exact bind_pure _
  cases e with
  | directory entries => rw [fileNodes]
  | file text? =>
    rw [fileNodes]
    split
    · exact hskip
    · rename_i hkept
      cases text? with
      | none => exact hskip
      | some text =>
        simp only [sourceText?, if_neg hkept] at h
        cases h

/-- The node of a source file comes first. -/
theorem fileNodes_cons_of_some (h : sourceText? (name, e) = some text) (around : Surroundings)
    (path : String) (rest : List (String × Entry)) :
    fileNodes around path ((name, e) :: rest) =
      (entryNode around (Path.join path name) (some text) >>= fun here =>
        fileNodes around path rest >>= fun more => pure (here.toList ++ more)) := by
  cases e with
  | directory entries => cases h
  | file text? =>
    cases text? with
    | none => cases h
    | some t =>
      simp only [sourceText?] at h
      split at h
      · cases h
      · rename_i hkept
        cases h
        rw [fileNodes, if_neg hkept]

/-- Source files have source names. -/
theorem isSourceName_of_sourceText? (h : sourceText? (name, e) = some text) :
    IsSourceName name := by
  have hmem : (name, text) ∈ sourceFiles [(name, e)] := by
    rw [sourceFiles_cons_of_some h]
    exact .head _
  exact (mem_sourceFiles_iff.mp hmem).2.2

/-- The nodes of files that are made of entries: one for each source file. -/
def FilesMade (path : String) (entries : List (String × Entry)) (files : List Value)
    (found : List (Option Value)) : Prop :=
  found = files.map some ∧ Forall₂ (IsFileIn path) (sourceFiles entries) files

/-- Making the nodes of the source files among entries keeps in step with visiting them. -/
theorem fileNodes_inStep (around : Surroundings) (path : String)
    (entries : List (String × Entry)) :
    InStep (FilesMade path entries) (fileNodes around path entries)
      (((sourceFiles entries).map fun s => ([s.1], s.2)).mapM (visit around path)) := by
  induction entries with
  | nil => exact inStep_pure ⟨rfl, .nil⟩
  | cons d rest ih =>
    obtain ⟨name, e⟩ := d
    unfold FilesMade
    cases htext : sourceText? (name, e) with
    | none =>
      rw [sourceFiles_cons_of_none htext, fileNodes_cons_of_none htext]
      exact ih
    | some text =>
      have hsource := (isSourceName_of_sourceText? htext).join path
      rw [sourceFiles_cons_of_some htext, fileNodes_cons_of_some htext, map_cons,
        mapM_cons]
      refine (inStep_self (exists_isFileNode_of_entryNode hsource)).bind fun o _ ho => ?_
      obtain ⟨rfl, v, rfl, hv⟩ := ho
      refine ih.bind fun files found h => inStep_pure ?_
      obtain ⟨rfl, hfiles⟩ := h
      exact ⟨rfl, .cons hv hfiles⟩

/-- One node is kept if it has files. -/
theorem filterM_hasFiles {b : Bool} (h : hasFiles v = .ok b) :
    ([v].filterM fun node => (do return (← hasFiles node) : Run Bool)) =
      pure (if b then [v] else []) := by
  unfold List.filterM
  rw [List.filterAuxM, h]
  cases b <;> rfl

/-- What is made of the directories among entries: a tree for each of those with source files. -/
def DirectoriesMade (path : String) (entries : List (String × Entry)) (directories : List Value)
    (found : List (Option Value)) : Prop :=
  ∃ made, directories = made.map Prod.fst ∧ found = (made.flatMap Prod.snd).map some ∧
    Forall₂ DirectoryTree
      ((sourceDirectories entries).map fun d => (Path.join path d.1, d.2)) made

/-- One more directory in front. -/
theorem DirectoriesMade.cons {path : String} {d : String × Entry} {rest : List (String × Entry)}
    {here more : List Value} {found found' : List (Option Value)}
    (h : DirectoriesMade path [d] here found) (h' : DirectoriesMade path rest more found') :
    DirectoriesMade path (d :: rest) (here ++ more) (found ++ found') := by
  obtain ⟨made, rfl, rfl, hmade⟩ := h
  obtain ⟨made', rfl, rfl, hmade'⟩ := h'
  refine ⟨made ++ made', ?_, ?_, ?_⟩
  · rw [map_append]
  · rw [flatMap_append, map_append]
  · have happend : sourceDirectories (d :: rest) =
        sourceDirectories [d] ++ sourceDirectories rest := filter_append [d] rest
    rw [happend, map_append]
    exact rel_append hmade hmade'

/-- What is made of an entry: nothing of a file, and its tree of a directory. -/
def EntryMade (path : String) (e : Entry) (node : Option Value) (found : List (Option Value)) :
    Prop :=
  (node = none ∧ found = [] ∧ ∃ text, e = .file text) ∨
    ∃ v vs, node = some v ∧ found = vs.map some ∧ DirectoryTree (path, e) (v, vs)

/-- A visible directory is kept in step with visiting its source files if its tree is made so. -/
theorem keep_inStep (around : Surroundings) (hvisible : isIgnored name = false)
    (h : InStep (EntryMade (Path.join path name) e)
      (directoryNode around (Path.join path name) e)
      ((sources e).mapM (visit around (Path.join path name)))) :
    InStep (DirectoriesMade path [(name, e)])
      (directoryNode around (Path.join path name) e >>= fun here =>
        here.toList.filterM fun node => (do return (← hasFiles node) : Run Bool))
      ((sources e).mapM (visit around (Path.join path name))) := by
  refine h.bind_left fun here found hmade => ?_
  -- a tree without files is thrown away, and nothing was visited for it
  have hnone : sources e = [] → DirectoriesMade path [(name, e)] [] [] := fun hnil =>
    ⟨[], rfl, rfl, by simp [sourceDirectories, hnil]⟩
  rcases hmade with ⟨rfl, rfl, text, rfl⟩ | ⟨v, vs, rfl, rfl, htree⟩
  · exact inStep_pure (hnone rfl)
  · rw [Option.toList_some, filterM_hasFiles htree.hasFiles]
    by_cases hnil : sources e = []
    · have hvs := htree.forall₂_sources
      rw [hnil] at hvs ⊢
      cases hvs
      exact inStep_pure (hnone hnil)
    · have hkept : (sources e).isEmpty = false := isEmpty_eq_false_iff.mpr hnil
      rw [hkept]
      refine inStep_pure ⟨[(v, vs)], rfl, by simp, ?_⟩
      simpa [sourceDirectories, hvisible, hkept] using htree

/-- The directories below a directory, one by one. -/
theorem directoryNodes_inStep (around : Surroundings) (path : String)
    (h : ∀ d ∈ entries, ∀ path, InStep (EntryMade path d.2) (directoryNode around path d.2)
      ((sources d.2).mapM (visit around path))) :
    InStep (DirectoriesMade path entries) (directoryNodes around path entries)
      ((sourcesBelow entries).mapM (visit around path)) := by
  induction entries with
  | nil => exact inStep_pure ⟨[], rfl, rfl, .nil⟩
  | cons d rest ih =>
    obtain ⟨name, e⟩ := d
    obtain ⟨hd, hrest⟩ := forall_mem_cons.mp h
    rw [directoryNodes, sourcesBelow]
    cases hignored : isIgnored name with
    | true =>
      rw [if_pos rfl, if_pos rfl]
      refine (ih hrest).bind_left fun more found h' => inStep_pure ?_
      unfold DirectoriesMade sourceDirectories
      rw [filter_cons_of_neg (by simp [hignored])]
      exact h'
    | false =>
      rw [if_neg Bool.false_ne_true, if_neg Bool.false_ne_true, mapM_append, mapM_map,
        ← bind_assoc]
      refine (keep_inStep around hignored (hd _)).bind fun here found h => ?_
      exact (ih hrest).bind fun more found' h' => inStep_pure (h.cons h')

/-- **Making the tree** of an entry keeps in step with visiting its source files. -/
theorem directoryNode_inStep (around : Surroundings) (path : String) (e : Entry) :
    InStep (EntryMade path e) (directoryNode around path e)
      ((sources e).mapM (visit around path)) := by
  induction e using Entry.entry_induction generalizing path with
  | file text =>
    rw [directoryNode]
    exact inStep_pure (.inl ⟨rfl, rfl, text, rfl⟩)
  | directory entries ih =>
    rw [directoryNode, sources, mapM_append]
    refine (directoryNodes_inStep around path ih).bind fun directories found h => ?_
    refine (fileNodes_inStep around path entries).bind fun files found' h' => inStep_pure ?_
    obtain ⟨made, rfl, rfl, hmade⟩ := h
    obtain ⟨rfl, hfiles⟩ := h'
    exact .inr ⟨_, _, rfl, (map_append).symm, .node hmade hfiles⟩

/-- What is made of the directory at a path: its tree, with entries in order. -/
def TreeMade (path : String) (entries : List (String × Entry)) (tree : Option Value)
    (found : List (Option Value)) : Prop :=
  ∃ v vs, tree = some v ∧ found = vs.map some ∧
    DirectoryTree (path, (Entry.directory entries).sorted) (v, vs)

/-- **The tree of the directory at a path** is made in step with visiting its source files. -/
theorem directoryTree_inStep (h : around.files.find path = .ok (.directory entries)) :
    InStep (TreeMade path entries) (directoryTree around path)
      ((sources (Entry.directory entries).sorted).mapM (visit around path)) := by
  have hlist : around.files.list path = .ok entries := by
    rw [Files.list, h]
    rfl
  rw [directoryTree, hlist, lift_ok_bind]
  have hnode := directoryNode_inStep around path (Entry.directory entries).sorted
  refine hnode.imp fun tree found hmade => ?_
  rcases hmade with ⟨-, -, text, hfile⟩ | htree
  · cases hfile
  · exact htree

/-! ### Nodes in the tree -/

/-- The node of a directory has known keys. -/
theorem declared_directoryFields (path : String) (below : List Value) :
    Declared (directoryFields path below) := by
  refine ⟨?_, ?_⟩
  · change ["title", "type", "path", "nodes"].Nodup
    decide
  · change ∀ key ∈ ["title", "type", "path", "nodes"], _
    decide

section

variable {path : String} {e : Entry} {v : Value} {vs : List Value}

/-- The tree of a directory has its type. -/
theorem DirectoryTree.hasType (h : DirectoryTree (path, e) (v, vs)) : HasType "directory" v := by
  cases h with
  | node => rfl

/-- The tree of a directory is a tree of nodes. -/
theorem DirectoryTree.nodeTree (h : DirectoryTree (path, e) (v, vs)) : NodeTree Declared v := by
  induction e using Entry.entry_induction generalizing path v vs with
  | file => cases h
  | directory entries ih =>
    have hall : ∀ c ∈ children v, NodeTree Declared c := by
      intro c hc
      rcases h.child_cases hc with ⟨d, hd, us, hcd⟩ | ⟨s, -, hs⟩
      · exact ih d (mem_sourceDirectories_iff.mp hd).1 hcd
      · exact IsFileNode.nodeTree hs
    cases h with
    | node => exact .node (declared_directoryFields _ _) (.list rfl) hall

/-- **The files in document order** are those that were visited. -/
theorem DirectoryTree.exists_nodes (h : DirectoryTree (path, e) (v, vs)) :
    ∃ ns, nodes v = .ok (some ns) ∧ ns.filter (HasType "file") = vs := by
  induction e using Entry.entry_induction generalizing path v vs with
  | file => cases h
  | directory entries ih =>
    have hself := h.hasType
    cases h with
    | @node _ _ made files hmade hfiles =>
      have hdirectories : Forall₂ (fun v ps => ∃ ns, nodes v = .ok (some ns) ∧
          ns.filter (fun n => decide (HasType "file" n)) = ps)
          (made.map Prod.fst) (made.map Prod.snd) := by
        rw [forall₂_map_left_iff, forall₂_map_right_iff, forall₂_same]
        intro x hx
        obtain ⟨p, hp, hpx⟩ := exists_left_of_forall₂ hmade x hx
        obtain ⟨d, hd, rfl⟩ := mem_map.mp hp
        exact ih d (mem_of_mem_filter hd) hpx
      have hown : Forall₂ (fun v ps => ∃ ns, nodes v = .ok (some ns) ∧
          ns.filter (fun n => decide (HasType "file" n)) = ps) files (files.map fun f => [f]) := by
        rw [forall₂_map_right_iff, forall₂_same]
        intro f hf
        obtain ⟨s, -, hs⟩ := exists_left_of_forall₂ hfiles f hf
        exact IsFileNode.exists_nodes hs
      obtain ⟨ms, hms, hpicked⟩ := exists_nodesOfList_filter hdirectories
      obtain ⟨ns, hns, hpicked'⟩ := exists_nodesOfList_filter hown
      refine ⟨_, nodes_of_branches (.list rfl) (nodesOfList_append hms hns), ?_⟩
      have hnot : ¬ HasType "file" (.object (directoryFields path (made.map Prod.fst ++ files))) :=
        fun hfile => absurd (hfile.unique hself) (by decide)
      rw [filter_cons, if_neg (by simpa using hnot), filter_append, hpicked, hpicked',
        ← flatMap_def, ← flatMap_def, flatMap_singleton']

/-- A directory in the tree has a **tree of its own**, and source files unless it is the root. -/
theorem DirectoryTree.exists_of_within {Q : Entry → Prop}
    (hQ : ∀ entries, Q (.directory entries) → ∀ d ∈ sourceDirectories entries, Q d.2)
    (h : DirectoryTree (path, e) (v, vs)) (he : Q e) {n : Value} (hn : Within n v)
    (htype : HasType "directory" n) :
    ∃ path' e' vs', DirectoryTree (path', e') (n, vs') ∧ Q e' ∧ (n ≠ v → sources e' ≠ []) := by
  induction e using Entry.entry_induction generalizing path v vs with
  | file => cases h
  | directory entries ih =>
    rcases hn.eq_or_below with rfl | ⟨c, hc, hnc⟩
    · exact ⟨path, _, vs, h, he, fun hne => absurd rfl hne⟩
    rcases h.child_cases hc with ⟨d, hd, us, hcd⟩ | ⟨s, -, hs⟩
    · obtain ⟨hmem, -, hsources⟩ := mem_sourceDirectories_iff.mp hd
      by_cases hself : n = c
      · subst hself
        exact ⟨_, d.2, us, hcd, hQ entries he d hd, fun _ => hsources⟩
      · obtain ⟨path', e', vs', htree, hQe, hne⟩ := ih d hmem hcd (hQ entries he d hd) hnc
        exact ⟨path', e', vs', htree, hQe, fun _ => hne hself⟩
    · -- there is no directory in a file
      rcases hnc.eq_or_below with rfl | hbelow
      · exact absurd (htype.unique (IsFileNode.hasType hs)) (by decide)
      · exact absurd htype
          (not_hasType_of_declarationTree (.inr rfl) (hs.declarationTree_of_below hbelow))

end

/-! ### The order of names -/

/-- The titles of some nodes are **names in order**. -/
def InNameOrder (vs : List Value) : Prop :=
  ∃ names : List String, vs.map (·.field? "title") = names.map (fun name => some (.str name)) ∧
    names.Pairwise (· < ·)

/-- A field of related nodes. -/
theorem map_field?_of_forall₂ {α : Type} {R : α → Value → Prop} {key : String} {f : α → String}
    {as : List α} (h : Forall₂ R as vs)
    (hR : ∀ a ∈ as, ∀ v, R a v → v.field? key = some (.str (f a))) :
    vs.map (·.field? key) = (as.map f).map fun text => some (.str text) := by
  induction h with
  | nil => rfl
  | @cons a v as vs hav _ ih =>
    obtain ⟨ha, has⟩ := forall_mem_cons.mp hR
    rw [map_cons, map_cons, map_cons, ha v hav, ih has]

/-- All names on the way to readable source files are names that a path can be made of. -/
def ProperNames (e : Entry) : Prop := ∀ s ∈ sources e, ∀ name ∈ s.1, Path.IsName name

/-- The source files below a directory. -/
theorem mem_sources_of_mem_sourceDirectories (hd : d ∈ sourceDirectories entries)
    {s : List String × String} (hs : s ∈ sources d.2) :
    (d.1 :: s.1, s.2) ∈ sources (.directory entries) := by
  rw [sources, sourcesBelow_eq]
  exact mem_append_left _ (mem_flatMap.mpr ⟨d, hd, mem_map_of_mem hs⟩)

/-- The source files of the directory itself. -/
theorem mem_sources_of_mem_sourceFiles {s : String × String} (h : s ∈ sourceFiles entries) :
    ([s.1], s.2) ∈ sources (.directory entries) := by
  rw [sources]
  exact mem_append_right _ (mem_map_of_mem h)

/-- Names are proper below. -/
theorem ProperNames.of_mem (h : ProperNames (.directory entries))
    (hd : d ∈ sourceDirectories entries) : ProperNames d.2 :=
  fun _ hs name hname => h _ (mem_sources_of_mem_sourceDirectories hd hs) name
    (.tail _ hname)

/-- The directories below a node come **first**, then the files, both in the order of names. -/
def DirectoriesFirst (v : Value) : Prop :=
  ∃ directories files, children v = directories ++ files ∧
    (∀ d ∈ directories, HasType "directory" d) ∧ (∀ f ∈ files, HasType "file" f) ∧
    InNameOrder directories ∧ InNameOrder files

/-- A directory is titled by its name. -/
theorem DirectoryTree.title_eq (h : DirectoryTree (Path.join path name, e) (v, vs))
    (hname : Path.IsName name) (hvisible : IsVisible name) :
    v.field? "title" = some (.str name) := by
  have hdots : name ≠ "." ∧ name ≠ ".." := by
    refine ⟨?_, ?_⟩ <;> rintro rfl <;> exact hvisible.1 (by decide)
  cases h with
  | node =>
    change some (Value.str (Path.baseName (Path.normalize (Path.join path name)))) = _
    rw [Path.baseName_normalize_join hname hdots.1 hdots.2]

/-- A file is titled by its name. -/
theorem IsFileIn.title_eq {s : String × String} (h : IsFileIn path s v) (hname : Path.IsName s.1) :
    v.field? "title" = some (.str s.1) := by
  obtain ⟨below, rfl, -⟩ := h
  change some (Value.str (Path.baseName (Path.join path s.1))) = _
  rw [Path.baseName_join hname]

/-- Directories come before files. -/
theorem DirectoryTree.directoriesFirst (h : DirectoryTree (path, e) (v, vs)) (horder : e.InOrder)
    (hproper : ProperNames e) : DirectoriesFirst v := by
  cases h with
  | @node _ entries made files hmade hfiles =>
    cases horder with
    | directory hpairwise _ =>
      have htrees : Forall₂
          (fun d v => ∃ vs, DirectoryTree (Path.join path d.1, d.2) (v, vs))
          (sourceDirectories entries) (made.map Prod.fst) :=
        forall₂_map_right_iff.mpr
          ((forall₂_map_left_iff.mp hmade).imp fun _ x hx => ⟨x.2, hx⟩)
      refine ⟨made.map Prod.fst, files, rfl, fun c hc => ?_, fun f hf => ?_,
        ⟨(sourceDirectories entries).map Prod.fst, ?_, ?_⟩,
        ⟨(sourceFiles entries).map Prod.fst, ?_, ?_⟩⟩
      · obtain ⟨d, -, vs, hd⟩ := exists_left_of_forall₂ htrees c hc
        exact hd.hasType
      · obtain ⟨s, -, hs⟩ := exists_left_of_forall₂ hfiles f hf
        exact IsFileNode.hasType hs
      · refine map_field?_of_forall₂ htrees fun d hd v ⟨vs, hv⟩ => ?_
        obtain ⟨-, hvisible, hsources⟩ := mem_sourceDirectories_iff.mp hd
        obtain ⟨s, hs⟩ := exists_mem_of_ne_nil _ hsources
        exact hv.title_eq
          (hproper _ (mem_sources_of_mem_sourceDirectories hd hs) _ (.head _)) hvisible
      · exact (hpairwise.filter _).map _ fun _ _ hlt => hlt
      · exact map_field?_of_forall₂ hfiles fun s hs v hv =>
          hv.title_eq (hproper _ (mem_sources_of_mem_sourceFiles hs) _ (.head _))
      · exact (hpairwise.map Prod.fst fun _ _ hlt => hlt).sublist
          (map_fst_sourceFiles_sublist entries)

/-! ### All source files, each once -/

/-- A source file is **indexable**: work for it does not fail. -/
def Indexable (around : Surroundings) (path text : String) : Prop :=
  ∀ session l, ∃ node l',
    (entryNode around path (some text)).Returns session l node l'

/-- No path is visited twice. -/
theorem nodup_paths (horder : e.InOrder) (hproper : ProperNames e) :
    ((sources e).map fun s => Path.along path s.1).Nodup := by
  have hcomp : (fun s : List String × String => Path.along path s.1) =
      Path.along path ∘ Prod.fst := rfl
  rw [hcomp, ← map_map]
  refine (nodup_sources horder).map_on fun names hnames names' hnames' heq => ?_
  obtain ⟨s, hs, rfl⟩ := mem_map.mp hnames
  obtain ⟨s', hs', rfl⟩ := mem_map.mp hnames'
  exact Path.along_injective (hproper s hs) (hproper s' hs') heq

/-- A directory in the tree leads to a file below it, unless it is the root. -/
theorem DirectoryTree.exists_file_below (h : DirectoryTree (path, e) (v, vs))
    (hne : sources e ≠ []) : ∃ f, Below f v ∧ HasType "file" f := by
  obtain ⟨ns, hns, hfiles⟩ := h.exists_nodes
  obtain ⟨s, hs⟩ := exists_mem_of_ne_nil _ hne
  obtain ⟨f, hf, -⟩ := exists_right_of_forall₂ h.forall₂_sources s hs
  rw [← hfiles] at hf
  obtain ⟨hmem, htype⟩ := mem_filter.mp hf
  rcases (h.nodeTree.within_of_mem_nodes hns hmem).eq_or_below with rfl | hbelow
  · exact absurd ((of_decide_eq_true htype).unique h.hasType) (by decide)
  · exact ⟨f, hbelow, of_decide_eq_true htype⟩

/-- The tree of the directory at a path, with its nodes in document order, is **complete and has
nothing in vain**. -/
structure CompleteTree (path : String) (entries : List (String × Entry)) (tree : Value)
    (ns : List Value) : Prop where
  nodes : nodes tree = .ok (some ns)
  /-- The files in it are the readable source files that the directory leads to, each once. -/
  files : ∃ files, (files.map Prod.fst).Nodup ∧
    (∀ names text, (names, text) ∈ files ↔ Leads (.directory entries) names (some text)) ∧
    Forall₂ (IsFileAlong path) files (ns.filter (HasType "file"))
  /-- Each file has a path of its own. -/
  paths : ((ns.filter (HasType "file")).map (·.field? "path")).Nodup
  order : ∀ n ∈ ns, HasType "directory" n → DirectoriesFirst n
  /-- No directory but the root is without a file below it. -/
  used : ∀ n ∈ ns, HasType "directory" n → n ≠ tree → ∃ f, Below f n ∧ HasType "file" f

/-- **Every source file is indexed, once, and no directory in vain**, if work for the source files
that a directory leads to does not fail. -/
theorem directory_tree_complete {around : Surroundings} {path : String}
    {entries : List (String × Entry)} (hfind : around.files.find path = .ok (.directory entries))
    (hnames : ∀ names text, Leads (.directory entries) names (some text) →
      ∀ name ∈ names, Path.IsName name)
    (hindexable : ∀ names text, Leads (.directory entries) names (some text) →
      Indexable around (Path.along path names) text)
    (session : Session) (l : Ledger) :
    ∃ tree ns l', (directoryTree around path).Returns session l (some tree) l' ∧
      CompleteTree path entries tree ns := by
  have horder := Entry.inOrder_sorted (.directory entries)
  have hproper : ProperNames (Entry.directory entries).sorted := fun s hs =>
    hnames s.1 s.2 (mem_sources_sorted_iff.mp hs)
  -- every source file can be visited, so the tree is made
  obtain ⟨found, l', hfound⟩ := exists_returns_mapM (f := visit around path)
    (fun s hs l => hindexable s.1 s.2 (mem_sources_sorted_iff.mp hs) session l) l
  obtain ⟨_, htree, tree, files, rfl, rfl, hmade⟩ :=
    (directoryTree_inStep hfind).exists_left hfound
  obtain ⟨ns, hns, rfl⟩ := hmade.exists_nodes
  -- what is known of the root is known of every directory in the tree
  have hdirectory : ∀ n ∈ ns, HasType "directory" n → ∃ path' e' vs',
      DirectoryTree (path', e') (n, vs') ∧ (e'.InOrder ∧ ProperNames e') ∧
        (n ≠ tree → sources e' ≠ []) := fun n hn htype =>
    hmade.exists_of_within
      (fun _ h d hd => ⟨h.1.of_mem (mem_of_mem_filter hd), h.2.of_mem hd⟩)
      ⟨horder, hproper⟩ (hmade.nodeTree.within_of_mem_nodes hns hn) htype
  refine ⟨tree, ns, l', htree, hns, ⟨_, nodup_sources horder,
    fun _ _ => mem_sources_sorted_iff, hmade.forall₂_sources⟩, ?_, fun n hn htype => ?_,
    fun n hn htype hroot => ?_⟩
  · rw [map_field?_of_forall₂ (f := fun s => Path.along path s.1) hmade.forall₂_sources ?_]
    · exact (nodup_paths horder hproper).map fun _ _ h => Value.str.inj (Option.some.inj h)
    · rintro s - _ ⟨below, rfl, -⟩
      rfl
  · obtain ⟨path', e', vs', htree', ⟨horder', hproper'⟩, -⟩ := hdirectory n hn htype
    exact htree'.directoriesFirst horder' hproper'
  · obtain ⟨path', e', vs', htree', -, hne⟩ := hdirectory n hn htype
    exact htree'.exists_file_below (hne hroot)

/-- A working directory with a directory of files in it. -/
def holding (entries : List (String × Entry)) : Files where
  home := "/home"
  top := .directory [("project", .directory entries)]

/-- Two C files, an unreadable file alone in a directory, a note, and directories that are left out.
-/
def project : List (String × Entry) :=
  [("main.c", .file (some "int main(void) \x7b return 0; \x7d\n")),
    ("lib", .directory [("list.h", .file (some "struct list;\n")), (".swap.c", .file (some ""))]),
    ("assets", .directory [("broken.c", .file none)]),
    ("build", .directory [("main.c", .file (some ""))]),
    ("notes.txt", .file (some "none\n"))]

/-- The source files of the project. -/
theorem sources_project : sources (Entry.directory project).sorted =
    [(["lib", "list.h"], "struct list;\n"),
      (["main.c"], "int main(void) \x7b return 0; \x7d\n")] := by
  decide +kernel

/-- The project leads to no others. -/
theorem mem_of_leads_project {names : List String}
    (h : Leads (.directory project) names (some text)) :
    names = ["lib", "list.h"] ∨ names = ["main.c"] := by
  have hmem := mem_sources_sorted_iff.mpr h
  rw [sources_project] at hmem
  rcases mem_cons.mp hmem with h | h
  · exact .inl (Prod.ext_iff.mp h).1
  · exact .inr (Prod.ext_iff.mp (mem_singleton.mp h)).1

/-- Any text is indexed in C. -/
theorem indexable_of_native (h : Language.ofName? path = some .native) (text : String) :
    Indexable around path text := by
  intro session l
  obtain ⟨v, l', hv⟩ :=
    exists_fileNode_native around path (Files.uniform text) session l
  rw [entryNode, h]
  exact ⟨some v, l', hv.bind rfl⟩

/-- The tree of the project. -/
theorem project_tree_complete :
    (holding project).find "project" = .ok (.directory project) ∧
      ∃ tree ns l', (directoryTree { files := holding project } "project").Returns
        (scripted []) {} (some tree) l' ∧ CompleteTree "project" project tree ns := by
  refine ⟨rfl, directory_tree_complete rfl (fun names text h => ?_) (fun names text h => ?_) _ _⟩
  · rcases mem_of_leads_project h with rfl | rfl <;> decide
  · refine indexable_of_native ?_ text
    rcases mem_of_leads_project h with rfl | rfl <;> decide +kernel

end DocTree.Code
