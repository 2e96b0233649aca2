import DocTree.Proofs.Directory
import DocTree.Proofs.Identifiers

/-!
# The form of an index of source code

The tree of a source file or directory is thinned, loses empty fields `nodes`, is numbered, gets
summaries, and is shown with some of its fields in order. After thinning, every stage keeps the
shape.
-/

namespace DocTree

open List

variable {fs gs : Fields} {p : Fields → Prop} {l l' : Ledger} {session : Session}
  {key path : String} {around : Code.Surroundings} {counter : TokenCounter} {tree v w : Value}

/-! ### Dropping fields -/

namespace Outline

/-- A node before and after a **field is dropped**, and its branches perhaps changed. -/
structure Dropped (key : String) (fs gs : Fields) : Prop where
  agree : AgreeBut ["nodes", key] fs gs
  gone : gs.get? key = none
  keys : gs.keys.Sublist fs.keys

/-- No branches come from none. -/
theorem Dropped.get?_nodes_eq_none (h : Dropped key fs gs) (hfs : fs.get? "nodes" = none) :
    gs.get? "nodes" = none := by
  by_contra hne
  exact mem_keys_iff.mp (h.keys.subset (mem_keys_iff.mpr hne)) hfs

/-- **Dropping a field keeps the shape of a tree.** -/
theorem exists_dropField_parallel (hkey : key ≠ "nodes") (h : NodeTree p v) :
    ∃ w, dropField key v = .ok w ∧ Parallel (Dropped key) v w := by
  refine exists_rebuild_parallel (fun {fs hs ws} _ hagree hkeys hws => ?_) h
  refine ⟨_, rfl, ⟨?_, ?_, ?_⟩, hws.congr (Fields.get?_erase_of_ne _ hkey)⟩
  · exact (hagree.mono (by simp)).trans (agreeBut_erase (by simp) hs)
  · exact Fields.get?_erase_self hs key
  · rw [← hkeys]
    exact keys_erase_sublist hs key

/-- **Dropping empty fields `nodes` keeps the shape of a tree**, and the keys that stay. -/
theorem exists_dropEmptyNodes_parallel (h : NodeTree p v) :
    ∃ w, dropEmptyNodes v = .ok w ∧ Parallel (fun fs gs => AgreeBut ["nodes"] fs gs ∧
      gs.keys.Sublist fs.keys) v w := by
  refine exists_rebuild_parallel (fun {fs hs ws} _ hagree hkeys hws => ?_) h
  refine ⟨withoutEmptyNodes hs, rfl, ?_⟩
  have herase : ws = [] → (AgreeBut ["nodes"] fs (hs.erase "nodes") ∧
      (Fields.keys (hs.erase "nodes")).Sublist fs.keys) ∧
      Branches (hs.erase "nodes") ws := by
    rintro rfl
    refine ⟨⟨hagree.trans (agreeBut_erase (by simp) hs), hkeys ▸ keys_erase_sublist hs _⟩, ?_⟩
    exact .none (Fields.get?_erase_self hs "nodes")
  have hsame : (AgreeBut ["nodes"] fs hs ∧ hs.keys.Sublist fs.keys) ∧
      Branches hs ws := ⟨⟨hagree, hkeys ▸ Sublist.refl _⟩, hws⟩
  cases hws with
  | none hnone =>
    rw [withoutEmptyNodes, hnone]
    exact hsame
  | list hsome =>
    rw [withoutEmptyNodes, hsome]
    cases ws with
    | nil => exact herase rfl
    | cons w ws => exact hsame

end Outline

namespace Code

open Outline Run

/-! ### Trees before and after thinning -/

/-- Declared nodes are numberable. -/
theorem Declared.numberable (h : Declared fs) : Numberable fs := by
  have hnodes : ∀ key ∈ fieldOrder, holdsNodes key → key = "nodes" := by decide
  exact ⟨h.nodup, fun key hkey => hnodes key (h.known key hkey)⟩

/-- The tree of a file is declared. -/
theorem nodeTree_of_fileTree
    (h : (fileTree around path).Returns session l (some tree) l') :
    NodeTree Declared tree := by
  unfold fileTree at h
  split at h
  · cases h
  · split at h
    · obtain ⟨v, l₁, hv, h⟩ := h.of_bind
      cases h
      exact (isFileNode_of_fileNode hv).nodeTree
    · cases h

/-- So is the tree of a directory. -/
theorem nodeTree_of_directoryTree
    (h : (directoryTree around path).Returns session l (some tree) l') :
    NodeTree Declared tree := by
  obtain ⟨entries, l₁, hlist, -⟩ := h.of_bind
  obtain ⟨entry, hfind, hlist⟩ := bind_eq_ok.mp hlist.of_lift
  cases entry with
  | file => cases hlist
  | directory entries =>
    obtain ⟨found, -, v, vs, hv, -, hmade⟩ := (directoryTree_inStep hfind).exists_right h
    cases hv
    exact hmade.nodeTree

/-- The tree of **what is at a path** is a tree of declared nodes. -/
theorem nodeTree_of_sourceTree {name : String}
    (h : (sourceTree around path).Returns session l (some tree, name) l') :
    NodeTree Declared tree := by
  unfold sourceTree at h
  split at h
  · split at h
    · obtain ⟨tree?, l₁, htree, h⟩ := h.of_bind
      cases h
      exact nodeTree_of_fileTree htree
    · exact absurd h not_returns_fail
  · split at h
    · obtain ⟨tree?, l₁, htree, h⟩ := h.of_bind
      cases h
      exact nodeTree_of_directoryTree htree
    · exact absurd h not_returns_fail

/-- A **thinned tree** is a tree of declared nodes again. -/
theorem nodeTree_of_thin {count : Value → Except Failure Nat} {threshold : Value}
    (h : NodeTree Declared v) (hw : thin count threshold v = .ok w) : NodeTree Declared w := by
  refine nodeTree_of_rebuild (fun _ hkeys hfs => hfs.of_keys_eq hkeys)
    (fun {hs gs ws} hhs hws hgs => ?_) h hw
  change thinNode count threshold hs = .ok gs at hgs
  unfold thinNode at hgs
  split at hgs
  · obtain ⟨total, -, hgs⟩ := bind_eq_ok.mp hgs
    obtain ⟨isShort, -, hgs⟩ := bind_eq_ok.mp hgs
    split at hgs
    · -- the node takes over the texts of its children, and the children go
      obtain ⟨text, -, hgs⟩ := bind_eq_ok.mp hgs
      cases hgs
      exact ⟨(hhs.set (by decide) text).erase "nodes", .inr (.none (Fields.get?_erase_self _ _))⟩
    · cases hgs
      exact ⟨hhs, .inl hws⟩
  · cases hgs
    exact ⟨hhs, .inl hws⟩

/-! ### Identifiers and summaries -/

/-- A node with no other fields than those that there is an **order** for. -/
def Known (fs : Fields) : Prop := ∀ key, key ∉ fieldOrder → fs.get? key = none

/-- Declared keys are known. -/
theorem Declared.toKnown (h : Declared fs) : Known fs := by
  intro key hkey
  by_contra hne
  exact hkey (h.known key (mem_keys_iff.mpr hne))

/-- Known keys may change. -/
theorem Known.of_agreeBut {keys : List String} (h : Known fs) (hagree : AgreeBut keys fs gs)
    (hkeys : ∀ key ∈ keys, key ∈ fieldOrder) : Known gs := by
  intro key hkey
  rw [hagree key fun hmem => hkey (hkeys key hmem)]
  exact h key hkey

/-- The fields that identifiers and summaries change, and the branches. -/
def completedKeys : List String := ["nodes", "node_id", "summary", "prefix_summary"]

/-- Summaries change the fields for them and nothing else. -/
theorem parallel_of_addSummaries {model threshold : Value} (h : NodeTree p v)
    (hw : (addSummaries counter model threshold v).Returns session l w l') :
    Parallel (ChangedAt ["summary", "prefix_summary"]) v w := by
  obtain ⟨all?, _, -, hw⟩ := hw.of_bind
  obtain ⟨all, _, -, hw⟩ := hw.of_bind
  obtain ⟨summaries, _, -, hw⟩ := hw.of_bind
  cases hw
  refine parallel_assign (by decide) (fun {fs key} hkey => ?_) h summaries
  split at hkey
  · cases hkey
    exact summaryKey_mem fs
  · cases hkey

/-- Thinned trees are declared. -/
theorem nodeTree_of_thinned {options : IndexOptions} (h : NodeTree Declared v)
    (hw : (thinned counter options v).Returns session l w l') : NodeTree Declared w := by
  unfold thinned at hw
  split at hw
  · obtain ⟨-, l₁, -, hw⟩ := hw.of_bind
    exact nodeTree_of_thin h hw.of_lift
  · cases hw
    exact h

/-- Summaries change summaries only. -/
theorem parallel_of_summarized {options : IndexOptions} (h : NodeTree p v)
    (hw : (summarized counter options v).Returns session l w l') :
    Parallel (AgreeBut ["nodes", "summary", "prefix_summary"]) v w := by
  unfold summarized at hw
  split at hw
  · obtain ⟨-, l₁, -, hw⟩ := hw.of_bind
    exact (parallel_of_addSummaries h hw).imp fun _ _ h => h.agree
  · cases hw
    refine h.parallel_self.imp fun fs gs hsame => ?_
    rw [hsame.1]
    exact .refl _ fs

/-- Numbering changes identifiers only, and makes them consecutive **if they are wanted**. -/
theorem exists_numbered (options : IndexOptions) (h : NodeTree Declared v) :
    ∃ w ns, numbered options v = .ok w ∧ Parallel (AgreeBut ["nodes", "node_id"]) v w ∧
      nodes w = .ok (some ns) ∧ (options.identifiers.isStr "yes" = true → NumberedFrom 0 ns) := by
  unfold numbered
  split
  · obtain ⟨w, ns, hw, hidentified, hns, hfrom⟩ :=
      exists_number (h.imp fun _ h => h.numberable) 0
    exact ⟨w, ns, bind_ok hw rfl, hidentified.imp fun _ _ h => h.agree, hns, fun _ => hfrom⟩
  · rename_i hids
    obtain ⟨ns, hns, -⟩ := h.exists_nodes
    refine ⟨v, ns, rfl, h.parallel_self.imp fun fs gs hsame => ?_, hns, fun h => absurd h hids⟩
    rw [hsame.1]
    exact .refl _ fs

/-- **After thinning, nodes stay where they are** and change in identifiers and summaries. -/
theorem exists_of_completed {options : IndexOptions} {source complete : Value}
    (hsource : NodeTree Declared source)
    (h : (completed counter options source).Returns session l complete l') :
    ∃ tree l₀ ns, (thinned counter options source).Returns session l tree l₀ ∧
      Parallel (AgreeBut completedKeys) tree complete ∧ NodeTree Known complete ∧
      nodes complete = .ok (some ns) ∧
      (options.identifiers.isStr "yes" = true → NumberedFrom 0 ns) := by
  obtain ⟨tree, l₁, hthinned, h⟩ := h.of_bind
  obtain ⟨cleaned, _, hcleaned, h⟩ := h.of_bind
  obtain ⟨numbered, _, hnumbered, h⟩ := h.of_bind
  have htree := nodeTree_of_thinned hsource hthinned
  obtain ⟨_, hcleaned', hclean⟩ := exists_dropEmptyNodes_parallel htree
  cases hcleaned.of_lift.symm.trans hcleaned'
  have hdeclared : NodeTree Declared cleaned := by
    refine (htree.parallel_self.comp hclean).nodeTree_right ?_
    rintro _ gs ⟨fs, ⟨rfl, hfs⟩, -, hkeys⟩
    exact ⟨hfs.nodup.sublist hkeys, fun key hkey => hfs.known key (hkeys.subset hkey)⟩
  obtain ⟨_, ms, hnumbered', hidentified, hms, hfrom⟩ := exists_numbered options hdeclared
  cases hnumbered.of_lift.symm.trans hnumbered'
  have hsummarized := parallel_of_summarized (hidentified.nodeTree_right fun _ _ _ => trivial) h
  -- identifiers stay when summaries come
  obtain ⟨_, ns, hms', hns, hparallel⟩ := hsummarized.exists_nodes
  cases hms.symm.trans hms'
  have hcompletes : Parallel (AgreeBut completedKeys) tree complete := by
    refine ((hclean.comp hidentified).comp hsummarized).imp ?_
    rintro fs gs ⟨hs, ⟨cs, ⟨hclean, -⟩, hidentified⟩, hsummarized⟩
    exact ((hclean.mono (by decide)).trans (hidentified.mono (by decide))).trans
      (hsummarized.mono (by decide))
  refine ⟨tree, l₁, ns, hthinned, hcompletes, ?_, hns, fun hids =>
    (hfrom hids).of_parallel (fun _ _ h => h _ (by decide)) hparallel⟩
  refine (htree.parallel_self.comp hcompletes).nodeTree_right ?_
  rintro _ gs ⟨fs, ⟨rfl, hfs⟩, hagree⟩
  exact hfs.toKnown.of_agreeBut hagree (by decide)

/-! ### What an index shows -/

/-- A node **as an index shows it**, with some fields hidden: the others as they were, in order, and
no empty `nodes`. -/
structure ShowsBut (hidden : List String) (fs gs : Fields) : Prop where
  agree : AgreeBut ("nodes" :: hidden) fs gs
  gone : ∀ key ∈ hidden, gs.get? key = none
  keys : gs.keys.Sublist fieldOrder
  nodes : gs.get? "nodes" ≠ some (.list [])

/-- An order that shows everything. -/
theorem showsBut_nil (hfs : Known fs) (h : ShownAs fieldOrder fs gs) :
    ShowsBut [] fs gs where
  agree key hkey := by
    rw [h.other key fun heq => hkey (mem_singleton.mpr heq)]
    split
    · rfl
    · exact (hfs key ‹_›).symm
  gone := forall_mem_nil _
  keys := by
    rw [h.keys]
    exact filter_sublist
  nodes := h.nodes

/-- One more field is hidden by **dropping** it. -/
theorem ShowsBut.drop {hidden : List String} {hs : Fields} (h : ShowsBut hidden fs gs)
    (hdrop : Dropped key gs hs) (hnodes : hs.get? "nodes" ≠ some (.list [])) :
    ShowsBut (key :: hidden) fs hs where
  agree := (h.agree.mono (by grind)).trans (hdrop.agree.mono (by grind))
  gone := by
    refine forall_mem_cons.mpr ⟨hdrop.gone, fun other hother => ?_⟩
    by_contra hne
    exact mem_keys_iff.mp (hdrop.keys.subset (mem_keys_iff.mpr hne)) (h.gone other hother)
  keys := hdrop.keys.trans h.keys
  nodes := hnodes

/-- A dropped field hides nothing else, also in a whole tree. -/
theorem parallel_drop {hidden : List String} {key : String} (hkey : key ≠ "nodes") {u v : Value}
    (h : Parallel (ShowsBut hidden) u v) :
    ∃ w, dropField key v = .ok w ∧ Parallel (ShowsBut (key :: hidden)) u w := by
  obtain ⟨w, hw, hdrop⟩ :=
    exists_dropField_parallel hkey (h.nodeTree_right (q := fun _ => True) fun _ _ _ => trivial)
  -- a field `nodes` is as long as before, so it is empty only if it was
  have hlength := hdrop.imp_of_branches (Q := fun gs hs => Dropped key gs hs ∧
      (gs.get? "nodes" ≠ some (.list []) → hs.get? "nodes" ≠ some (.list []))) ?_
  · refine ⟨w, hw, (h.comp hlength).imp ?_⟩
    rintro fs hs ⟨gs, hshows, hdropped, hnodes⟩
    exact hshows.drop hdropped (hnodes hshows.nodes)
  · intro gs hs vs ws hdropped hvs hws hlen
    refine ⟨hdropped, fun hgs hhs => ?_⟩
    obtain rfl : ws = [] := hws.unique (.list hhs)
    obtain rfl := length_eq_zero_iff.mp hlen
    cases hvs with
    | none hnone => cases hhs.symm.trans (hdropped.get?_nodes_eq_none hnone)
    | list hsome => exact hgs hsome

/-- The fields that an index **hides**: paths, and texts if they are not wanted. -/
def hiddenKeys (options : IndexOptions) : List String :=
  "path" :: if options.text.isStr "no" then ["text"] else []

/-- **An index shows all nodes of a tree**, with their fields in order, but for hidden ones. -/
theorem exists_presented_parallel (options : IndexOptions) (h : NodeTree Known v) :
    ∃ w, presented options v = .ok w ∧ Parallel (ShowsBut (hiddenKeys options)) v w := by
  obtain ⟨formatted, hformatted, hshown⟩ :=
    @exists_formatWith_parallel fieldOrder (by decide) (by decide) _ _ h
  have hshows : Parallel (ShowsBut []) v formatted := by
    refine (h.parallel_self.comp hshown).imp ?_
    rintro fs gs ⟨_, ⟨rfl, hfs⟩, hshown⟩
    exact showsBut_nil hfs hshown
  have hformat : Outline.format v (.ofTexts fieldOrder) = .ok formatted := by
    rw [format_ofTexts (by decide), hformatted]
  unfold presented hiddenKeys
  by_cases htext : options.text.isStr "no" = true
  · obtain ⟨without, hwithout, hshows⟩ := @parallel_drop [] "text" (by decide) _ _ hshows
    obtain ⟨w, hw, hshows⟩ := @parallel_drop _ "path" (by decide) _ _ hshows
    simp only [if_pos htext]
    exact ⟨w, bind_ok hformat (bind_ok hwithout hw), hshows⟩
  · obtain ⟨w, hw, hshows⟩ := @parallel_drop [] "path" (by decide) _ _ hshows
    simp only [if_neg htext]
    exact ⟨w, bind_ok hformat hw, hshows⟩

/-! ### The index -/

/-- A node of an index is **in order**: its keys come in order, it has no path, and its field
`nodes` is not empty. -/
def IsOrdered (v : Value) : Prop :=
  ∃ gs, v = .object gs ∧ (Fields.keys gs).Sublist fieldOrder ∧ Fields.get? gs "path" = none ∧
    Fields.get? gs "nodes" ≠ some (.list [])

/-- A tree, what identifiers and summaries make of it, and what an **index** shows of that, with its
nodes in document order. -/
structure IsIndexOf (options : IndexOptions) (tree complete shown : Value) (ns : List Value) :
    Prop where
  /-- Node by node, identifiers and summaries are all that is changed. -/
  completes : Parallel (AgreeBut completedKeys) tree complete
  /-- Node by node, all is shown but what is hidden. -/
  shows : Parallel (ShowsBut (hiddenKeys options)) complete shown
  nodes : nodes shown = .ok (some ns)
  numbered : NumberedFrom 0 ns
  ordered : ∀ n ∈ ns, IsOrdered n

/-- **The form of an index.** If identifiers are wanted, its nodes are numbered from zero on in
document order, and all are in order. Node by node, it shows everything of the thinned tree with
identifiers and summaries but paths, empty fields `nodes`, and texts that are not wanted. -/
theorem index_is_numbered_and_ordered {around : Surroundings} {counter : TokenCounter}
    {options : IndexOptions} {path : String} {result : Value} {session : Session}
    {l l' : Ledger} (hids : options.identifiers.isStr "yes" = true)
    (h : (index around counter options path).Returns session l result l') :
    ∃ source name tree complete shown ns l₁ l₂ l₃,
      (sourceTree around (around.files.absolute path)).Returns session l
        (some source, name) l₁ ∧
      (thinned counter options source).Returns session l₁ tree l₂ ∧
      (completed counter options source).Returns session l₁ complete l₃ ∧
      result.field? "structure" = some (.list [shown]) ∧
      IsIndexOf options tree complete shown ns := by
  obtain ⟨⟨source?, name⟩, l₁, hsource, h⟩ := returns_bind_iff.mp h
  cases source? with
  | none => exact absurd h not_returns_fail
  | some source =>
    obtain ⟨complete, l₃, hcomplete, h⟩ := returns_bind_iff.mp h
    obtain ⟨shown, l₄, hshown, h⟩ := returns_bind_iff.mp h
    obtain ⟨tree, l₂, ms, htree, hcompletes, hknown, hms, hfrom⟩ :=
      exists_of_completed (nodeTree_of_sourceTree hsource) hcomplete
    obtain ⟨shown', hshown', hshows⟩ := exists_presented_parallel options hknown
    cases (returns_lift_iff.mp hshown).1.symm.trans hshown'
    obtain ⟨ms', ns, hms', hns, hparallel⟩ := hshows.exists_nodes
    cases hms.symm.trans hms'
    refine ⟨source, name, tree, complete, shown, ns, l₁, l₂, l₃, hsource, htree, hcomplete, ?_,
      hcompletes, hshows, hns, (hfrom hids).of_parallel ?_ hparallel, fun n hn => ?_⟩
    · split at h
      · obtain ⟨-, l₅, -, h⟩ := returns_bind_iff.mp h
        obtain ⟨description, l₆, -, h⟩ := returns_bind_iff.mp h
        obtain ⟨rfl, -⟩ := returns_pure_iff.mp h
        rfl
      · obtain ⟨rfl, -⟩ := returns_pure_iff.mp h
        rfl
    · -- identifiers are not hidden
      intro fs gs hshows
      refine hshows.agree _ ?_
      unfold hiddenKeys
      split <;> decide
    · obtain ⟨m, -, hm⟩ := exists_left_of_forall₂ hparallel n hn
      cases hm with
      | node hshows _ _ _ =>
        exact ⟨_, rfl, hshows.keys, hshows.gone _ mem_cons_self, hshows.nodes⟩

/-- A Java class with a method. -/
def oneClass : List (String × Entry) :=
  [("Main.java", .file (some "class Main \x7b\n  void run() \x7b \x7d\n\x7d\n"))]

/-- An index with summaries, of a tree that is thinned. -/
def briefly : IndexOptions where
  thinning := .bool true
  minTokens := .int 5
  summary := .str "yes"

/-- The index of one class. -/
theorem one_class_is_numbered_and_ordered :
    briefly.identifiers.isStr "yes" = true ∧ ∃ result l',
      (index { files := holding oneClass } .bytes briefly "project").Returns (scripted []) {} result
        l' ∧
      ∃ tree complete shown ns, result.field? "structure" = some (.list [shown]) ∧
        IsIndexOf briefly tree complete shown ns := by
  have houtcome : ((index { files := holding oneClass } .bytes briefly "project").execute
      (scripted []) {}).1.map (fun _ => ()) = .ok () := by
    decide +kernel
  obtain ⟨result, l', hresult, -⟩ := returns_of_map_outcome houtcome
  obtain ⟨_, _, tree, complete, shown, ns, _, _, _, -, -, -, hstructure, hindex⟩ :=
    index_is_numbered_and_ordered rfl hresult
  exact ⟨rfl, result, l', hresult, tree, complete, shown, ns, hstructure, hindex⟩

end Code

end DocTree
