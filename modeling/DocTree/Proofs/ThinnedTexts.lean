import DocTree.Proofs.CodeThinning
import DocTree.Proofs.Path
import DocTree.Proofs.SourceTree

/-!
# Texts of thinned source files

In the tree of a Python file the text of a node holds the lines of the nodes below it as well. A
class or function that takes over the texts of its children has their lines once more for every
level between.
-/

namespace DocTree.Code

open Outline Run List

variable {size : String → Nat} {threshold : Int} {fs gs : Fields} {ns ms vs ws : List Value}
  {v w : Value} {lines : List String} {clipped : Bool} {s t : String}

/-! ### Texts below one another -/

/-- The last text decides about the gap. -/
theorem gapAfter_append (h : t ≠ "") (s : String) : gapAfter (s ++ t) = gapAfter t := by
  have hends : Text.endsWith (s ++ t) "\n" = Text.endsWith t "\n" := by
    have hlast : ∀ cs : List Char, "\n".toList <:+ cs ↔ cs.getLast? = some '\n' := by
      intro cs
      rw [getLast?_eq_some_iff]
      exact exists_congr fun before => eq_comm
    rw [Bool.eq_iff_iff, Text.endsWith_iff, Text.endsWith_iff, hlast, hlast, String.toList_append,
      getLast?_append_of_ne_nil _ (mt String.toList_eq_nil_iff.mp h)]
  have ht : t.isEmpty = false := by simpa using h
  have hst : (s ++ t).isEmpty = false := by simp [h]
  rw [gapAfter, gapAfter, hends, ht, hst]

/-- No lines are added. -/
theorem addLines_empty (s : String) : addLines s "" = s := rfl

/-- Lines are added to nothing. -/
theorem empty_addLines (t : String) : addLines "" t = t := by
  by_cases ht : t = "" <;> simp [addLines, gapAfter, ht]

/-- Texts **below one another** may be grouped. -/
theorem addLines_assoc (s t u : String) :
    addLines (addLines s t) u = addLines s (addLines t u) := by
  by_cases hu : u = ""
  · subst hu
    rfl
  by_cases ht : t = ""
  · subst ht
    rw [addLines_empty, empty_addLines]
  · simp [addLines, ht, hu, gapAfter_append, String.append_assoc]

instance : Std.Associative addLines := ⟨addLines_assoc⟩

/-- Texts **one below the other**. -/
def stacked (ts : List String) : String := ts.foldl addLines ""

/-- Stacked lines are added one by one. -/
theorem addLines_stacked (s : String) (ts : List String) :
    addLines s (stacked ts) = ts.foldl addLines s :=
  foldl_assoc.symm

/-- Adding lines makes a text no shorter. -/
theorem length_le_foldl_addLines (s : String) (ts : List String) :
    s.length ≤ (ts.foldl addLines s).length := by
  rw [← addLines_stacked, addLines]
  split
  · exact Nat.le_refl _
  · simp only [String.length_append]
    omega

/-- A stack is not its first text. -/
theorem stacked_ne (ht : t ≠ "") (ts : List String) : stacked (s :: t :: ts) ≠ s := by
  intro h
  have hlength := length_le_foldl_addLines (addLines s t) ts
  have hstacked : stacked (s :: t :: ts) = ts.foldl addLines (addLines s t) := by
    rw [stacked, foldl_cons, foldl_cons, empty_addLines]
  have hpos : 0 < t.length := by
    rwa [Nat.pos_iff_ne_zero, Ne, String.length_eq_zero_iff]
  rw [← hstacked, h, addLines, if_neg (by simpa using ht)] at hlength
  simp only [String.length_append] at hlength
  omega

/-! ### Merged texts -/

/-- A tree has no more tokens than its list. -/
theorem tokensOf_le_of_mem (hw : w ∈ ws) (hns : nodesOfList ws = .ok ns)
    (hms : nodes w = .ok (some ms)) : tokensOf size ms ≤ tokensOf size ns := by
  induction ws generalizing ns with
  | nil => cases hw
  | cons u ws ih =>
    obtain ⟨here, rest, hhere, hrest, rfl⟩ := exists_of_nodesOfList_cons hns
    rw [tokensOf_append]
    rcases mem_cons.mp hw with rfl | hw
    · cases hms.symm.trans hhere
      exact Nat.le_add_right _ _
    · exact (ih hw hrest).trans (Nat.le_add_left _ _)

/-- Taking over changes text and branches. -/
theorem agreeBut_takeOver (fs : Fields) (vs : List Value) :
    AgreeBut ["nodes", "text"] fs (takeOver fs vs) :=
  (agreeBut_set (by decide) _ _).trans (agreeBut_erase (by decide) _)

/-- Classes and functions **stay** what they are. -/
theorem Thinned.exists_mergeable (h : Thinned size threshold v w)
    (hv : NodeTree (isMergeable · = true) v) : ∃ gs, w = .object gs ∧ isMergeable gs = true := by
  cases hv with
  | @node fs _ hfs _ _ =>
    cases h with
    | kept => exact ⟨_, rfl, (isMergeable_withBranches _ _).trans hfs⟩
    | merged =>
      exact ⟨_, rfl, (isMergeable_congr (agreeBut_takeOver _ _) (by decide)).trans
        ((isMergeable_withBranches _ _).trans hfs)⟩

/-- **The children of a short node are leaves**, for others have enough tokens. -/
theorem children_eq_nil_of_short (hbelow : Forall₂ (Thinned size threshold) vs ws)
    (hall : ∀ v ∈ vs, NodeTree (isMergeable · = true) v) (hvs : Branches fs vs)
    (hns : nodes (.object (withBranches fs ws)) = .ok (some ns))
    (hshort : tokensOf size ns < threshold) : ∀ w ∈ ws, children w = [] := by
  intro w hw
  by_contra hchildren
  obtain ⟨v, hv, hvw⟩ := exists_left_of_forall₂ hbelow w hw
  obtain ⟨gs, rfl, hgs⟩ := hvw.exists_mergeable (hall v hv)
  obtain ⟨ms, hms, henough⟩ := hvw.exists_threshold_le .self hgs hchildren
  obtain ⟨below, hlist, hcons⟩ := bind_eq_ok.mp hns
  cases hcons
  rw [nodesBelow_of_branches (hvs.withBranches hbelow.length_eq)] at hlist
  have hle : tokensOf size ms ≤ tokensOf size below := tokensOf_le_of_mem hw hlist hms
  simp only [tokensOf, foldr_cons] at hle hshort henough
  omega

/-- The stacked texts of branches. -/
theorem exists_foldl_stacked
    (h : Forall₂ (fun v w => ∃ ns, nodes v = .ok (some ns) ∧
      ownText w = stacked (ns.map ownText)) vs ws) :
    ∃ ns, nodesOfList vs = .ok ns ∧
      ∀ s, (ws.map ownText).foldl addLines s = (ns.map ownText).foldl addLines s := by
  induction h with
  | nil => exact ⟨[], rfl, fun _ => rfl⟩
  | cons hvw _ ih =>
    obtain ⟨here, hhere, htext⟩ := hvw
    obtain ⟨rest, hrest, hfold⟩ := ih
    refine ⟨here ++ rest, nodesOfList_cons hhere hrest, fun s => ?_⟩
    rw [map_cons, foldl_cons, htext, addLines_stacked, hfold, map_append,
      foldl_append]

/-- A uniform tree of which a leaf is left has **the texts of all its nodes**, one below the other.
-/
theorem Thinned.exists_stacked (h : Thinned size threshold v w)
    (hv : NodeTree (isMergeable · = true) v) (hleaf : children w = []) :
    ∃ ns, nodes v = .ok (some ns) ∧ ownText w = stacked (ns.map ownText) := by
  induction v using children_induction generalizing w with
  | step v ih =>
    cases hv with
    | @node fs vs hfs hvs hall =>
    cases h with
    | @kept _ _ ws _ hvs' hbelow =>
      cases hvs.unique hvs'
      rw [(hvs.withBranches hbelow.length_eq).children_eq] at hleaf
      subst hleaf
      cases hbelow
      refine ⟨_, nodes_of_branches hvs rfl, ?_⟩
      rw [hvs.withBranches_self]
      exact (empty_addLines _).symm
    | @merged _ _ ws ns hvs' hne hbelow _ hns hshort =>
      cases hvs.unique hvs'
      obtain ⟨below, hlist, hfold⟩ := exists_foldl_stacked
        (forall₂_imp_of_mem (forall₂_and_mem hbelow) fun c hc w hcw =>
          ih c (hvs.children_eq.symm ▸ hc) hcw.1 (hall c hc)
            (children_eq_nil_of_short hbelow hall hvs hns hshort w hcw.2))
      refine ⟨_, nodes_of_branches hvs hlist, ?_⟩
      have hown : ownText (.object (withBranches fs ws)) = ownText (.object fs) := by
        rw [ownText, ownText, Value.field?_object, Value.field?_object,
          agreeBut_withBranches fs ws _ (by decide)]
      rw [ownText, Value.field?_object, get?_text_takeOver, hfold, hown, map_cons, stacked,
        foldl_cons, empty_addLines]

/-! ### Trees of texts -/

/-- A tree with **nothing but classes and functions below classes and functions**. -/
inductive Uniform : Value → Prop
  | mergeable {v : Value} (h : NodeTree (isMergeable · = true) v) : Uniform v
  | other {fs : Fields} {vs : List Value} (hfs : isMergeable fs = false) (hvs : Branches fs vs)
      (hall : ∀ v ∈ vs, Uniform v) : Uniform (.object fs)

/-- Branches of uniform trees are uniform. -/
theorem Uniform.of_branches (h : Uniform (.object fs)) (hvs : Branches fs vs) :
    ∀ v ∈ vs, Uniform v := by
  cases h with
  | mergeable h =>
    cases h with
    | node _ hvs' hall =>
      cases hvs.unique hvs'
      exact fun v hv => .mergeable (hall v hv)
  | other _ hvs' hall =>
    cases hvs.unique hvs'
    exact hall

/-- What becomes of **the texts** when a tree is thinned: a node is kept with its text, or becomes a
leaf with those of all its nodes. -/
inductive Refilled : Value → Value → Prop
  | kept {fs : Fields} {vs ws : List Value} (hvs : Branches fs vs)
      (hbelow : Forall₂ Refilled vs ws) : Refilled (.object fs) (.object (withBranches fs ws))
  | merged {fs gs : Fields} {ns : List Value} (hne : children (.object fs) ≠ [])
      (hns : nodes (.object fs) = .ok (some ns)) (hagree : AgreeBut ["nodes", "text"] fs gs)
      (hnodes : gs.get? "nodes" = none)
      (htext : gs.get? "text" = some (.str (stacked (ns.map ownText)))) :
      Refilled (.object fs) (.object gs)

/-- Thinning refills uniform trees. -/
theorem Thinned.refilled (h : Thinned size threshold v w) (hv : Uniform v) : Refilled v w := by
  induction v using children_induction generalizing w with
  | step v ih =>
    have hthinned := h
    cases h with
    | @kept fs vs ws _ hvs hbelow =>
      exact .kept hvs (forall₂_imp_of_mem hbelow fun c hc w hcw =>
        ih c (hvs.children_eq.symm ▸ hc) hcw (hv.of_branches hvs c hc))
    | @merged fs vs ws _ hvs hne _ hfs =>
      have hleaf := (branches_takeOver (withBranches fs ws) ws).children_eq
      have htree : NodeTree (isMergeable · = true) (.object fs) := by
        cases hv with
        | mergeable h => exact h
        | other hnot => exact absurd hfs (by rw [hnot]; decide)
      obtain ⟨ns, hns, htext⟩ := hthinned.exists_stacked htree hleaf
      refine .merged (hvs.children_eq.symm ▸ hne) hns
        (((agreeBut_withBranches fs ws).mono (by decide)).trans (agreeBut_takeOver _ _))
        (Fields.get?_erase_self _ _) ?_
      rw [← htext, ownText, Value.field?_object, get?_text_takeOver]

/-- A node whose text is **its lines**. -/
def IsLines (lines : List String) (fs : Fields) : Prop :=
  ∃ first last, fs.get? "start_line" = some (.int first) ∧
    fs.get? "end_line" = some (.int last) ∧
    fs.get? "text" = some (.str (Text.join "\n" (Value.sliceList lines (first - 1) last)))

/-- Lines are a text. -/
theorem IsLines.plainText (h : IsLines lines fs) : PlainText fs := by
  obtain ⟨_, _, -, -, htext⟩ := h
  intro x hx
  exact ⟨_, Option.some.inj (hx.symm.trans htext)⟩

/-- Without empty texts, **nothing is merged** where all texts are lines. -/
theorem Refilled.eq_of_isLines (h : Refilled v w) (hv : NodeTree (IsLines lines) v)
    (hw : NodeTree (IsLines lines) w) (hfull : ∀ n, Below n v → ownText n ≠ "") : w = v := by
  induction v using children_induction generalizing w with
  | step v ih =>
    cases hv with
    | @node fs vs hfs hvs hall =>
    cases hw with
    | @node gs us hgs hus hall' =>
    cases h with
    | @kept _ _ ws hvs' hbelow =>
      cases hvs.unique hvs'
      cases hus.unique (hvs.withBranches hbelow.length_eq)
      have heq : Forall₂ Eq vs us := by
        refine forall₂_imp_of_mem (forall₂_and_mem hbelow) fun v hv w hvw => ?_
        have hc := hvs.children_eq.symm ▸ hv
        refine (ih v hc hvw.1 (hall v hv) (hall' w hvw.2) fun n hn => ?_).symm
        exact hfull n ⟨v, hc, hn.within⟩
      rw [forall₂_eq_eq_eq] at heq
      subst heq
      rw [hvs.withBranches_self]
    | merged hne hns hagree _ htext =>
      rw [hvs.children_eq] at hne
      obtain ⟨c, vs, rfl⟩ := exists_cons_of_ne_nil hne
      obtain ⟨first, last, hfirst, hlast, hlines⟩ := hfs
      obtain ⟨first', last', hfirst', hlast', hlines'⟩ := hgs
      rw [hagree _ (by decide), hfirst] at hfirst'
      rw [hagree _ (by decide), hlast] at hlast'
      cases hfirst'
      cases hlast'
      obtain ⟨below, hbelow, hcons⟩ := bind_eq_ok.mp hns
      cases hcons
      rw [nodesBelow_of_branches hvs] at hbelow
      obtain ⟨here, rest, hhere, -, rfl⟩ := exists_of_nodesOfList_cons hbelow
      obtain ⟨inner, hinner, -⟩ := (hall c (.head _)).exists_nodes_below
      cases hhere.symm.trans hinner
      have hc := hfull c ⟨c, hvs.children_eq.symm ▸ (.head _), .self⟩
      have hown : ownText (.object fs) =
          Text.join "\n" (Value.sliceList lines (first - 1) last) := by
        rw [ownText, Value.field?_object, hlines]
      rw [hlines', ← hown, Option.some.injEq, Value.str.injEq] at htext
      exact absurd htext.symm (stacked_ne hc _)

/-! ### Python files -/

/-- A value of a node. -/
theorem mem_values_iff {ns : List Node} : v ∈ Node.values ns ↔ ∃ n ∈ ns, n.value = v := by
  rw [values_eq_map, mem_map]

/-- Python outlines are uniform. -/
theorem uniform_pythonOutline {source : String} {ns : List Node}
    (h : Python.outline source = .ok ns) : ∀ n ∈ ns, Uniform n.value := by
  refine Python.forall_mem_outline (fun run hrun => ?_) (fun s o ho n hn => .mergeable ?_) h
  · cases run with
    | nil => exact forall_mem_nil _
    | cons first rest =>
      refine forall_mem_singleton.mpr
        (.other rfl (.list rfl) fun v hv => ?_)
      obtain ⟨n, hn, rfl⟩ := mem_values_iff.mp hv
      obtain ⟨_, _, _, rfl⟩ := hrun n hn
      exact .other rfl (.list rfl) (forall_mem_nil _)
  · refine Python.definition_induction (P := fun n => NodeTree (isMergeable · = true) n.value)
      (fun title kind first last details children hkind hdetails hchildren => ?_) ho n hn
    refine .node ?_ (branches_value hdetails children) fun v hv => ?_
    · rcases hkind with rfl | rfl | rfl <;> rfl
    · obtain ⟨n, hn, rfl⟩ := mem_values_iff.mp hv
      exact hchildren n hn

/-- Texts do not matter for merging. -/
theorem Texted.isMergeable_eq (h : Texted clipped lines fs gs) :
    isMergeable gs = isMergeable fs := by
  obtain ⟨hs, text, -, hagree, -, rfl⟩ := h
  exact (isMergeable_congr (agreeBut_set (mem_singleton_self "text") hs _) (by decide)).trans
    (isMergeable_congr hagree (by decide))

/-- A uniform tree with texts is uniform. -/
theorem Uniform.of_texted (h : Uniform v) (hw : Parallel (Texted clipped lines) v w) :
    Uniform w := by
  induction h generalizing w with
  | mergeable h =>
    refine .mergeable ((h.parallel_self.comp hw).nodeTree_right ?_)
    rintro fs gs ⟨_, ⟨rfl, hfs⟩, htexted⟩
    exact htexted.isMergeable_eq.trans hfs
  | other hfs hvs _ ih =>
    cases hw with
    | node htexted hvs' hws hbelow =>
      cases hvs.unique hvs'
      refine .other (htexted.isMergeable_eq.trans hfs) hws fun w hw => ?_
      obtain ⟨c, hc, hcw⟩ := exists_left_of_forall₂ hbelow w hw
      exact ih c hc hcw

/-- The text is the lines of the node. -/
theorem Texted.isLines (h : Texted false lines fs gs) (hfs : HasLines fs) : IsLines lines gs := by
  obtain ⟨hs, text, htext, hagree, -, rfl⟩ := h
  obtain ⟨first, last, hfirst, hlast⟩ := hfs
  refine ⟨first, last, ?_, ?_, ?_⟩
  · rw [Fields.get?_set_of_ne _ _ (by decide), hagree _ (by decide), hfirst]
  · rw [Fields.get?_set_of_ne _ _ (by decide), hagree _ (by decide), hlast]
  · have hfirst' : (Value.object fs).field "start_line" = .ok (.int first) :=
      Value.field_eq_ok_iff.mpr hfirst
    have hlast' : (Value.object fs).field "end_line" = .ok (.int last) :=
      Value.field_eq_ok_iff.mpr hlast
    rw [textOf, hfirst', hlast'] at htext
    cases htext
    exact Fields.get?_set_self _ _ _

/-- **The texts in the tree of a Python file** are the lines of its nodes. -/
theorem isLines_pythonFile {around : Surroundings} {path source : String} {session : Session}
    {l l' : Ledger}
    (h : (fileNode around .python path source).Returns session l v l') :
    NodeTree (IsLines (Text.lines source)) v ∧ Uniform v := by
  obtain ⟨nodes, _, hnodes, h⟩ := h.of_bind
  obtain ⟨texts, _, htexts, h⟩ := h.of_bind
  cases h
  obtain ⟨below, rfl, hbelow⟩ := addTexts_list_eq_ok_iff.mp htexts.of_lift
  obtain ⟨ns, _, hns, hnodes⟩ := hnodes.of_bind
  cases hnodes
  have houtline := hns.of_lift
  have hall : ∀ d ∈ below, NodeTree (IsLines (Text.lines source)) d ∧ Uniform d := by
    intro d hd
    obtain ⟨c, hc, hcd⟩ := exists_left_of_forall₂ hbelow d hd
    have htree := nodeTree_of_mem_values (regular_pythonOutline houtline) c hc
    have htexted := parallel_of_addText htree hcd
    constructor
    · refine (htree.parallel_self.comp htexted).nodeTree_right ?_
      rintro fs gs ⟨_, ⟨rfl, hfs⟩, htexted⟩
      exact htexted.isLines hfs.2
    · obtain ⟨n, hn, rfl⟩ := mem_values_iff.mp hc
      exact (uniform_pythonOutline houtline n hn).of_texted htexted
  refine ⟨.node ⟨1, _, rfl, rfl, ?_⟩ (.list rfl) fun d hd => (hall d hd).1,
    .other rfl (.list rfl) fun d hd => (hall d hd).2⟩
  have hslice : Value.sliceList (Text.lines source) (1 - 1) (Text.lines source).length =
      Text.lines source := by
    simp [Value.sliceList, Value.cutPoint]
  rw [hslice]
  exact congrArg (fun s => some (Value.str s)) (Text.join_split source '\n').symm

/-- **Merging repeats lines.** In the tree of a Python file the text of every node is its lines.
However it is thinned, a node is kept with its text, or becomes a leaf with the lines of all nodes
of its tree. If no text is empty, all texts are still the lines of their nodes exactly if nothing is
merged. -/
theorem merging_repeats_lines {count : Value → Except Failure Nat}
    (hcount : ∀ s, count (.str s) = .ok (size s)) (threshold : Int) {around : Surroundings}
    {path source : String} {session : Session} {l l' : Ledger}
    (h : (fileNode around .python path source).Returns session l v l') :
    NodeTree (IsLines (Text.lines source)) v ∧
      ∃ w, thin count (.int threshold) v = .ok w ∧ Thinned size threshold v w ∧ Refilled v w ∧
        ((∀ n, Below n v → ownText n ≠ "") →
          (NodeTree (IsLines (Text.lines source)) w ↔ w = v)) := by
  obtain ⟨hlines, huniform⟩ := isLines_pythonFile h
  obtain ⟨w, hw, hthinned, -⟩ :=
    exists_thinned hcount threshold (hlines.imp fun _ => IsLines.plainText)
  have hrefilled := hthinned.refilled huniform
  exact ⟨hlines, w, hw, hthinned, hrefilled, fun hfull =>
    ⟨fun h => hrefilled.eq_of_isLines hlines h hfull, fun h => h ▸ hlines⟩⟩

/-- A file with a class, in which there is a method, and a function in that. -/
def nestedFile : Run Value :=
  fileNode { files := ⟨"/", .directory []⟩ } .python "a.py" "class A:\n  def f():\n    def g(): 0"

/-- A file that is merged. -/
theorem nested_file_is_refilled :
    ∃ v l' w, nestedFile.Returns (scripted []) {} v l' ∧
      thin (TokenCounter.words.count .null) (.int 100) v = .ok w ∧ Refilled v w := by
  obtain ⟨v, l', hv, -⟩ := @returns_of_map_outcome _ _ (scripted []) {} () nestedFile
    (fun _ => ()) (by decide +kernel)
  obtain ⟨-, w, hw, -, hrefilled, -⟩ :=
    merging_repeats_lines (TokenCounter.count_str .words .null) 100 hv
  exact ⟨v, l', w, hv, hw, hrefilled⟩

/-- The file with everything merged into the class. -/
def mergedFile : Value :=
  .object [("title", .str "a.py"), ("type", .str "file"), ("path", .str "a.py"),
    ("start_line", .int 1), ("end_line", .int 3),
    ("text", .str "class A:\n  def f():\n    def g(): 0"),
    ("nodes", .list [.object [("title", .str "A"), ("type", .str "class"), ("start_line", .int 1),
      ("end_line", .int 3), ("docstring", .null), ("decorators", .list []),
      ("text", .str ("class A:\n  def f():\n    def g(): 0\n" ++
        "  def f():\n    def g(): 0\n    def g(): 0"))]])]

/-- The line of the innermost function is there **three times**. -/
theorem merged_class_repeats_lines :
    (nestedFile.execute (scripted []) {}).1.bind
        (thin (TokenCounter.words.count .null) (.int 100)) = .ok mergedFile ∧
      ¬ NodeTree (IsLines ["class A:", "  def f():", "    def g(): 0"]) mergedFile := by
  refine ⟨by decide +kernel, fun h => ?_⟩
  cases h with
  | node _ hvs hall =>
    cases hvs.unique (.list rfl)
    cases hall _ mem_cons_self with
    | node hclass =>
      obtain ⟨_, _, hfirst, hlast, htext⟩ := hclass
      cases hfirst
      cases hlast
      exact absurd htext (by decide +kernel)

end DocTree.Code
