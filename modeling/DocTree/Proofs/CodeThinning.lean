import DocTree.Code.Thin
import DocTree.Proofs.Parallel
import DocTree.Proofs.TokenCounts

/-!
# Thinning of source trees

Thinning goes from the leaves to the root: a class or function with fewer tokens than the threshold
takes over the texts of its children. A second run sees the same tokens and changes nothing.
-/

namespace DocTree

open List

namespace Outline

variable {fs : Fields} {vs ws : List Value} {f : Value → Except Failure Value} {r : Rebuilder}

/-! ### Nodes with other branches -/

/-- A node with other **branches**. Without the field `nodes` it gets none. -/
def withBranches (fs : Fields) (ws : List Value) : Fields :=
  if (fs.get? "nodes").isSome then fs.set "nodes" (.list ws) else fs

/-- Other branches change one field only. -/
theorem agreeBut_withBranches (fs : Fields) (ws : List Value) :
    AgreeBut ["nodes"] fs (withBranches fs ws) := by
  unfold withBranches
  split
  · exact agreeBut_set (mem_singleton_self _) _ _
  · exact .refl _ _

/-- The branches are replaced. -/
theorem Branches.withBranches (h : Branches fs vs) (hlength : vs.length = ws.length) :
    Branches (withBranches fs ws) ws := by
  cases h with
  | none h =>
    obtain rfl : ws = [] := length_eq_zero_iff.mp hlength.symm
    rw [Outline.withBranches, h]
    exact .none h
  | list h =>
    rw [Outline.withBranches, h]
    exact .list (Fields.get?_set_self _ _ _)

/-- Replacing branches by themselves. -/
theorem Branches.withBranches_self (h : Branches fs vs) : Outline.withBranches fs vs = fs := by
  cases h with
  | none h =>
    rw [Outline.withBranches, h]
    rfl
  | list h =>
    rw [Outline.withBranches, h]
    exact Fields.set_of_get? h

/-- A change of branches replaces them. -/
theorem mapNodes_of_branches (hvs : Branches fs vs) (hf : f (.list vs) = .ok (.list ws)) :
    mapNodes f fs = .ok (withBranches fs ws) := by
  induction hvs using Branches.induction with
  | nil => rfl
  | nodes vs rest =>
    rw [mapNodes, if_pos rfl, hf]
    rfl
  | cons k v rest vs hk _ ih =>
    rw [mapNodes, if_neg hk, ih hf]
    simp only [withBranches, Fields.get?, if_neg hk, Fields.set]
    split <;> rfl

/-- Rebuilding below a node gives it **its branches rebuilt**. -/
theorem rebuildBelow_of_branches (hvs : Branches fs vs)
    (hws : Forall₂ (fun v w => rebuild r v = .ok w) vs ws) :
    rebuildBelow r fs = .ok (withBranches fs ws) := by
  rw [rebuildBelow_eq_mapNodes_rebuildNodes]
  refine mapNodes_of_branches hvs ?_
  unfold rebuildNodes
  split
  · rename_i hempty
    have hnil : vs = [] := by simpa [Value.isTruthy] using (Bool.and_eq_true_iff.mp hempty).2
    subst hnil
    rw [forall₂_nil_left_iff.mp hws]
  · rw [rebuildElements, rebuildList_eq_ok_forall₂.mpr hws]
    rfl

end Outline

namespace Code

open Outline

variable {count : Value → Except Failure Nat} {size : String → Nat} {threshold : Int}
  {fs : Fields} {ns vs ws : List Value} {v w : Value}

/-! ### Texts and tokens -/

/-- The **text** of a node. Without one it is empty. -/
def ownText (v : Value) : String :=
  match v.field? "text" with
  | some (.str s) => s
  | _ => ""

/-- If a node has a text, it is **plain**. -/
def PlainText (fs : Fields) : Prop := ∀ x, fs.get? "text" = some x → ∃ s, x = .str s

/-- A tree whose nodes have plain texts, and are of any type. -/
abbrev CodeTree (v : Value) : Prop := NodeTree PlainText v

/-- The text of a node, or the empty one. -/
theorem PlainText.getD_eq (h : PlainText fs) :
    (fs.get? "text").getD (.str "") = .str (ownText (.object fs)) := by
  rw [ownText, Value.field?_object]
  cases hget : fs.get? "text" with
  | none => rfl
  | some x =>
    obtain ⟨s, rfl⟩ := h x hget
    rfl

/-- The **tokens** of the texts of some nodes. -/
def tokensOf (size : String → Nat) (ns : List Value) : Nat :=
  ns.foldr (fun n total => size (ownText n) + total) 0

/-- The tokens of two parts add up. -/
theorem tokensOf_append (size : String → Nat) (ms ns : List Value) :
    tokensOf size (ms ++ ns) = tokensOf size ms + tokensOf size ns := by
  induction ms with
  | nil => exact (Nat.zero_add _).symm
  | cons m ms ih =>
    simp only [tokensOf, cons_append, foldr_cons] at ih ⊢
    rw [ih, Nat.add_assoc]

/-- The tokens below a node are those of its branches. -/
theorem totalBelow_of_branches (h : Branches fs vs) : totalBelow count fs = totalList count vs := by
  induction h using Branches.induction with
  | nil => rfl
  | nodes vs rest => rw [totalBelow, if_pos rfl, totalElements]
  | cons k v rest vs hk _ ih => rw [totalBelow, if_neg hk, ih]

/-- The tokens of trees are those of their nodes. -/
theorem exists_totalList
    (h : ∀ v ∈ vs, ∃ ns, nodes v = .ok (some ns) ∧ totalTokens count v = .ok (tokensOf size ns)) :
    ∃ ns, nodesOfList vs = .ok ns ∧ totalList count vs = .ok (tokensOf size ns) := by
  induction vs with
  | nil => exact ⟨[], rfl, rfl⟩
  | cons v vs ih =>
    obtain ⟨⟨here, hhere, htotal⟩, hall⟩ := forall_mem_cons.mp h
    obtain ⟨rest, hrest, htotals⟩ := ih hall
    refine ⟨here ++ rest, nodesOfList_cons hhere hrest, ?_⟩
    rw [totalList, htotal, htotals, tokensOf_append]
    rfl

/-- **The tokens of a tree** are those of its nodes in document order. -/
theorem exists_total (hcount : ∀ s, count (.str s) = .ok (size s)) (h : CodeTree v) :
    ∃ ns, nodes v = .ok (some ns) ∧ totalTokens count v = .ok (tokensOf size ns) := by
  induction h with
  | node hfs hvs _ ih =>
    obtain ⟨below, hbelow, htotal⟩ := exists_totalList ih
    refine ⟨_, nodes_of_branches hvs hbelow, ?_⟩
    rw [totalTokens, hfs.getD_eq, hcount, totalBelow_of_branches hvs, htotal]
    rfl

/-! ### Merging -/

/-- What has to stand between a text and the next line. -/
def gapAfter (s : String) : String := if s.isEmpty || Text.endsWith s "\n" then "" else "\n"

/-- A text with another one after it, which **begins on a line of its own**. -/
def addLines (s t : String) : String := if t.isEmpty then s else s ++ gapAfter s ++ t

/-- Texts are put on new lines. -/
theorem appendText_newline (s t : String) :
    appendText "\n" (.str s) (.str t) = .ok (.str (s ++ gapAfter s ++ t)) := by
  have hneeds : needsGap (.str s) = .ok (!(s.isEmpty || Text.endsWith s "\n")) := by
    by_cases hs : s.isEmpty <;> simp [needsGap, Value.isTruthy, hs]
    rfl
  rw [appendText, hneeds, gapAfter]
  cases s.isEmpty || Text.endsWith s "\n"
  · rfl
  · rw [if_pos rfl, String.append_empty]
    rfl

/-- The text of a child is added. -/
theorem appendChild_str (s : String) (h : CodeTree v) :
    appendChild (.str s) v = .ok (.str (addLines s (ownText v))) := by
  cases h with
  | @node fs _ hfs _ _ =>
    rw [appendChild, Value.lookupOr, hfs.getD_eq]
    generalize ownText (.object fs) = t
    change (if !t.isEmpty then _ else _) = _
    rw [addLines, appendText_newline]
    cases t.isEmpty <;> rfl

/-- The texts of all branches are added. -/
theorem mergedText_of_branches (hfs : PlainText fs) (hvs : Branches fs vs)
    (hall : ∀ v ∈ vs, CodeTree v) :
    mergedText fs =
      .ok (.str ((vs.map ownText).foldl addLines (ownText (.object fs)))) := by
  have hchildren : ((fs.get? "nodes").getD (.list [])).elements = .ok vs := by
    cases hvs with
    | none h => rw [h]; rfl
    | list h => rw [h]; rfl
  have hfold : ∀ s, vs.foldlM appendChild (.str s) =
      .ok (.str ((vs.map ownText).foldl addLines s)) := by
    clear hvs hchildren
    induction vs with
    | nil => exact fun s => rfl
    | cons v vs ih =>
      obtain ⟨hv, hall⟩ := forall_mem_cons.mp hall
      intro s
      rw [foldlM_cons, appendChild_str s hv, map_cons, foldl_cons, ← ih hall]
      rfl
  rw [mergedText, hchildren, hfs.getD_eq]
  exact hfold _

/-- A node that has **taken over** the texts of its children. -/
def takeOver (fs : Fields) (vs : List Value) : Fields :=
  Fields.erase
    (fs.set "text" (.str ((vs.map ownText).foldl addLines (ownText (.object fs))))) "nodes"

/-- No branch is left. -/
theorem branches_takeOver (fs : Fields) (vs : List Value) : Branches (takeOver fs vs) [] :=
  .none (Fields.get?_erase_self _ _)

/-- What thinning does **at a node**, whose children are thinned already. -/
theorem exists_thinNode (hcount : ∀ s, count (.str s) = .ok (size s)) (threshold : Int)
    (hfs : PlainText fs) (hvs : Branches fs vs) (hall : ∀ v ∈ vs, CodeTree v) :
    ∃ ns, nodes (.object fs) = .ok (some ns) ∧ thinNode count (.int threshold) fs =
      .ok (if vs ≠ [] ∧ tokensOf size ns < threshold ∧ isMergeable fs = true then takeOver fs vs
        else fs) := by
  obtain ⟨ns, hns, htotal⟩ := exists_total hcount (NodeTree.node hfs hvs hall)
  refine ⟨ns, hns, ?_⟩
  have htruthy : ((fs.get? "nodes").getD .null).isTruthy = !vs.isEmpty := by
    cases hvs with
    | none h => rw [h]; rfl
    | list h => rw [h]; rfl
  have hless : Value.less (.ofNat (tokensOf size ns)) (.int threshold) =
      .ok (decide ((tokensOf size ns : Int) < threshold)) := Value.less_of_int? rfl rfl
  rw [thinNode, htruthy]
  cases vs with
  | nil => rfl
  | cons v vs =>
    rw [if_pos (show (!(v :: vs).isEmpty) = true from rfl)]
    refine bind_ok htotal (bind_ok hless ?_)
    by_cases hmerge : (tokensOf size ns : Int) < threshold ∧ isMergeable fs = true
    · rw [if_pos (by simpa using hmerge), if_pos ⟨cons_ne_nil v vs, hmerge⟩,
        mergedText_of_branches hfs hvs hall]
      rfl
    · rw [if_neg (by simpa using hmerge), if_neg fun h => hmerge h.2]
      rfl

/-! ### Thinning -/

/-- What becomes of a tree when it is **thinned**: a class or function with fewer tokens than the
threshold takes over the texts of its children, and every other node keeps them as they have become.
-/
inductive Thinned (size : String → Nat) (threshold : Int) : Value → Value → Prop
  | kept {fs : Fields} {vs ws ns : List Value} (hvs : Branches fs vs)
      (hbelow : Forall₂ (Thinned size threshold) vs ws)
      (hns : nodes (.object (withBranches fs ws)) = .ok (some ns))
      (hkept : vs = [] ∨ isMergeable fs = false ∨ threshold ≤ tokensOf size ns) :
      Thinned size threshold (.object fs) (.object (withBranches fs ws))
  | merged {fs : Fields} {vs ws ns : List Value} (hvs : Branches fs vs) (hne : vs ≠ [])
      (hbelow : Forall₂ (Thinned size threshold) vs ws) (hfs : isMergeable fs = true)
      (hns : nodes (.object (withBranches fs ws)) = .ok (some ns))
      (hshort : tokensOf size ns < threshold) :
      Thinned size threshold (.object fs) (.object (takeOver (withBranches fs ws) ws))

/-- Only the text matters. -/
theorem PlainText.congr {gs : Fields} (h : PlainText fs)
    (hget : gs.get? "text" = fs.get? "text") : PlainText gs := by
  intro x hx
  exact h x (hget ▸ hx)

/-- Branches do not matter for the text. -/
theorem plainText_withBranches (h : PlainText fs) (ws : List Value) :
    PlainText (withBranches fs ws) :=
  h.congr (agreeBut_withBranches fs ws _ (by decide))

/-- Only the type matters for merging. -/
theorem isMergeable_congr {keys : List String} {gs : Fields} (h : AgreeBut keys fs gs)
    (hkeys : "type" ∉ keys) : isMergeable gs = isMergeable fs := by
  rw [isMergeable, isMergeable, h _ hkeys]

/-- Branches do not matter for merging. -/
theorem isMergeable_withBranches (fs : Fields) (ws : List Value) :
    isMergeable (withBranches fs ws) = isMergeable fs :=
  isMergeable_congr (agreeBut_withBranches fs ws) (by decide)

/-- The text that is taken over. -/
theorem get?_text_takeOver (fs : Fields) (vs : List Value) :
    Fields.get? (takeOver fs vs) "text" =
      some (.str ((vs.map ownText).foldl addLines (ownText (.object fs)))) := by
  rw [takeOver, Fields.get?_erase_of_ne _ (by decide), Fields.get?_set_self]

/-- It is a text. -/
theorem plainText_takeOver (fs : Fields) (vs : List Value) : PlainText (takeOver fs vs) := by
  intro x hx
  rw [get?_text_takeOver] at hx
  exact ⟨_, (Option.some.inj hx).symm⟩

/-- Thinning **from the children to their node**. -/
theorem thin_of_branches {bound : Value} {gs : Fields} (hvs : Branches fs vs)
    (hws : Forall₂ (fun v w => thin count bound v = .ok w) vs ws)
    (hnode : thinNode count bound (withBranches fs ws) = .ok gs) :
    thin count bound (.object fs) = .ok (.object gs) := by
  rw [thin, rebuild, rebuildBelow_of_branches hvs hws]
  change (thinNode _ _ _ >>= _) = _
  rw [hnode]
  rfl

/-- **Every tree can be thinned**, and is again a tree. -/
theorem exists_thinned (hcount : ∀ s, count (.str s) = .ok (size s)) (threshold : Int)
    (h : CodeTree v) :
    ∃ w, thin count (.int threshold) v = .ok w ∧ Thinned size threshold v w ∧ CodeTree w := by
  induction h with
  | @node fs vs hfs hvs _ ih =>
    obtain ⟨ws, hws⟩ := exists_forall₂ ih
    have hall : ∀ w ∈ ws, CodeTree w := fun w hw => by
      obtain ⟨v, -, hvw⟩ := Run.exists_left_of_forall₂ hws w hw
      exact hvw.2.2
    have hbelow := hws.imp fun v w h => h.2.1
    have hbranches := hvs.withBranches hws.length_eq
    have hplain := plainText_withBranches hfs ws
    obtain ⟨ns, hns, hnode⟩ := exists_thinNode hcount threshold hplain hbranches hall
    have hthin := thin_of_branches hvs (hws.imp fun v w h => h.1) hnode
    rw [isMergeable_withBranches] at hthin
    have hempty : ws = [] ↔ vs = [] := by
      rw [← length_eq_zero_iff, ← length_eq_zero_iff, hws.length_eq]
    split at hthin
    · rename_i hmerge
      refine ⟨_, hthin, .merged hvs (mt hempty.mpr hmerge.1) hbelow hmerge.2.2 hns
        hmerge.2.1, ?_⟩
      exact .node (plainText_takeOver _ _) (branches_takeOver _ _) (forall_mem_nil _)
    · rename_i hkeep
      refine ⟨_, hthin, .kept hvs hbelow hns ?_, .node hplain hbranches hall⟩
      grind

/-- A thinned tree **stays as it is**. -/
theorem Thinned.thin_eq (hcount : ∀ s, count (.str s) = .ok (size s))
    (h : Thinned size threshold v w) (hw : CodeTree w) :
    thin count (.int threshold) w = .ok w := by
  induction v using children_induction generalizing w with
  | step v ih =>
    have hthin : ∀ {gs us}, Branches gs us → (∀ u ∈ us, thin count (.int threshold) u = .ok u) →
        thinNode count (.int threshold) gs = .ok gs →
        thin count (.int threshold) (.object gs) = .ok (.object gs) := by
      intro gs us hus hfixed hnode
      exact thin_of_branches hus (forall₂_same.mpr hfixed) (hus.withBranches_self.symm ▸ hnode)
    cases hw with
    | @node gs us hgs hus hall =>
    cases h with
    | @kept fs vs ws ns hvs hbelow hns hkept =>
      have hws := hvs.withBranches hbelow.length_eq
      cases hus.unique hws
      obtain ⟨ns', hns', hnode⟩ := exists_thinNode hcount threshold hgs hws hall
      cases hns.symm.trans hns'
      refine hthin hws (fun w hw => ?_) (hnode.trans (congrArg _ (if_neg ?_)))
      · obtain ⟨c, hc, hcw⟩ := Run.exists_left_of_forall₂ hbelow w hw
        exact ih c (hvs.children_eq.symm ▸ hc) hcw (hall w hw)
      · rw [isMergeable_withBranches]
        have := hbelow.length_eq
        grind
    | merged =>
      cases hus.unique (branches_takeOver _ _)
      obtain ⟨ns, -, hnode⟩ := exists_thinNode hcount threshold hgs hus (forall_mem_nil _)
      exact hthin hus (forall_mem_nil _) (hnode.trans (congrArg _ (if_neg fun h => h.1 rfl)))

/-- A class or function of a thinned tree that has children has **enough tokens**. -/
theorem Thinned.exists_threshold_le (h : Thinned size threshold v w)
    (hn : Within (.object fs) w) (hfs : isMergeable fs = true)
    (hne : children (.object fs) ≠ []) :
    ∃ ns, nodes (.object fs) = .ok (some ns) ∧ threshold ≤ tokensOf size ns := by
  induction v using children_induction generalizing w with
  | step v ih =>
    cases h with
    | @kept gs vs ws ns hvs hbelow hns hkept =>
      have hws := hvs.withBranches hbelow.length_eq
      cases hn with
      | self =>
        rw [hws.children_eq] at hne
        rw [isMergeable_withBranches] at hfs
        have := hbelow.length_eq
        exact ⟨ns, hns, by grind⟩
      | child hc hn =>
        obtain ⟨c, hc', hcw⟩ := Run.exists_left_of_forall₂ hbelow _ (hws.children_eq ▸ hc)
        exact ih c (hvs.children_eq.symm ▸ hc') hcw hn
    | @merged gs vs ws =>
      have hnone := (branches_takeOver (withBranches gs ws) ws).children_eq
      cases hn with
      | self => exact absurd hnone hne
      | child hc => exact absurd hc (hnone ▸ not_mem_nil)

/-- **Thinning is done in one pass.** Every tree can be thinned. A node keeps its children, as they
have become, unless it is a class or function with too few tokens. Afterwards every class or
function with children has enough tokens, and thinning again changes nothing. -/
theorem thinning_settles_in_one_pass (hcount : ∀ s, count (.str s) = .ok (size s))
    (threshold : Int) (h : CodeTree v) :
    ∃ w, thin count (.int threshold) v = .ok w ∧ Thinned size threshold v w ∧
      (∀ fs, Within (.object fs) w → isMergeable fs = true → children (.object fs) ≠ [] →
        ∃ ns, nodes (.object fs) = .ok (some ns) ∧ threshold ≤ tokensOf size ns) ∧
      thin count (.int threshold) w = .ok w := by
  obtain ⟨w, hw, hthinned, htree⟩ := exists_thinned hcount threshold h
  exact ⟨w, hw, hthinned, fun fs => hthinned.exists_threshold_le, hthinned.thin_eq hcount htree⟩

/-- A file without a text, and a class with a method in it. -/
def smallFile : Value :=
  .object [("type", .str "file"), ("nodes", .list [.object [("type", .str "class"),
    ("text", .str "class A"), ("nodes", .list [.object [("text", .str "def f")]])]])]

/-- A file that is thinned once. -/
theorem small_file_settles :
    CodeTree smallFile ∧ ∃ w, thin (TokenCounter.words.count .null) (.int 5) smallFile = .ok w ∧
      w ≠ smallFile ∧ thin (TokenCounter.words.count .null) (.int 5) w = .ok w := by
  have hplain : ∀ {fs s}, Fields.get? fs "text" = some (.str s) → PlainText fs :=
    fun hs x hx => ⟨_, Option.some.inj (hx.symm.trans hs)⟩
  have htree : CodeTree smallFile := by
    refine .node (fun x hx => by cases hx) (.list rfl) (forall_mem_singleton.mpr ?_)
    refine .node (hplain rfl) (.list rfl) (forall_mem_singleton.mpr ?_)
    exact .node (hplain rfl) (.none rfl) (forall_mem_nil _)
  obtain ⟨w, hw, -, -, hagain⟩ :=
    thinning_settles_in_one_pass (TokenCounter.count_str .words .null) 5 htree
  refine ⟨htree, w, hw, ?_, hagain⟩
  rintro rfl
  exact absurd hw (by decide +kernel)

end Code

end DocTree
