import DocTree.Proofs.JavaLines
import DocTree.Proofs.Pieces
import DocTree.Proofs.SourceTree
import Mathlib.Data.List.Pairwise

/-!
# Lines of Java nodes

A method is taken to end on the line after its last statement begins, and a type where the last of
its members does. So nodes are nested by lines, but can reach one line beyond the file.
-/

namespace DocTree

open List

namespace Code

open Outline

/-- A node is **ranged** up to a line: its lines are in order, from one up to that line, and the
nodes below it are ranged up to its last line. -/
inductive Node.Ranged : Int → Node → Prop
  | mk {hi first last : Int} {title : String} {kind : Kind} {details : Fields}
      {children : List Node} (hpos : 1 ≤ first) (horder : first ≤ last) (hhi : last ≤ hi)
      (hchildren : ∀ c ∈ children, Ranged last c) :
      Ranged hi (.mk title kind first last details children)

/-- A tree is **ranged** up to a line. -/
inductive RangedTree : Int → Value → Prop
  | node {hi first last : Int} {fs : Fields} {vs : List Value}
      (hfirst : fs.get? "start_line" = some (.int first))
      (hlast : fs.get? "end_line" = some (.int last)) (hpos : 1 ≤ first)
      (horder : first ≤ last) (hhi : last ≤ hi) (hvs : Branches fs vs)
      (hbelow : ∀ v ∈ vs, RangedTree last v) : RangedTree hi (.object fs)

/-- What it means for a node to be ranged. -/
theorem Node.ranged_mk_iff {hi first last : Int} {title : String} {kind : Kind} {details : Fields}
    {children : List Node} : (Node.mk title kind first last details children).Ranged hi ↔
      1 ≤ first ∧ first ≤ last ∧ last ≤ hi ∧ ∀ c ∈ children, c.Ranged last :=
  ⟨fun h => by cases h with | mk hpos horder hhi hchildren => exact ⟨hpos, horder, hhi, hchildren⟩,
    fun h => .mk h.1 h.2.1 h.2.2.1 h.2.2.2⟩

/-- Its last line is bounded. -/
theorem Node.Ranged.last_le {hi : Int} {n : Node} (h : n.Ranged hi) : n.last ≤ hi := by
  cases h with
  | mk _ _ hhi _ => exact hhi

/-- Its first line is not behind its last. -/
theorem Node.Ranged.first_le {hi : Int} {n : Node} (h : n.Ranged hi) :
    1 ≤ n.first ∧ n.first ≤ n.last := by
  cases h with
  | mk hpos horder _ _ => exact ⟨hpos, horder⟩

/-- The last line is the only bound. -/
theorem Node.Ranged.of_last_le {hi hi' : Int} {n : Node} (h : n.Ranged hi) (hlast : n.last ≤ hi') :
    n.Ranged hi' := by
  cases h with
  | mk hpos horder _ hchildren => exact .mk hpos horder hlast hchildren

/-! ### Nodes and values -/

variable {clipped : Bool} {lines : List String} {hi : Int} {ns : List Node} {ws : List Value}

/-- Trees with texts are ranged as their nodes are. -/
theorem forall_rangedTree_iff
    (h : Forall₂ (fun v w => addText clipped lines v = .ok w) (Node.values ns) ws)
    (hns : ∀ n ∈ ns, ∀ w, addText clipped lines n.value = .ok w →
      (RangedTree hi w ↔ n.Ranged hi)) :
    (∀ w ∈ ws, RangedTree hi w) ↔ ∀ n ∈ ns, n.Ranged hi := by
  induction ns generalizing ws with
  | nil =>
    cases h
    simp
  | cons n rest ih =>
    cases h with
    | cons hw hrest =>
      obtain ⟨hn, hns⟩ := forall_mem_cons.mp hns
      rw [forall_mem_cons, forall_mem_cons, hn _ hw, ih hrest hns]

/-- **A node with its text** is ranged as the node is. -/
theorem rangedTree_iff {n : Node} (hn : n.Regular) {w : Value}
    (hw : addText clipped lines n.value = .ok w) : RangedTree hi w ↔ n.Ranged hi := by
  induction hn generalizing w hi with
  | @mk title kind first last details children hdetails _ ih =>
    obtain ⟨text, -, hw⟩ := bind_eq_ok.mp hw
    obtain ⟨hs, hhs, hw⟩ := bind_eq_ok.mp hw
    cases hw
    rw [addTextBelow_eq_mapNodes] at hhs
    obtain ⟨ws, hws, hbelow, hagree, -⟩ := exists_of_mapNodes addTexts_list_eq_ok_iff.mp
      (branches_value hdetails children) hhs
    have hget : ∀ key, "text" ≠ key → key ∉ ["nodes"] →
        Fields.get? (Fields.set hs "text" (.str text)) key =
          Fields.get? (Node.ownFields title kind first last details ++ [_]) key :=
      fun key htext hnodes => (Fields.get?_set_of_ne _ _ htext).trans (hagree key hnodes)
    have hfirst := hget "start_line" (by decide) (by decide)
    have hlast := hget "end_line" (by decide) (by decide)
    have hbranches : Branches (Fields.set hs "text" (.str text)) ws :=
      hws.congr (Fields.get?_set_of_ne _ _ (by decide))
    have hiff : (∀ w ∈ ws, RangedTree last w) ↔ ∀ c ∈ children, c.Ranged last :=
      forall_rangedTree_iff hbelow fun c hc w => ih c hc
    rw [Node.ranged_mk_iff]
    constructor
    · intro h
      cases h with
      | node hfirst' hlast' hpos horder hhi hvs hbelow' =>
        cases hfirst'.symm.trans hfirst
        cases hlast'.symm.trans hlast
        cases hvs.unique hbranches
        exact ⟨hpos, horder, hhi, hiff.mp hbelow'⟩
    · rintro ⟨hpos, horder, hhi, hchildren⟩
      exact .node hfirst hlast hpos horder hhi hbranches (hiff.mpr hchildren)

end Code

namespace Java

open Code Outline

variable {hi : Nat} {b : Int} {about : About} {d : Declaration}

/-! ### Declarations -/

/-- A bound of the last line of members. -/
theorem foldl_max_le_iff (children : List Node) (start : Int) :
    children.foldl (fun last child => max last child.last) start ≤ b ↔
      start ≤ b ∧ ∀ c ∈ children, c.last ≤ b := by
  induction children generalizing start with
  | nil => simp
  | cons c rest ih => rw [foldl_cons, ih, Int.max_le, forall_mem_cons, and_assoc]

/-- A type is ranged as soon as it begins in range and **its children are ranged**. -/
theorem ranged_typeNode (kind : TypeKind) (name : String) (children : List Node) :
    (typeNode kind name about children).Ranged b ↔
      1 ≤ about.line ∧ (about.line : Int) ≤ b ∧ ∀ c ∈ children, c.Ranged b := by
  obtain ⟨hself, hlasts⟩ := (foldl_max_le_iff children (about.line : Int)).mp (Int.le_refl _)
  rw [typeNode, Node.ranged_mk_iff, foldl_max_le_iff]
  constructor
  · rintro ⟨hpos, -, ⟨hhi, hbounds⟩, hchildren⟩
    exact ⟨by omega, hhi, fun c hc => (hchildren c hc).of_last_le (hbounds c hc)⟩
  · rintro ⟨hpos, hhi, hchildren⟩
    exact ⟨by omega, hself, ⟨hhi, fun c hc => (hchildren c hc).last_le⟩, fun c hc =>
      (hchildren c hc).of_last_le (hlasts c hc)⟩

mutual

/-- The lines on which the **last statements** begin of the methods that are shown. -/
def lastLines : Declaration → List Nat
  | .type .enumType _ _ _ => []
  | .type _ _ _ members => lastLinesAll members
  | .method m _ => m.lastLine.toList
  | .other => []

def lastLinesAll : List Declaration → List Nat
  | [] => []
  | d :: rest => lastLines d ++ lastLinesAll rest

end

/-- **Which bounds** the lines of a declaration have: those of the lines that come after last
statements. -/
def BoundedByLast (hi : Nat) (lasts : List Nat) (ns : List Node) : Prop :=
  (∀ l ∈ lasts, l ≤ hi) ∧
    ∀ b : Int, hi ≤ b → ((∀ n ∈ ns, n.Ranged b) ↔ ∀ l ∈ lasts, (l : Int) + 1 ≤ b)

/-- Bounds of two parts. -/
theorem BoundedByLast.append {ls ms : List Nat} {ns os : List Node} (h : BoundedByLast hi ls ns)
    (h' : BoundedByLast hi ms os) : BoundedByLast hi (ls ++ ms) (ns ++ os) := by
  refine ⟨forall_mem_append.mpr ⟨h.1, h'.1⟩, fun b hb => ?_⟩
  rw [forall_mem_append, forall_mem_append, h.2 b hb, h'.2 b hb]

/-- Bounds of members. -/
theorem boundedByLast_members {ds : List Declaration}
    (h : ∀ d ∈ ds, BoundedByLast hi (lastLines d) (memberNode d)) :
    BoundedByLast hi (lastLinesAll ds) (memberNodes ds) := by
  induction ds with
  | nil => exact ⟨forall_mem_nil _, fun _ _ => by simp [memberNodes, lastLinesAll]⟩
  | cons d rest ih =>
    obtain ⟨hd, hrest⟩ := forall_mem_cons.mp h
    rw [lastLinesAll, memberNodes]
    exact hd.append (ih hrest)

/-- The nodes of a declaration that fits. -/
theorem ranged_memberNode (h : d.Fits hi) : BoundedByLast hi (lastLines d) (memberNode d) := by
  induction h with
  | @type kind name about members hline _ ih =>
    obtain ⟨hpos, hhi⟩ := hline
    have hmembers := boundedByLast_members ih
    cases kind with
    | enumType =>
      refine ⟨forall_mem_nil _, fun b hb => ?_⟩
      rw [memberNode, forall_mem_singleton, ranged_typeNode, lastLines]
      simp
      omega
    | _ =>
      rw [lastLines, memberNode]
      · refine ⟨hmembers.1, fun b hb => ?_⟩
        rw [forall_mem_singleton, ranged_typeNode, hmembers.2 b hb]
        exact ⟨fun h => h.2.2, fun h => ⟨hpos, by omega, h⟩⟩
      · exact TypeKind.noConfusion
      · exact TypeKind.noConfusion
  | @method m about hline hlast =>
    obtain ⟨hpos, hhi⟩ := hline
    refine ⟨fun line hline => (hlast line (Option.mem_toList.mp hline)).2, fun b hb => ?_⟩
    rw [memberNode, forall_mem_singleton, methodNode, Node.ranged_mk_iff, lastLines,
      Method.endLine]
    cases hline : m.lastLine with
    | none => simp; omega
    | some line =>
      obtain ⟨hfirst, -⟩ := hlast line hline
      simp; omega
  | other => exact ⟨forall_mem_nil _, fun _ _ => by simp [memberNode, lastLines]⟩

/-! ### Files -/

/-- A group of imports is ranged as its imports are, if these are **in order**. -/
theorem ranged_importGroup {ns : List Node} (hsorted : ns.Pairwise fun m n => m.last ≤ n.last)
    (h : ∀ n ∈ ns, n.Ranged b) : ∀ n ∈ importGroup ns, n.Ranged b := by
  cases ns with
  | nil => exact forall_mem_nil _
  | cons n rest =>
    have hlast : rest.getLast?.getD n = (n :: rest).getLast (cons_ne_nil n rest) := by
      cases rest using List.reverseRecOn <;> simp
    have hmax : ∀ m ∈ n :: rest, m.last ≤ ((n :: rest).getLast (cons_ne_nil n rest)).last :=
      fun m hm => hsorted.rel_getLast_of_rel_getLast_getLast hm (Int.le_refl _)
    obtain ⟨hpos, horder⟩ := (h n (.head _)).first_le
    rw [importGroup, forall_mem_singleton, hlast]
    exact .mk hpos (Int.le_trans horder (hmax n (.head _)))
      (h _ (getLast_mem _)).last_le fun m hm => (h m hm).of_last_le (hmax m hm)

/-- The nodes of a file are bounded as **its last statements** are. -/
theorem boundedByLast_outlineOf {f : File} (h : f.Fits hi) :
    BoundedByLast hi (lastLinesAll f.types) (outlineOf f) := by
  change BoundedByLast hi ([] ++ lastLinesAll f.types) (_ ++ memberNodes f.types)
  refine BoundedByLast.append ⟨forall_mem_nil _, fun b hb => ?_⟩
    (boundedByLast_members fun d hd => ranged_memberNode (h.types d hd))
  refine iff_of_true (ranged_importGroup (pairwise_map.mpr (h.sorted.imp ?_)) ?_)
    (forall_mem_nil _)
  · exact Int.ofNat_le.mpr
  · refine forall_mem_map.mpr fun i hi => ?_
    obtain ⟨hpos, hle⟩ := h.between i hi
    exact .mk (by omega) (Int.le_refl _) (by omega) (forall_mem_nil _)

/-- The tree of a file is ranged as **the nodes of its outline** are. -/
theorem exists_fileNode_of_read {around : Surroundings} {source : String} {f : File}
    (h : around.readJava source = .ok f) (path : String) (session : Session) (l : Ledger) :
    ∃ v, (fileNode around .java path source).Returns session l v l ∧
      (∀ b, (∀ c ∈ children v, RangedTree b c) ↔ ∀ n ∈ outlineOf f, n.Ranged b) ∧
      (RangedTree (Text.lines source).length v ↔
        ∀ n ∈ outlineOf f, n.Ranged (Text.lines source).length) := by
  have hregular := regular_javaOutline (outline_of_read h)
  have houtline : (Code.outline around .java path source).Returns session l
      (Node.values (outlineOf f)) l :=
    Run.Returns.bind (Run.returns_lift (outline_of_read h)) rfl
  obtain ⟨v, hv⟩ := exists_fileNode houtline (nodeTree_of_mem_values hregular)
  obtain ⟨nodes, _, hnodes, hrest⟩ := hv.of_bind
  obtain ⟨texts, _, htexts, hrest⟩ := hrest.of_bind
  cases hrest
  obtain ⟨rfl, -⟩ := hnodes.unique houtline
  obtain ⟨below, rfl, hbelow⟩ := addTexts_list_eq_ok_iff.mp htexts.of_lift
  have hiff : ∀ b, (∀ c ∈ below, RangedTree b c) ↔ ∀ n ∈ outlineOf f, n.Ranged b :=
    fun b => forall_rangedTree_iff hbelow fun n hn w hw => rangedTree_iff (hregular n hn) hw
  refine ⟨_, hv, hiff, ?_⟩
  rw [← hiff]
  constructor
  · intro htree
    cases htree with
    | node _ hlast _ _ _ hvs hbelow =>
      cases hlast
      cases hvs.unique (.list rfl)
      exact hbelow
  · intro hbelow
    have hsome : 0 < (Text.lines source).length :=
      length_pos_iff.mpr fun hnil => Text.splitAtChar_ne_nil _ _ (map_eq_nil_iff.mp hnil)
    exact .node rfl rfl (Int.le_refl 1) (by omega) (Int.le_refl _) (.list rfl) hbelow

/-- **Nodes reach past the end of their file**, whatever reads it. The tree of what is read as a
file, and fits the lines of the text, is nested by its lines, up to one line beyond the last. It
keeps to the lines exactly if no method that is shown has its last statement on the last line. What
`readFile` reads fits if its tokens do. -/
theorem ranges_reach_past_end (source : String) :
    (∀ f, readFile source = .ok f →
      (∀ line ∈ tokenLines source, line ≤ (Text.lines source).length) →
      f.Fits (Text.lines source).length) ∧
    ∀ (around : Surroundings) (f : File), around.readJava source = .ok f →
      f.Fits (Text.lines source).length → ∀ path session l,
      ∃ v, (fileNode around .java path source).Returns session l v l ∧
        (∀ c ∈ children v, RangedTree ((Text.lines source).length + 1) c) ∧
        (RangedTree (Text.lines source).length v ↔
          (Text.lines source).length ∉ lastLinesAll f.types) := by
  refine ⟨fun f => fits_of_readFile, fun around f h hfits path session l => ?_⟩
  obtain ⟨hle, hbounded⟩ := boundedByLast_outlineOf hfits
  obtain ⟨v, hv, hbelow, htree⟩ := exists_fileNode_of_read h path session l
  refine ⟨v, hv, (hbelow _).mpr ((hbounded _ (by omega)).mpr fun l₁ hl => ?_), ?_⟩
  · have := hle l₁ hl
    omega
  · rw [htree, hbounded _ (Int.le_refl _)]
    constructor
    · intro hlast hmem
      have := hlast _ hmem
      omega
    · intro hnot l₁ hl
      have := hle l₁ hl
      have : l₁ ≠ (Text.lines source).length := fun heq => hnot (heq ▸ hl)
      omega

/-- A class with a method, on several lines. -/
def laidOutSource : String := "class A \x7b\n  void f() \x7b\n    g();\n  \x7d\n\x7d"

/-- The class on several lines **keeps to the lines** of its file. -/
theorem laid_out_class_keeps_to_file : ∃ f, readFile laidOutSource = .ok f ∧
    (∀ line ∈ tokenLines laidOutSource, line ≤ 5) ∧ f.Fits 5 ∧ lastLinesAll f.types = [3] ∧
    ∀ around : Surroundings, around.readJava = readFile → ∀ path session l, ∃ v,
      (fileNode around .java path laidOutSource).Returns session l v l ∧
      RangedTree 5 v := by
  have hlines : ∀ line ∈ tokenLines laidOutSource, line ≤ 5 := by decide +kernel
  have hlasts : (fun f => lastLinesAll f.types) <$> readFile laidOutSource = .ok [3] := by
    decide +kernel
  obtain ⟨f, hf, heq⟩ := map_eq_ok_iff.mp hlasts
  obtain ⟨hread, hranges⟩ := ranges_reach_past_end laidOutSource
  have hfits := hread f hf hlines
  refine ⟨f, hf, hlines, hfits, heq.symm, fun around hreader path session l => ?_⟩
  obtain ⟨v, hv, -, hiff⟩ := hranges around f (hreader ▸ hf) hfits path session l
  exact ⟨v, hv, hiff.mpr (heq ▸ show (5 : Nat) ∉ [3] by decide)⟩

/-- The same class on one line. -/
def oneLineSource : String := "class A \x7b void f() \x7b g(); \x7d \x7d"

/-- The class on one line **ends on the second line** of its file. -/
theorem one_line_class_reaches_past_end : ∃ f, readFile oneLineSource = .ok f ∧
    (∀ line ∈ tokenLines oneLineSource, line ≤ 1) ∧ (Text.lines oneLineSource).length = 1 ∧
    (outlineOf f).map Node.last = [2] ∧ ∀ around : Surroundings, around.readJava = readFile →
      ∀ path session l, ∃ v,
        (fileNode around .java path oneLineSource).Returns session l v l ∧
        ¬ RangedTree (Text.lines oneLineSource).length v := by
  have hlasts : (fun f => (outlineOf f).map Node.last) <$> readFile oneLineSource = .ok [2] := by
    decide +kernel
  obtain ⟨f, hf, heq⟩ := map_eq_ok_iff.mp hlasts
  refine ⟨f, hf, by decide +kernel, by decide +kernel, heq.symm,
    fun around hreader path session l => ?_⟩
  obtain ⟨v, hv, -, hiff⟩ := exists_fileNode_of_read (hreader ▸ hf) path session l
  refine ⟨v, hv, fun htree => ?_⟩
  have hle : ∀ last ∈ (outlineOf f).map Node.last, last ≤ (1 : Int) :=
    forall_mem_map.mpr fun n hn => (hiff.mp htree n hn).last_le
  rw [← heq] at hle
  exact absurd (hle 2 mem_cons_self) (by decide)

end Java

end DocTree
