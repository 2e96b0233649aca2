import DocTree.Proofs.Split
import DocTree.Proofs.Steady
import DocTree.Proofs.Walk
import Mathlib.Logic.Function.Iterate
import Mathlib.Logic.Relation

/-!
# Splitting to a sufficient depth

Large nodes are split to a given depth. From some depth on, a greater one makes no difference if
there is an end to the nodes that come up. A section that comes up again below itself does so for
ever.
-/

namespace DocTree.Outline

open Run Value List

variable {counter : TokenCounter} {settings : Settings} {pages : List Page} {session : Session}
  {l l' : Ledger} {count : Nat} {v v' w c d title first stop : Value}

/-! ### The sections of a large node -/

/-- The entries for the sections of a node, which depend on **its pages only**. -/
def sectionEntries (counter : TokenCounter) (settings : Settings) (pages : List Page)
    (first stop : Value) : Run (List Value) := do
  let own ← ownPages pages (.object [("start_index", first), ("end_index", stop)])
  let start ← first.integer
  let entries ←
    Contents.build counter settings {} { pages := own, first := start } Contents.Mode.plain
  let marked ← Contents.markStarts (← settings.get "model") pages (.list entries)
  Contents.placed marked

/-- The entries without one for a node of a title. -/
def withoutOwn (title : Value) : List Value → Except Failure (List Value)
  | [] => .ok []
  | first :: rest => do
    return if ← sameTitle (.object [("title", title)]) first then rest else first :: rest

/-- A large node has pages. -/
theorem exists_pages_of_isLarge (h : IsLarge settings pages v) :
    ∃ first stop, v.field? "start_index" = some first ∧ v.field? "end_index" = some stop := by
  obtain ⟨own, hown, -⟩ := bind_eq_ok.mp h
  obtain ⟨first, hfirst, hown⟩ := bind_eq_ok.mp hown
  obtain ⟨before, -, hown⟩ := bind_eq_ok.mp hown
  obtain ⟨stop, hstop, -⟩ := bind_eq_ok.mp hown
  exact ⟨first, stop, field_eq_ok_iff.mp hfirst, field_eq_ok_iff.mp hstop⟩

/-- A large node is announced and split. -/
theorem splitIfLarge_of_isLarge (h : IsLarge settings pages v) :
    splitIfLarge counter settings pages v = (do
      announceLarge pages v
      splitNode counter settings pages v) := by
  rw [splitIfLarge, h, lift_ok_bind, if_pos rfl]

/-- **What a node is split into** depends on its title and its pages. -/
theorem splitNode_eq (htitle : v.field? "title" = some title)
    (hfirst : v.field? "start_index" = some first) (hstop : v.field? "end_index" = some stop) :
    splitNode counter settings pages v = (do
      let entries ← sectionEntries counter settings pages first stop
      let entries ← withoutOwn title entries
      withSections v entries) := by
  have hown : ownPages pages v =
      ownPages pages (.object [("start_index", first), ("end_index", stop)]) := by
    rw [ownPages, field_eq_ok_iff.mpr hfirst, field_eq_ok_iff.mpr hstop]
    rfl
  have hsame : sameTitle v = sameTitle (.object [("title", title)]) := by
    funext entry
    rw [sameTitle, field_eq_ok_iff.mpr htitle]
    rfl
  rw [splitNode, sectionEntries, hown, hsame, field_eq_ok_iff.mpr hfirst]
  simp only [bind_assoc, lift_ok_bind]
  refine bind_congr fun own => bind_congr fun start => bind_congr fun entries =>
    bind_congr fun model => bind_congr fun marked => bind_congr fun placed => ?_
  cases placed with
  | nil => rfl
  | cons entry rest =>
    rw [withoutOwn]
    dsimp only
    cases sameTitle (.object [("title", title)]) entry <;> rfl

/-! ### Splitting with a model that keeps nothing in mind -/

section

variable (h : session.model.Stateless)
include h

/-- The entries of a section are steady. -/
theorem steady_sectionEntries :
    Steady session (sectionEntries counter settings pages first stop) := by
  refine steady_bind (steady_lift _) fun own => steady_bind (steady_lift _) fun start =>
    steady_bind (Contents.steady_build h _ _ _ _) fun entries =>
    steady_bind (steady_lift _) fun model => ?_
  exact steady_bind (Contents.steady_markStarts h _ _ _) fun marked => steady_lift _

/-- The entries of a section are not found **without a request**. -/
theorem busy_sectionEntries : Busy session (sectionEntries counter settings pages first stop) := by
  refine (steady_lift _).bind_busy fun own => (steady_lift _).bind_busy fun start =>
    (Contents.busy_build h _ _ _ _).bind fun entries => steady_bind (steady_lift _) fun model => ?_
  exact steady_bind (Contents.steady_markStarts h _ _ _) fun marked => steady_lift _

end

/-- A large node is announced by its title, without a request. -/
theorem exists_title_of_announceLarge {u : Unit}
    (h : (announceLarge pages v).Returns session l u l') :
    (∃ title, v.field? "title" = some title) ∧ l'.requests = l.requests := by
  obtain ⟨title, _, htitle, hfields⟩ := h.of_bind
  obtain ⟨first, _, hfirst, hlast⟩ := hfields.of_bind
  obtain ⟨stop, _, hstop, hpages⟩ := hlast.of_bind
  obtain ⟨own, _, hown, hprint⟩ := hpages.of_bind
  rw [returns_lift_iff] at htitle hfirst hstop hown
  refine ⟨⟨title, field_eq_ok_iff.mp htitle.1⟩, ?_⟩
  rw [← htitle.2, ← hfirst.2, ← hstop.2, ← hown.2]
  cases hprint
  rfl

/-- **How a large node is split**: it is divided among the entries found for its pages. -/
theorem exists_entries_of_isLarge (hlarge : IsLarge settings pages v)
    (hw : (splitIfLarge counter settings pages v).Returns session l w l') :
    ∃ title first stop entries own between, v.field? "title" = some title ∧
      v.field? "start_index" = some first ∧ v.field? "end_index" = some stop ∧
      between.requests = l.requests ∧
      (sectionEntries counter settings pages first stop).Returns session between entries l' ∧
      withoutOwn title entries = .ok own ∧ withSections v own = .ok w := by
  rw [splitIfLarge_of_isLarge hlarge] at hw
  obtain ⟨_, between, hannounce, hw⟩ := hw.of_bind
  obtain ⟨⟨title, htitle⟩, hbetween⟩ := exists_title_of_announceLarge hannounce
  obtain ⟨first, stop, hfirst, hstop⟩ := exists_pages_of_isLarge hlarge
  rw [splitNode_eq htitle hfirst hstop] at hw
  obtain ⟨entries, _, hentries, hrest⟩ := hw.of_bind
  obtain ⟨own, _, hown, hsections⟩ := hrest.of_bind
  rw [returns_lift_iff] at hown hsections
  rw [← hown.2, ← hsections.2] at hentries
  exact ⟨title, first, stop, entries, own, between, htitle, hfirst, hstop, hbetween, hentries,
    hown.1, hsections.1⟩

/-- What is left of the entries is all of them, or all but the first. -/
theorem eq_or_eq_tail_of_withoutOwn {entries own : List Value}
    (h : withoutOwn title entries = .ok own) : own = entries ∨ own = entries.tail := by
  cases entries with
  | nil =>
    cases h
    exact .inl rfl
  | cons first rest =>
    obtain ⟨isOwn, -, h⟩ := bind_eq_ok.mp h
    cases isOwn with
    | true => exact .inr (Except.ok.inj h).symm
    | false => exact .inl (Except.ok.inj h).symm

/-! ### What comes next -/

variable (counter settings pages session) in
/-- A node comes **next** after another one: splitting goes on with it, below that one. -/
def Next (v c : Value) : Prop :=
  ∃ l w l', (splitIfLarge counter settings pages v).Returns session l w l' ∧
    c ∈ children w

/-- A node with a child has a list of them. -/
theorem field?_nodes_of_mem_children (h : c ∈ children w) :
    w.field? "nodes" = some (.list (children w)) := by
  unfold children at h ⊢
  split at h
  · rename_i items hitems
    rw [hitems]
  · cases h

/-- Two nodes stand for **the same section**: they have the same title and the same pages. -/
structure SameSection (v v' : Value) : Prop where
  title : v'.field? "title" = v.field? "title"
  first : v'.field? "start_index" = v.field? "start_index"
  last : v'.field? "end_index" = v.field? "end_index"

/-- The same section is large. -/
theorem isLarge_of_sameSection (h : SameSection v v') (hlarge : IsLarge settings pages v) :
    IsLarge settings pages v' := by
  obtain ⟨first, stop, hfirst, hstop⟩ := exists_pages_of_isLarge hlarge
  have hfields : ∀ {u : Value}, u.field? "start_index" = some first →
      u.field? "end_index" = some stop → isLarge settings pages u =
        isLarge settings pages (.object [("start_index", first), ("end_index", stop)]) := by
    intro u hfirst hstop
    rw [isLarge, ownPages, field_eq_ok_iff.mpr hfirst, field_eq_ok_iff.mpr hstop]
    rfl
  rw [IsLarge, hfields (h.first.trans hfirst) (h.last.trans hstop), ← hfields hfirst hstop]
  exact hlarge

/-- The same section is announced alike. -/
theorem announceLarge_of_sameSection (h : SameSection v v') (htitle : v.field? "title" = some title)
    (hfirst : v.field? "start_index" = some first) (hstop : v.field? "end_index" = some stop) :
    announceLarge pages v' = announceLarge pages v := by
  rw [announceLarge, announceLarge, ownPages, ownPages,
    field_eq_ok_iff.mpr htitle, field_eq_ok_iff.mpr hfirst,
    field_eq_ok_iff.mpr hstop, field_eq_ok_iff.mpr (h.title.trans htitle),
    field_eq_ok_iff.mpr (h.first.trans hfirst),
    field_eq_ok_iff.mpr (h.last.trans hstop)]

/-- A node with the same end is divided in the same way. -/
theorem exists_withSections_of_same_end {entries : List Value} (h : withSections v entries = .ok w)
    (hend : v'.field? "end_index" = v.field? "end_index") :
    ∃ w', withSections v' entries = .ok w' ∧ children w' = children w := by
  obtain ⟨stop, hstop, h⟩ := bind_eq_ok.mp h
  obtain ⟨⟨sections, ranged⟩, hsections, h⟩ := bind_eq_ok.mp h
  obtain ⟨rs, roots, -, rfl, -, rfl⟩ := exists_of_ofContents hsections
  obtain ⟨_, hset, h⟩ := bind_eq_ok.mp h
  obtain ⟨fs, rfl, rfl⟩ := setField_eq_ok_iff.mp hset
  obtain ⟨fs', rfl, hstop'⟩ :=
    exists_object_of_field? (hend.trans (field_eq_ok_iff.mp hstop))
  have hstop' : (Value.object fs').field "end_index" = .ok stop := field_eq_ok_iff.mpr hstop'
  have hset' : (Value.object fs').setField "nodes" (.list roots) =
    .ok (.object (Fields.set fs' "nodes" (.list roots))) := rfl
  have hchildren : ∀ gs : Fields, gs.get? "nodes" = some (.list roots) →
      children (.object gs) = roots := fun gs hgs => children_of_field? (v := .object gs) hgs
  cases rs with
  | nil =>
    cases h
    refine ⟨_, bind_ok hstop' (bind_ok hsections (bind_ok hset' rfl)), ?_⟩
    rw [hchildren _ (Fields.get?_set_self _ _ _), hchildren _ (Fields.get?_set_self _ _ _)]
  | cons r rs =>
    obtain ⟨start, hstart, h⟩ := bind_eq_ok.mp h
    cases h
    refine ⟨_, bind_ok hstop' (bind_ok hsections (bind_ok hset' (bind_ok hstart rfl))), ?_⟩
    rw [hchildren, hchildren] <;>
      rw [Fields.get?_set_of_ne _ _ (by decide), Fields.get?_set_self]

/-- **What comes next after a large node** depends on its title and its pages only. -/
theorem Next.of_sameSection (hlarge : IsLarge settings pages v) (hsame : SameSection v v')
    (h : Next counter settings pages session v c) : Next counter settings pages session v' c := by
  obtain ⟨l, w, l', hw, hc⟩ := h
  obtain ⟨title, first, stop, entries, own, -, htitle, hfirst, hstop, -, -, -, -⟩ :=
    exists_entries_of_isLarge hlarge hw
  have hfollows : Follows (fun w w' => children w' = children w)
      (splitIfLarge counter settings pages v) (splitIfLarge counter settings pages v') := by
    rw [splitIfLarge_of_isLarge hlarge,
      splitIfLarge_of_isLarge (isLarge_of_sameSection hsame hlarge),
      announceLarge_of_sameSection hsame htitle hfirst hstop, splitNode_eq htitle hfirst hstop,
      splitNode_eq (hsame.title.trans htitle) (hsame.first.trans hfirst) (hsame.last.trans hstop)]
    refine follows_bind_self fun _ => follows_bind_self fun entries =>
      follows_bind_self fun own => ?_
    exact follows_lift fun w hw => exists_withSections_of_same_end hw hsame.last
  obtain ⟨w', hw', hchildren⟩ := hfollows _ _ _ _ hw
  exact ⟨l, w', l', hw', hchildren ▸ hc⟩

/-! ### Enough levels -/

/-- A text is no node. -/
theorem not_returns_splitIfLarge_str {text : String} :
    ¬ (splitIfLarge counter settings pages (.str text)).Returns session l w l' := by
  intro h
  obtain ⟨large, l₁, hlarge, -⟩ := h.of_bind
  cases hlarge.of_lift

/-- Splitting goes on with the children of a node, and with texts. -/
theorem mem_children_or_str {below : Value} {items : List Value}
    (hbelow : w.lookup "nodes" = .ok below) (hitems : below.elements = .ok items) (hc : c ∈ items) :
    c ∈ children w ∨ ∃ text, c = .str text := by
  obtain ⟨fs, rfl, rfl⟩ := lookup_eq_ok_iff.mp hbelow
  by_cases hlist : ∃ cs, (Fields.get? fs "nodes").getD .null = .list cs
  · obtain ⟨cs, hcs⟩ := hlist
    rw [hcs] at hitems
    cases hitems
    refine .inl ((children_of_field? ?_).symm ▸ hc)
    cases hget : Fields.get? fs "nodes" with
    | none =>
      rw [hget] at hcs
      cases hcs
    | some below =>
      rw [hget] at hcs
      exact hget.trans (congrArg some hcs)
  · exact .inr (exists_str_of_elements (fun cs hcs => hlist ⟨cs, hcs⟩) hitems c hc)

section

variable (counter settings pages session)

/-- **One level** of splitting: a node is split if it is large, and something is done to what is
then below it. -/
def splitLevel (below : Value → Run Value) (v : Value) : Run Value := do
  let w ← splitIfLarge counter settings pages v
  let nodes ← w.lookup "nodes"
  if !nodes.isTruthy then return w
  let nodes ← together ((← nodes.elements).map below)
  w.setField "nodes" (.list nodes)

/-- A number of levels is **enough** for a node: splitting ends within them, whatever would be done
below. -/
def Enough (levels : Nat) (v : Value) : Prop :=
  ∀ below, SameIn session ((splitLevel counter settings pages)^[levels] below v)
    (splitLarge counter settings pages levels v)

/-- Splitting a node **settles**: it ends within some levels, with the same outcome and requests
whatever would be done below. -/
def Settles (l : Ledger) (v : Value) : Prop :=
  ∃ levels, ∀ below, ((splitLevel counter settings pages)^[levels] below v).execute session l =
    (splitLarge counter settings pages levels v).execute session l

/-- Splitting to a depth is **level after level**, with a failure below the last one. -/
theorem splitLarge_eq_iterate (levels : Nat) :
    splitLarge counter settings pages levels =
      (splitLevel counter settings pages)^[levels] fun _ => fail .outOfFuel := by
  induction levels with
  | zero => rfl
  | succ levels ih =>
    rw [Function.iterate_succ_apply', ← ih]
    rfl

end

/-- More levels are enough, too. -/
theorem Enough.mono {levels more : Nat} (h : Enough counter settings pages session levels v)
    (hle : levels ≤ more) : Enough counter settings pages session more v := by
  obtain ⟨rest, rfl⟩ := Nat.exists_eq_add_of_le hle
  intro below l
  rw [splitLarge_eq_iterate, Function.iterate_add_apply, Function.iterate_add_apply]
  exact (h _ l).trans (h _ l).symm

/-- Enough levels settle a node. -/
theorem Enough.settles {levels : Nat} (h : Enough counter settings pages session levels v)
    (l : Ledger) : Settles counter settings pages session l v :=
  ⟨levels, fun below => h below l⟩

/-- What settles is the same for **every greater depth**. -/
theorem Settles.exists_execute_eq (h : Settles counter settings pages session l v) :
    ∃ levels, ∀ more, levels ≤ more →
      (splitLarge counter settings pages more v).execute session l =
        (splitLarge counter settings pages levels v).execute session l := by
  obtain ⟨levels, h⟩ := h
  refine ⟨levels, fun more hmore => ?_⟩
  obtain ⟨rest, rfl⟩ := Nat.exists_eq_add_of_le hmore
  rw [splitLarge_eq_iterate, Function.iterate_add_apply]
  exact h _

/-- One level is enough to fail for a text. -/
theorem enough_str (text : String) : Enough counter settings pages session 1 (.str text) :=
  fun _ => sameIn_bind (fun _ => rfl) fun h => absurd h not_returns_splitIfLarge_str

/-- Some levels are enough for all children. -/
theorem exists_enough_for_all {items : List Value}
    (h : ∀ c ∈ items, ∃ levels, Enough counter settings pages session levels c) :
    ∃ levels, ∀ c ∈ items, Enough counter settings pages session levels c := by
  induction items with
  | nil => exact ⟨0, forall_mem_nil _⟩
  | cons c items ih =>
    obtain ⟨m, hm⟩ := h c (.head _)
    obtain ⟨n, hn⟩ := ih fun d hd => h d (.tail _ hd)
    refine ⟨max m n, forall_mem_cons.mpr ⟨hm.mono (Nat.le_max_left m n), fun d hd => ?_⟩⟩
    exact (hn d hd).mono (Nat.le_max_right m n)

section

variable (h : session.model.Stateless)
include h

/-- Splitting one node is steady. -/
theorem steady_splitNode : Steady session (splitNode counter settings pages v) := by
  unfold splitNode
  refine steady_bind (steady_lift _) fun own => steady_bind (steady_lift _) fun first =>
    steady_bind (steady_lift _) fun start =>
    steady_bind (Contents.steady_build h _ _ _ _) fun entries =>
    steady_bind (steady_lift _) fun model => ?_
  refine steady_bind (Contents.steady_markStarts h _ _ _) fun marked =>
    steady_bind (steady_lift _) fun placed => ?_
  cases placed with
  | nil => exact steady_lift _
  | cons entry rest => exact steady_bind (steady_lift _) fun own => steady_lift _

/-- **Splitting a node is steady.** -/
theorem steady_splitIfLarge : Steady session (splitIfLarge counter settings pages v) := by
  refine steady_bind (steady_lift _) fun large => ?_
  cases large with
  | false => exact steady_pure v
  | true =>
    refine steady_bind ?_ fun _ => steady_splitNode h
    exact steady_bind (steady_lift _) fun title => steady_bind (steady_lift _) fun first =>
      steady_bind (steady_lift _) fun stop => steady_bind (steady_lift _) fun own =>
      steady_printLine _

/-- What comes next is seen in **any one run**. -/
theorem next_iff_mem_children
    (hw : (splitIfLarge counter settings pages v).Returns session l w l') :
    Next counter settings pages session v c ↔ c ∈ children w := by
  constructor
  · rintro ⟨l₁, w', l₁', hw', hc⟩
    obtain ⟨l'', hsame⟩ := (steady_splitIfLarge h).returns hw l₁
    exact (hw'.unique hsame).1 ▸ hc
  · exact fun hc => ⟨l, w, l', hw, hc⟩

/-- Splitting all large nodes is steady, to any depth. -/
theorem steady_splitLarge (levels : Nat) (v : Value) :
    Steady session (splitLarge counter settings pages levels v) := by
  induction levels generalizing v with
  | zero => exact steady_fail _
  | succ levels ih =>
    refine steady_bind (steady_splitIfLarge h) fun w => steady_bind (steady_lift _) fun below => ?_
    split
    · exact steady_pure w
    · refine steady_bind (steady_lift _) fun items => ?_
      refine steady_bind (steady_together fun work hwork => ?_) fun results => steady_lift _
      obtain ⟨c, -, rfl⟩ := mem_map.mp hwork
      exact ih c

/-- Levels that are enough for all that comes next are enough, with one or two more. -/
theorem exists_enough_of_next
    (hnext : ∀ c, Next counter settings pages session v c →
      ∃ levels, Enough counter settings pages session levels c) :
    ∃ levels, Enough counter settings pages session levels v := by
  by_cases hreturns : ∃ l w l',
      (splitIfLarge counter settings pages v).Returns session l w l'
  · obtain ⟨l, w, l', hw⟩ := hreturns
    obtain ⟨n, hn⟩ := exists_enough_for_all fun c hc => hnext c ⟨l, w, l', hw, hc⟩
    refine ⟨n + 2, fun below => ?_⟩
    rw [Function.iterate_succ_apply']
    refine sameIn_bind (fun _ => rfl) fun {l₁ a l₁'} ha => ?_
    obtain ⟨l'', hw'⟩ := (steady_splitIfLarge h).returns hw l₁
    obtain rfl : a = w := (ha.unique hw').1
    refine sameIn_bind (fun _ => rfl) fun hbelow => ?_
    split
    · exact fun _ => rfl
    · refine sameIn_bind (fun _ => rfl) fun hitems => ?_
      refine sameIn_bind (sameIn_together ?_) fun _ _ => rfl
      rw [forall₂_map_left_iff, forall₂_map_right_iff]
      refine forall₂_same.mpr fun c hc => ?_
      have hchild :=
        mem_children_or_str hbelow.of_lift hitems.of_lift hc
      rcases hchild with hc | ⟨text, rfl⟩
      · exact (hn c hc).mono (Nat.le_succ n) below
      · exact (enough_str text).mono (Nat.le_add_left 1 n) below
  · refine ⟨1, fun below => ?_⟩
    exact sameIn_bind (fun _ => rfl) fun ha => absurd ⟨_, _, _, ha⟩ hreturns

/-- **What comes to an end settles.** -/
theorem exists_enough_of_acc (hacc : Acc (fun c v => Next counter settings pages session v c) v) :
    ∃ levels, Enough counter settings pages session levels v := by
  induction hacc with
  | intro v _ ih => exact exists_enough_of_next h ih

end

/-! ### Requests on the way -/

section

variable (counter settings pages session)

/-- How many requests are **made** when a node is split to a depth. -/
def made (levels : Nat) (v : Value) : Nat :=
  ((splitLarge counter settings pages levels v).execute session {}).2.requests.length

/-- Splitting a node to a sufficient depth **takes** at least a number of requests. -/
def Takes (count : Nat) (v : Value) : Prop :=
  ∃ levels, ∀ more, levels ≤ more → count ≤ made counter settings pages session more v

end

section

variable (h : session.model.Stateless)
include h

/-- A large node is not split without a request. -/
theorem busy_splitIfLarge (hlarge : IsLarge settings pages v) :
    Busy session (splitIfLarge counter settings pages v) := by
  intro l w l' hw
  obtain ⟨title, first, stop, entries, own, between, -, -, -, hbetween, hentries, -, -⟩ :=
    exists_entries_of_isLarge hlarge hw
  rw [← hbetween]
  exact busy_sectionEntries h _ _ _ hentries

/-- Splitting a node makes its requests, and those of **all that comes next**. -/
theorem made_of_next (hnext : Next counter settings pages session v c) (levels : Nat) :
    ∃ w between, (splitIfLarge counter settings pages v).Returns session {} w between ∧
      between.requests.length + made counter settings pages session levels c ≤
        made counter settings pages session (levels + 1) v := by
  obtain ⟨l, w, l', hw, hc⟩ := hnext
  obtain ⟨between, hw⟩ := (steady_splitIfLarge h).returns hw {}
  refine ⟨w, between, hw, ?_⟩
  have hlookup := lookup_of_field? (field?_nodes_of_mem_children hc)
  have htruthy : (Value.list (children w)).isTruthy = true := by
    cases hchildren : children w with
    | nil =>
      rw [hchildren] at hc
      cases hc
    | cons d rest => rfl
  have hexecute : (splitLarge counter settings pages (levels + 1) v).execute session {} =
      (together ((children w).map (splitLarge counter settings pages levels)) >>= fun cs =>
        liftM (w.setField "nodes" (.list cs))).execute session between := by
    rw [splitLarge, execute_bind, hw]
    dsimp only
    rw [hlookup, lift_ok_bind, htruthy]
    rfl
  rw [made, made, hexecute]
  refine Nat.le_trans ?_ (length_le_bind (fun _ => steady_lift _) between)
  have hsteady : ∀ work ∈ (children w).map (splitLarge counter settings pages levels),
      Steady session work := by
    intro work hwork
    obtain ⟨d, -, rfl⟩ := mem_map.mp hwork
    exact steady_splitLarge h levels d
  obtain ⟨outcome, hrequests⟩ := exists_requests_of_together hsteady
  rw [(hrequests between).2, length_append, flatMap_def, map_map]
  refine Nat.add_le_add_left (Sublist.length_le ?_) _
  exact sublist_flatten_of_mem (mem_map_of_mem hc)

/-- What a section takes, the node above it takes. -/
theorem Takes.of_next (hc : Takes counter settings pages session count c)
    (hnext : Next counter settings pages session v c) :
    Takes counter settings pages session count v := by
  obtain ⟨levels, hc⟩ := hc
  refine ⟨levels + 1, fun more hmore => ?_⟩
  obtain ⟨m, rfl⟩ : ∃ m, more = m + 1 := ⟨more - 1, by omega⟩
  obtain ⟨w, between, -, hmade⟩ := made_of_next h hnext m
  have hcount := hc m (by omega)
  omega

/-- A large node takes **one request more** than what comes next. -/
theorem Takes.succ_of_next (hc : Takes counter settings pages session count c)
    (hlarge : IsLarge settings pages v) (hnext : Next counter settings pages session v c) :
    Takes counter settings pages session (count + 1) v := by
  obtain ⟨levels, hc⟩ := hc
  refine ⟨levels + 1, fun more hmore => ?_⟩
  obtain ⟨m, rfl⟩ : ∃ m, more = m + 1 := ⟨more - 1, by omega⟩
  obtain ⟨w, between, hw, hmade⟩ := made_of_next h hnext m
  have hcount := hc m (by omega)
  have hbusy : 0 < between.requests.length := busy_splitIfLarge h hlarge _ _ _ hw
  omega

/-- So does every node above it. -/
theorem Takes.of_reflTransGen (hd : Takes counter settings pages session count d)
    (hreach : Relation.ReflTransGen (Next counter settings pages session) v d) :
    Takes counter settings pages session count v := by
  induction hreach using Relation.ReflTransGen.head_induction_on with
  | refl => exact hd
  | head hnext _ ih => exact ih.of_next h hnext

/-- Splitting that settles takes a bounded number of requests. -/
theorem Settles.exists_not_takes (hsettles : Settles counter settings pages session l v) :
    ∃ count, ¬ Takes counter settings pages session count v := by
  obtain ⟨levels, hsettles⟩ := hsettles.exists_execute_eq
  have hsteady : ∀ m, Steady session (splitLarge counter settings pages m v) := fun m =>
    steady_splitLarge h m v
  have hmade : ∀ more, levels ≤ more →
      made counter settings pages session more v =
        made counter settings pages session levels v := by
    intro more hmore
    have hrequests := (hsteady more).requests_eq l
    rw [hsettles more hmore, (hsteady levels).requests_eq l] at hrequests
    exact (congrArg List.length (append_cancel_left hrequests)).symm
  refine ⟨made counter settings pages session levels v + 1, fun htakes => ?_⟩
  obtain ⟨enough, htakes⟩ := htakes
  have hmore := htakes (max levels enough) (Nat.le_max_right levels enough)
  rw [hmade _ (Nat.le_max_left levels enough)] at hmore
  omega

/-- **A section that recurs below itself** takes more and more requests. -/
theorem takes_of_recurs {d' : Value}
    (hreach : Relation.ReflTransGen (Next counter settings pages session) v d)
    (hlarge : IsLarge settings pages d)
    (hbelow : Relation.TransGen (Next counter settings pages session) d d')
    (hsame : SameSection d d') (count : Nat) : Takes counter settings pages session count v := by
  obtain ⟨c, hdc, hcd'⟩ := Relation.TransGen.head'_iff.mp hbelow
  have hlarge' := isLarge_of_sameSection hsame hlarge
  have hd'c := hdc.of_sameSection hlarge hsame
  -- On every way round from the section to itself, there is a request.
  have htakes : Takes counter settings pages session count d' := by
    induction count with
    | zero => exact ⟨0, fun more _ => Nat.zero_le _⟩
    | succ count ih => exact (ih.of_reflTransGen h hcd').succ_of_next h hlarge' hd'c
  exact htakes.of_reflTransGen h (hreach.trans hbelow.to_reflTransGen)

/-- A section that recurs keeps splitting **from settling**. -/
theorem not_settles_of_recurs {d' : Value}
    (hreach : Relation.ReflTransGen (Next counter settings pages session) v d)
    (hlarge : IsLarge settings pages d)
    (hbelow : Relation.TransGen (Next counter settings pages session) d d')
    (hsame : SameSection d d') : ¬ Settles counter settings pages session l v := by
  intro hsettles
  obtain ⟨count, hcount⟩ := hsettles.exists_not_takes h
  exact hcount (takes_of_recurs h hreach hlarge hbelow hsame count)

end

end DocTree.Outline
