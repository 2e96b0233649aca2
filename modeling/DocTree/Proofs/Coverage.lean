import DocTree.Outline.Split
import DocTree.Proofs.Value

/-!
# Pages of sections

A node **covers** the pages of its section. Sections that follow each other cover all pages from the
first beginning to the last end, in whatever order they begin, and nesting keeps all of them.
-/

namespace DocTree.Outline

open Value List

/-! ### Nodes below a node -/

/-- The **children** of a node. -/
def children (v : Value) : List Value :=
  match v.field? "nodes" with
  | some (.list items) => items
  | _ => []

/-- Children stand in one field. -/
theorem children_of_field? {v : Value} {items : List Value}
    (h : v.field? "nodes" = some (.list items)) : children v = items := by
  rw [children, h]

/-- A node lies **within** another one: it is that node, or it lies within a child of it. -/
inductive Within (d : Value) : (v : Value) → Prop
  | self : Within d d
  | child {c v : Value} (hc : c ∈ children v) (hd : Within d c) : Within d v

/-- A node lies **below** another one: it lies within a child of it. -/
def Below (d v : Value) : Prop := ∃ c ∈ children v, Within d c

/-- What is below lies within. -/
theorem Below.within {d v : Value} (h : Below d v) : Within d v := by
  obtain ⟨c, hc, hd⟩ := h
  exact .child hc hd

/-- What lies within is the node or below it. -/
theorem Within.eq_or_below {d v : Value} (h : Within d v) : d = v ∨ Below d v := by
  cases h with
  | self => exact .inl rfl
  | child hc hd => exact .inr ⟨_, hc, hd⟩

/-- The nodes of children. -/
theorem nodesOfList_of_nodesBelow {fields : Fields} {items below : List Value}
    (hnodes : fields.get? "nodes" = some (.list items))
    (h : nodesBelow fields = .ok below) : nodesOfList items = .ok below := by
  induction fields with
  | nil => cases hnodes
  | cons f rest ih =>
    obtain ⟨k, v⟩ := f
    rw [nodesBelow] at h
    rw [Fields.get?] at hnodes
    split at h
    · rename_i hk
      rw [if_pos hk] at hnodes
      cases hnodes
      obtain ⟨found, hfound, h⟩ := bind_eq_ok.mp h
      rw [nodes] at hfound
      obtain ⟨ns, hns, hfound⟩ := bind_eq_ok.mp hfound
      cases hfound
      cases h
      exact hns
    · rename_i hk
      rw [if_neg hk] at hnodes
      exact ih hnodes h

/-- The nodes of one child. -/
theorem exists_nodes_of_nodesOfList {items below : List Value} {c : Value} (hc : c ∈ items)
    (h : nodesOfList items = .ok below) : ∃ ns, nodes c = .ok (some ns) ∧ ns ⊆ below := by
  induction items generalizing below with
  | nil => cases hc
  | cons first rest ih =>
    rw [nodesOfList] at h
    obtain ⟨found, hfound, h⟩ := bind_eq_ok.mp h
    obtain ⟨here, hhere, h⟩ := bind_eq_ok.mp h
    obtain ⟨later, hlater, h⟩ := bind_eq_ok.mp h
    cases h
    rcases mem_cons.mp hc with rfl | hc
    · cases found with
      | none => cases hhere
      | some ns =>
        cases hhere
        exact ⟨_, hfound, subset_append_left _ _⟩
    · obtain ⟨ns, hns, hsub⟩ := ih hc hlater
      exact ⟨ns, hns, subset_append_of_subset_right _ hsub⟩

/-- Every object within a node is read **in document order**. -/
theorem mem_nodes_of_within {inner : Fields} {v : Value} {ns : List Value}
    (hd : Within (.object inner) v) (h : nodes v = .ok (some ns)) : .object inner ∈ ns := by
  induction hd generalizing ns with
  | self =>
    rw [nodes] at h
    obtain ⟨below, -, h⟩ := bind_eq_ok.mp h
    cases h
    exact .head _
  | @child c v hc hd ih =>
    rw [children] at hc
    split at hc
    · rename_i items hitems
      obtain ⟨fields, rfl, hnodes⟩ := exists_object_of_field? hitems
      rw [nodes] at h
      obtain ⟨below, hbelow, h⟩ := bind_eq_ok.mp h
      cases h
      obtain ⟨nc, hnc, hsub⟩ :=
        exists_nodes_of_nodesOfList hc (nodesOfList_of_nodesBelow hnodes hbelow)
      exact .tail _ (hsub (ih hnc))
    · cases hc

/-! ### Pages of a node -/

/-- A node **covers** a page that lies between its first and its last page. -/
def Covers (v : Value) (p : Int) : Prop :=
  ∃ first last, v.intField? "start_index" = some first ∧ v.intField? "end_index" = some last ∧
    first ≤ p ∧ p ≤ last

instance (v : Value) (p : Int) : Decidable (Covers v p) :=
  match hfirst : v.intField? "start_index", hlast : v.intField? "end_index" with
  | some first, some last =>
    decidable_of_iff (first ≤ p ∧ p ≤ last) (by simp [Covers, hfirst, hlast])
  | some _, none => .isFalse (by simp [Covers, hlast])
  | none, _ => .isFalse (by simp [Covers, hfirst])

/-- The pages of a node depend on its first and its last page only. -/
theorem Covers.congr {v w : Value} {p : Int} (h : Covers v p)
    (hfirst : w.intField? "start_index" = v.intField? "start_index")
    (hlast : w.intField? "end_index" = v.intField? "end_index") : Covers w p := by
  obtain ⟨first, last, hf, hl, hle, hge⟩ := h
  exact ⟨first, last, hfirst.trans hf, hlast.trans hl, hle, hge⟩

/-- Only objects cover pages. -/
theorem Covers.exists_object {v : Value} {p : Int} (h : Covers v p) :
    ∃ fields, v = .object fields := by
  obtain ⟨first, -, hfirst, -⟩ := h
  obtain ⟨x, hx, -⟩ := intField?_eq_some_iff.mp hfirst
  obtain ⟨fields, rfl, -⟩ := exists_object_of_field? hx
  exact ⟨fields, rfl⟩

/-- Some node in the outline of a node covers a page. -/
def CoversWithin (v : Value) (p : Int) : Prop := ∃ d, Within d v ∧ Covers d p

/-- Some node below one of the given nodes covers a page. -/
def CoversBelow (vs : List Value) (p : Int) : Prop := ∃ v ∈ vs, ∃ d, Below d v ∧ Covers d p

/-- Nothing is covered below nodes without children. -/
theorem not_coversBelow_of_children {vs : List Value} {p : Int} (h : ∀ v ∈ vs, children v = []) :
    ¬ CoversBelow vs p := by
  rintro ⟨v, hv, d, ⟨c, hc, -⟩, -⟩
  rw [h v hv] at hc
  cases hc

/-- Whether a page is covered can be read off the nodes in document order. -/
theorem not_coversWithin_of_nodes {v : Value} {ns : List Value} {p : Int}
    (h : nodes v = .ok (some ns)) (hns : ∀ n ∈ ns, ¬ Covers n p) : ¬ CoversWithin v p := by
  rintro ⟨d, hd, hcovers⟩
  obtain ⟨fields, rfl⟩ := hcovers.exists_object
  exact hns _ (mem_nodes_of_within hd h) hcovers

/-! ### Sections that follow each other -/

/-- A section has the page of its entry as its first page. -/
theorem field?_of_withRange {entry last r page : Value} (h : withRange entry last = .ok r)
    (hpage : entry.field? "physical_index" = some page) :
    r.field? "start_index" = some page ∧ r.field? "end_index" = some last := by
  obtain ⟨_, hfirst, h⟩ := bind_eq_ok.mp h
  cases (lookup_of_field? hpage).symm.trans hfirst
  obtain ⟨started, hstarted, h⟩ := bind_eq_ok.mp h
  obtain ⟨fields, rfl, rfl⟩ := setField_eq_ok_iff.mp hstarted
  cases h
  constructor
  · rw [field?_object, Fields.get?_set_of_ne _ _ (by decide), Fields.get?_set_self]
  · rw [field?_object, Fields.get?_set_self]

/-- A section begins at the page of its entry. -/
theorem intField?_of_withRange {entry last r : Value} {x : Int}
    (h : withRange entry last = .ok r) (hx : entry.intField? "physical_index" = some x) :
    r.intField? "start_index" = some x ∧ r.intField? "end_index" = last.int? := by
  obtain ⟨page, hpage, hint⟩ := intField?_eq_some_iff.mp hx
  obtain ⟨hfirst, hlast⟩ := field?_of_withRange h hpage
  rw [Value.intField?, hfirst, Value.intField?, hlast]
  exact ⟨hint, rfl⟩

/-- A section ends on the page on which the next one begins, or one page before. -/
theorem int?_of_endBefore {next last : Value} {y : Int} (h : endBefore next = .ok last)
    (hy : next.intField? "physical_index" = some y) :
    ∃ z, last.int? = some z ∧ y - 1 ≤ z ∧ z ≤ y := by
  obtain ⟨v, hv, hint⟩ := intField?_eq_some_iff.mp hy
  obtain ⟨mark, -, h⟩ := bind_eq_ok.mp h
  split at h
  · rw [field_eq_ok_iff.mpr hv] at h
    have h : v.sub (.int 1) = .ok last := h
    rw [sub_of_int? hint rfl] at h
    cases h
    exact ⟨y - 1, rfl, by omega, by omega⟩
  · cases (field_eq_ok_iff.mpr hv).symm.trans h
    exact ⟨y, hint, by omega, by omega⟩

variable {rest ranged : List Value}

/-- The section of an entry that another one follows, and **the sections behind it**. -/
theorem exists_of_withRanges_cons {last entry next : Value}
    (h : withRanges last (entry :: next :: rest) = .ok ranged) :
    ∃ stop r rs, endBefore next = .ok stop ∧ withRange entry stop = .ok r ∧
      withRanges last (next :: rest) = .ok rs ∧ ranged = r :: rs := by
  obtain ⟨-, -, h⟩ := bind_eq_ok.mp h
  obtain ⟨stop, hstop, h⟩ := bind_eq_ok.mp h
  obtain ⟨r, hr, h⟩ := bind_eq_ok.mp h
  obtain ⟨rs, hrs, h⟩ := bind_eq_ok.mp h
  cases h
  exact ⟨stop, r, rs, hstop, hr, hrs, rfl⟩

/-- The first of the sections begins where the first of the entries is. -/
theorem exists_cons_of_withRanges {last first : Value} {x : Int}
    (h : withRanges last (first :: rest) = .ok ranged)
    (hx : first.intField? "physical_index" = some x) :
    ∃ r rs, ranged = r :: rs ∧ r.intField? "start_index" = some x := by
  cases rest with
  | nil =>
    obtain ⟨r, hr, h⟩ := bind_eq_ok.mp h
    cases h
    exact ⟨r, [], rfl, (intField?_of_withRange hr hx).1⟩
  | cons next rest =>
    obtain ⟨stop, r, rs, -, hr, -, rfl⟩ := exists_of_withRanges_cons h
    exact ⟨r, rs, rfl, (intField?_of_withRange hr hx).1⟩

/-- **Sections that follow each other leave no page out**, whatever the order of the pages. -/
theorem exists_covers_of_withRanges {last first : Value} {x e p : Int}
    (h : withRanges last (first :: rest) = .ok ranged)
    (hplaced : ∀ entry ∈ first :: rest, ∃ y, entry.intField? "physical_index" = some y)
    (hx : first.intField? "physical_index" = some x) (he : last.int? = some e) (hxp : x ≤ p)
    (hpe : p ≤ e) : ∃ r ∈ ranged, Covers r p := by
  induction rest generalizing first ranged x with
  | nil =>
    obtain ⟨r, hr, h⟩ := bind_eq_ok.mp h
    cases h
    obtain ⟨hstart, hend⟩ := intField?_of_withRange hr hx
    exact ⟨r, mem_singleton_self r, x, e, hstart, hend.trans he, hxp, hpe⟩
  | cons next rest ih =>
    obtain ⟨stop, r, rs, hstop, hr, hrs, rfl⟩ := exists_of_withRanges_cons h
    obtain ⟨y, hy⟩ := hplaced next (.tail _ (.head _))
    -- either the next section has begun at the page, or this one has not ended before it
    by_cases hyp : y ≤ p
    · obtain ⟨r', hr', hcovers⟩ :=
        ih hrs (fun entry hentry => hplaced entry (.tail _ hentry)) hy hyp
      exact ⟨r', .tail _ hr', hcovers⟩
    · obtain ⟨z, hz, hle, -⟩ := int?_of_endBefore hstop hy
      obtain ⟨hstart, hend⟩ := intField?_of_withRange hr hx
      exact ⟨r, .head _, x, z, hstart, hend.trans hz, hxp, by omega⟩

/-- Every section comes from an entry, and ends with the last one or before another entry. -/
theorem exists_withRange_of_withRanges {last r : Value} {entries ranged : List Value}
    (h : withRanges last entries = .ok ranged) (hr : r ∈ ranged) :
    ∃ entry ∈ entries, ∃ stop, withRange entry stop = .ok r ∧
      (stop = last ∨ ∃ next ∈ entries, endBefore next = .ok stop) := by
  induction entries generalizing ranged with
  | nil =>
    cases h
    cases hr
  | cons first rest ih =>
    cases rest with
    | nil =>
      obtain ⟨r', hr', h⟩ := bind_eq_ok.mp h
      cases h
      cases mem_singleton.mp hr
      exact ⟨first, .head _, last, hr', .inl rfl⟩
    | cons next rest =>
      obtain ⟨stop, r', rs, hstop, hr', hrs, rfl⟩ := exists_of_withRanges_cons h
      rcases mem_cons.mp hr with rfl | hr
      · exact ⟨first, .head _, stop, hr', .inr ⟨next, by simp, hstop⟩⟩
      · obtain ⟨entry, hentry, stop', hrange, hend⟩ := ih hrs hr
        refine ⟨entry, .tail _ hentry, stop', hrange, hend.imp_right ?_⟩
        rintro ⟨other, hother, hbefore⟩
        exact ⟨other, .tail _ hother, hbefore⟩

/-! ### Nesting -/

/-- Every entry has a link. -/
theorem length_links (before codes : List Value) : (links before codes).length = codes.length := by
  induction codes generalizing before with
  | nil => rfl
  | cons code codes ih => rw [links, length_cons, length_cons, ih]

/-- The node of an entry has the pages of the entry. -/
theorem field?_node {key : String} (hkey : key = "start_index" ∨ key = "end_index")
    (entry : Value) (items : List Value) :
    (node entry items).field? key = some ((entry.field? key).getD .null) := by
  rcases hkey with rfl | rfl <;> by_cases hempty : items.isEmpty <;>
    simp [node, hempty, Fields.get?]

/-- A node has the pages of its entry. -/
theorem intField?_node {key : String} (hkey : key = "start_index" ∨ key = "end_index")
    (entry : Value) (items : List Value) :
    (node entry items).intField? key = entry.intField? key := by
  rw [intField?_eq_getD entry, intField?_eq_getD, field?_node hkey]
  rfl

/-- A node has the given children. -/
theorem children_node (entry : Value) (items : List Value) :
    children (node entry items) = items := by
  cases items with
  | nil => rfl
  | cons c cs => exact children_of_field? (by simp [node, Fields.get?])

/-- What putting elements together keeps, everything in a forest has. -/
theorem forall_mem_assemble {α β : Type} {p : β → Prop} {make : α → List β → β} {i : Nat}
    {elements : List (Option Nat × α)}
    (hmake : ∀ e ∈ elements, ∀ {items}, (∀ c ∈ items, p c) → p (make e.2 items)) :
    ∀ e ∈ Forest.assemble make i elements, p e.2 := by
  induction elements generalizing i with
  | nil => exact forall_mem_nil _
  | cons first rest ih =>
    have hrest := @ih (i + 1) fun e he => hmake e (.tail _ he)
    refine forall_mem_cons.mpr ⟨hmake first (.head _) fun c hc => ?_, fun e he => ?_⟩
    · obtain ⟨e, he, rfl⟩ := mem_map.mp hc
      exact hrest e (mem_of_mem_filter he)
    · exact hrest e (mem_of_mem_filter he)

/-- Every element is made into a node within one of those that are still open. -/
theorem exists_within_of_assemble {i : Nat} {elements : List (Option Nat × Value)}
    {element : Option Nat × Value} (h : element ∈ elements) :
    ∃ items, ∃ above ∈ Forest.assemble node i elements, Within (node element.2 items) above.2 := by
  induction elements generalizing i with
  | nil => cases h
  | cons first rest ih =>
    rcases mem_cons.mp h with rfl | h
    · exact ⟨_, _, .head _, .self⟩
    · obtain ⟨items, above, habove, hwithin⟩ := @ih (i + 1) h
      by_cases hi : above.1 = some i
      · -- the node above becomes a child of the first element
        have hmem : above.2 ∈ ((Forest.assemble node (i + 1) rest).filter
            fun e => e.1 = some i).map Prod.snd :=
          mem_map_of_mem (mem_filter.mpr ⟨habove, decide_eq_true hi⟩)
        refine ⟨items, _, .head _, .child ?_ hwithin⟩
        exact (children_node _ _).symm ▸ hmem
      · refine ⟨items, above, .tail _ (mem_filter.mpr ⟨habove, ?_⟩), hwithin⟩
        exact decide_eq_true hi

variable {entries : List Value}

/-- **Nesting leaves no section out.** -/
theorem exists_within_of_nest {outline : Value} (h : nest (.list entries) = .ok outline) :
    ∃ roots, outline = .list roots ∧
      ∀ entry ∈ entries, ∃ items, ∃ root ∈ roots, Within (node entry items) root := by
  obtain ⟨_, hentries, h⟩ := bind_eq_ok.mp h
  cases hentries
  obtain ⟨codes, hcodes, h⟩ := bind_eq_ok.mp h
  cases h
  refine ⟨_, rfl, fun entry hentry => ?_⟩
  have hlength : (links [] codes).length = entries.length := by
    rw [length_links, (mapM_eq_ok_iff.mp hcodes).length_eq]
  obtain ⟨i, hi, rfl⟩ := mem_iff_getElem.mp hentry
  have hzip : i < ((links [] codes).zip entries).length := by
    rw [length_zip, hlength, Nat.min_self]
    exact hi
  have hmem : ((links [] codes)[i], entries[i]) ∈ (links [] codes).zip entries := by
    rw [← getElem_zip (h := hzip)]
    exact getElem_mem hzip
  obtain ⟨items, above, habove, hwithin⟩ := exists_within_of_assemble (i := 0) hmem
  exact ⟨items, above.2, mem_map_of_mem habove, hwithin⟩

/-- Every node of a forest is made from one of its elements. -/
theorem exists_element_of_assemble {i : Nat} {elements : List (Option Nat × Value)}
    {above : Option Nat × Value} {d : Value} (h : above ∈ Forest.assemble node i elements)
    (hd : Within d above.2) : ∃ element ∈ elements, ∃ items, d = node element.2 items := by
  induction elements generalizing i above with
  | nil => cases h
  | cons first rest ih =>
    rcases mem_cons.mp h with rfl | h
    · rcases hd.eq_or_below with rfl | ⟨c, hc, hd⟩
      · exact ⟨first, .head _, _, rfl⟩
      · -- a child of the first element was open before
        rw [children_node] at hc
        obtain ⟨below, hbelow, rfl⟩ := mem_map.mp hc
        obtain ⟨element, helement, hnode⟩ := ih (mem_of_mem_filter hbelow) hd
        exact ⟨element, .tail _ helement, hnode⟩
    · obtain ⟨element, helement, hnode⟩ := ih (mem_of_mem_filter h) hd
      exact ⟨element, .tail _ helement, hnode⟩

/-- **Nesting makes no section up.** -/
theorem exists_entry_of_nest {entries roots : List Value}
    (h : nest (.list entries) = .ok (.list roots)) {root d : Value} (hroot : root ∈ roots)
    (hd : Within d root) : ∃ entry ∈ entries, ∃ items, d = node entry items := by
  obtain ⟨_, hentries, h⟩ := bind_eq_ok.mp h
  cases hentries
  obtain ⟨codes, -, h⟩ := bind_eq_ok.mp h
  cases h
  obtain ⟨above, habove, rfl⟩ := mem_map.mp hroot
  obtain ⟨element, helement, hnode⟩ := exists_element_of_assemble habove hd
  exact ⟨element.2, (of_mem_zip helement).2, hnode⟩

/-- The outline of a table **nests the sections** that follow each other in it. -/
theorem exists_of_ofContents {last outline ranged : Value}
    (h : ofContents (.list entries) last = .ok (outline, ranged)) :
    ∃ rs roots, withRanges last entries = .ok rs ∧ ranged = .list rs ∧
      nest (.list rs) = .ok (.list roots) ∧ outline = .list roots := by
  obtain ⟨items, hitems, h⟩ := bind_eq_ok.mp h
  cases hitems
  cases entries with
  | nil =>
    cases h
    exact ⟨[], [], rfl, rfl, rfl, rfl⟩
  | cons first rest =>
    obtain ⟨rs, hrs, h⟩ := bind_eq_ok.mp h
    obtain ⟨nested, hnested, h⟩ := bind_eq_ok.mp h
    cases h
    obtain ⟨roots, rfl, -⟩ := exists_within_of_nest hnested
    exact ⟨rs, roots, hrs, rfl, hnested, rfl⟩

/-! ### Dividing a section -/

/-- Dividing a section gives its node **children**, and ends it where they begin. -/
theorem exists_of_withSections {v v' : Value} (h : withSections v entries = .ok v') :
    ∃ fs stop rs roots gs, v = .object fs ∧ Fields.get? fs "end_index" = some stop ∧
      withRanges stop entries = .ok rs ∧ nest (.list rs) = .ok (.list roots) ∧ v' = .object gs ∧
      (gs = Fields.set fs "nodes" (.list roots) ∧ rs = [] ∨
        ∃ start, gs = Fields.set (Fields.set fs "nodes" (.list roots)) "end_index" start ∧
          ∃ r ∈ rs.head?, r.field? "start_index" = some start) := by
  obtain ⟨stop, hstop, h⟩ := bind_eq_ok.mp h
  obtain ⟨⟨sections, ranged⟩, hsections, h⟩ := bind_eq_ok.mp h
  obtain ⟨rs, roots, hrs, rfl, hnested, rfl⟩ := exists_of_ofContents hsections
  obtain ⟨w, hw, h⟩ := bind_eq_ok.mp h
  obtain ⟨fs, rfl, rfl⟩ := setField_eq_ok_iff.mp hw
  refine ⟨fs, stop, rs, roots, ?_⟩
  have hstop := field_eq_ok_iff.mp hstop
  cases rs with
  | nil =>
    cases h
    exact ⟨_, rfl, hstop, hrs, hnested, rfl, .inl ⟨rfl, rfl⟩⟩
  | cons r rs =>
    obtain ⟨start, hstart, h⟩ := bind_eq_ok.mp h
    cases h
    exact ⟨_, rfl, hstop, hrs, hnested, rfl,
      .inr ⟨start, rfl, r, rfl, field_eq_ok_iff.mp hstart⟩⟩

/-- **Dividing a section leaves no page out** of the node and those below it. -/
theorem coversWithin_of_withSections {v v' : Value} {p : Int} (h : withSections v entries = .ok v')
    (hp : Covers v p)
    (hplaced : ∀ entry ∈ entries, ∃ x, entry.intField? "physical_index" = some x) :
    CoversWithin v' p := by
  obtain ⟨s, e, hs, he, hsp, hpe⟩ := hp
  obtain ⟨fs, stop, rs, roots, gs, rfl, hstop, hranged, hnest, rfl, hgs⟩ := exists_of_withSections h
  rcases hgs with ⟨rfl, -⟩ | ⟨start, rfl, r, hr, hstart⟩
  · refine ⟨_, .self, s, e, ?_, ?_, hsp, hpe⟩
    · rw [intField?_set_of_ne _ _ (by decide), hs]
    · rw [intField?_set_of_ne _ _ (by decide), he]
  cases entries with
  | nil =>
    cases hranged
    cases hr
  | cons first rest =>
    obtain ⟨x, hx⟩ := hplaced first (.head _)
    obtain ⟨_, rs, rfl, hx'⟩ := exists_cons_of_withRanges hranged hx
    cases hr
    by_cases hpx : p ≤ x
    · -- the node itself ends where the first section begins
      refine ⟨_, .self, s, x, ?_, ?_, hsp, hpx⟩
      · rw [intField?_set_of_ne _ _ (by decide), intField?_set_of_ne _ _ (by decide),
          hs]
      · rw [intField?_eq_getD, hstart] at hx'
        rw [intField?_set_self]
        exact hx'
    · have hstopInt : stop.int? = some e := by
        rw [intField?_eq_getD, field?_object, hstop] at he
        exact he
      obtain ⟨r', hr', hcovers⟩ :=
        exists_covers_of_withRanges hranged hplaced hx hstopInt (by omega) hpe
      obtain ⟨_, hroots, hwithin⟩ := exists_within_of_nest hnest
      cases hroots
      obtain ⟨items, root, hroot, hwithin⟩ := hwithin r' hr'
      refine ⟨node r' items, .child (c := root) ?_ hwithin,
        hcovers.congr (intField?_node (.inl rfl) _ _) (intField?_node (.inr rfl) _ _)⟩
      refine (children_of_field? ?_).symm ▸ hroot
      rw [field?_object, Fields.get?_set_of_ne _ _ (by decide), Fields.get?_set_self]

end DocTree.Outline
