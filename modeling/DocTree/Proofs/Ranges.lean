import DocTree.Proofs.Document
import DocTree.Proofs.StructureCodes

/-!
# Page ranges of sections

A section reaches to the page of the next entry, or to the page before if that entry begins its
page. No page is left out, but a section whose next one **begins the same page** ends before it
begins.
-/

namespace DocTree.Outline

open Markdown Run Value List

variable {e : Int} {pages : List Int} {entries : List Value} {entry : Value}

/-! ### Sections of entries -/

/-- An entry **begins its page**: nothing stands before it there. -/
def BeginsPage (entry : Value) : Prop := (part entry "appear_start").isStr "yes" = true

instance (entry : Value) : Decidable (BeginsPage entry) := inferInstanceAs (Decidable (_ = true))

/-- A section **ends** on the page of the next entry, or before if that begins its page. -/
theorem exists_endBefore {next : Value} {m : Int} (h : next.intField? "physical_index" = some m) :
    ∃ stop, endBefore next = .ok stop ∧
      stop.int? = some (if BeginsPage next then m - 1 else m) := by
  obtain ⟨page, hpage, hint⟩ := intField?_eq_some_iff.mp h
  obtain ⟨fields, rfl, hget⟩ := exists_object_of_field? hpage
  have hmark : (Value.object fields).lookup "appear_start" =
      .ok (part (.object fields) "appear_start") := rfl
  by_cases hbegins : BeginsPage (.object fields)
  · refine ⟨.int (m - 1), bind_ok hmark ((if_pos hbegins).trans ?_), ?_⟩
    · exact bind_ok (field_eq_ok_iff.mpr hpage) (sub_of_int? hint rfl)
    · rw [if_pos hbegins]
      rfl
  · refine ⟨page, bind_ok hmark ((if_neg hbegins).trans ?_), ?_⟩
    · exact field_eq_ok_iff.mpr hpage
    · rw [if_neg hbegins]
      exact hint

/-- An entry gets a range. -/
theorem exists_withRange (fields : Fields) (last : Value) :
    ∃ r, withRange (.object fields) last = .ok r :=
  ⟨_, rfl⟩

/-- A section has the code of its entry. -/
theorem codeOf_of_withRange {last r : Value} (h : withRange entry last = .ok r) :
    codeOf r = codeOf entry := by
  obtain ⟨first, -, h⟩ := bind_eq_ok.mp h
  obtain ⟨started, hstarted, h⟩ := bind_eq_ok.mp h
  obtain ⟨fields, rfl, rfl⟩ := setField_eq_ok_iff.mp hstarted
  cases h
  have hlookup : (Value.object (Fields.set (Fields.set fields "start_index" first) "end_index"
      last)).lookup "structure" = (Value.object fields).lookup "structure" := by
    rw [Value.lookup, Value.lookupOr, Fields.get?_set_of_ne _ _ (by decide),
      Fields.get?_set_of_ne _ _ (by decide), Value.lookup, Value.lookupOr]
  rw [codeOf, hlookup, codeOf]

/-- Entries that name pages have sections, each made from its entry. -/
theorem exists_withRanges (last : Value)
    (hplaced : ∀ entry ∈ entries, ∃ n, entry.intField? "physical_index" = some n) :
    ∃ ranged, withRanges last entries = .ok ranged ∧
      Forall₂ (fun entry r => ∃ stop, withRange entry stop = .ok r) entries ranged := by
  induction entries with
  | nil => exact ⟨[], rfl, .nil⟩
  | cons first rest ih =>
    obtain ⟨hfirst, hrest⟩ := forall_mem_cons.mp hplaced
    obtain ⟨n, hn⟩ := hfirst
    obtain ⟨page, hpage, -⟩ := intField?_eq_some_iff.mp hn
    obtain ⟨fields, rfl, -⟩ := exists_object_of_field? hpage
    cases rest with
    | nil =>
      obtain ⟨r, hr⟩ := exists_withRange fields last
      exact ⟨[r], bind_ok hr rfl, .cons ⟨last, hr⟩ .nil⟩
    | cons next rest =>
      obtain ⟨m, hm⟩ := hrest next (.head _)
      obtain ⟨stop, hstop, -⟩ := exists_endBefore hm
      obtain ⟨r, hr⟩ := exists_withRange fields stop
      obtain ⟨rs, hrs, hsections⟩ := ih hrest
      refine ⟨r :: rs, ?_, .cons ⟨stop, hr⟩ hsections⟩
      exact bind_ok (lookup_of_field? hpage) (bind_ok hstop (bind_ok hr (bind_ok hrs rfl)))

/-- Entries have an outline **exactly if each of them has a code** that can be looked up. -/
theorem exists_nest_iff :
    (∃ outline, nest (.list entries) = .ok outline) ↔
      ∀ entry ∈ entries, ∃ c, codeOf entry = .ok c := by
  constructor
  · rintro ⟨outline, h⟩ entry hentry
    obtain ⟨_, hentries, h⟩ := bind_eq_ok.mp h
    cases hentries
    obtain ⟨codes, hcodes, -⟩ := bind_eq_ok.mp h
    obtain ⟨c, -, hc⟩ := exists_right_of_forall₂ (mapM_eq_ok_iff.mp hcodes) entry hentry
    exact ⟨c, hc⟩
  · intro h
    obtain ⟨codes, hcodes⟩ := exists_forall₂ h
    exact ⟨_, bind_ok rfl (bind_ok (mapM_eq_ok_iff.mpr hcodes) rfl)⟩

/-- A table whose entries name pages has an outline exactly if its codes can be looked up. -/
theorem exists_ofContents_iff (last : Value)
    (hplaced : ∀ entry ∈ entries, ∃ n, entry.intField? "physical_index" = some n) :
    (∃ result, ofContents (.list entries) last = .ok result) ↔
      ∀ entry ∈ entries, ∃ c, codeOf entry = .ok c := by
  obtain ⟨rs, hrs, hsections⟩ := exists_withRanges last hplaced
  have hcodes : (∀ entry ∈ entries, ∃ c, codeOf entry = .ok c) ↔
      ∀ r ∈ rs, ∃ c, codeOf r = .ok c := by
    constructor
    · intro h r hr
      obtain ⟨entry, hentry, stop, hrange⟩ := exists_left_of_forall₂ hsections r hr
      exact codeOf_of_withRange hrange ▸ h entry hentry
    · intro h entry hentry
      obtain ⟨r, hr, stop, hrange⟩ := exists_right_of_forall₂ hsections entry hentry
      exact codeOf_of_withRange hrange ▸ h r hr
  rw [hcodes, ← exists_nest_iff]
  constructor
  · rintro ⟨⟨outline, ranged⟩, h⟩
    obtain ⟨rs', roots, hrs', -, hnest, -⟩ := exists_of_ofContents h
    cases hrs.symm.trans hrs'
    exact ⟨_, hnest⟩
  · rintro ⟨outline, hnest⟩
    cases entries with
    | nil => exact ⟨_, rfl⟩
    | cons first rest =>
      exact ⟨_, bind_ok rfl (bind_ok hrs (bind_ok hnest rfl))⟩

/-! ### Covered pages -/

/-- **No page is lost between sections.** Whatever the pages, codes and beginnings of the entries
are, there is an outline, and every page from that of the first entry to the end lies in one of its
nodes. -/
theorem outline_covers_from_first_page {first : Value} {rest : List Value} {x : Int}
    (hcoded : ∀ entry ∈ first :: rest, IsCoded entry)
    (hplaced : ∀ entry ∈ first :: rest, ∃ n, entry.intField? "physical_index" = some n)
    (hx : first.intField? "physical_index" = some x) (e : Int) :
    ∃ roots ranged, ofContents (.list (first :: rest)) (.int e) = .ok (.list roots, ranged) ∧
      ∀ p, x ≤ p → p ≤ e → ∃ root ∈ roots, CoversWithin root p := by
  obtain ⟨⟨outline, ranged⟩, h⟩ := (exists_ofContents_iff (.int e) hplaced).mpr
    fun entry hentry => ⟨_, codeOf_of_isCoded (hcoded entry hentry)⟩
  obtain ⟨rs, roots, -, -, -, rfl⟩ := exists_of_ofContents h
  refine ⟨roots, ranged, h, fun p hxp hpe => ?_⟩
  obtain ⟨_, hroots, hcovered⟩ := coversWithin_iff_of_ofContents h hplaced rfl hpe
  cases hroots
  exact hcovered.mpr ⟨first, mem_cons_self, x, hx, hxp⟩

/-- An entry on a page, which it begins or does not begin. -/
def entryAt (code? : Option String) (title : String) (page : Int) (begins : String) : Value :=
  codedEntry code? title [("physical_index", .int page), ("appear_start", .str begins)]

/-- The page of an entry. -/
theorem intField?_entryAt (code? : Option String) (title : String) (page : Int) (begins : String) :
    (entryAt code? title page begins).intField? "physical_index" = some page := by
  cases code? <;> rfl

/-- Entries whose pages are in no order. -/
def disorderedPages : List Value :=
  [entryAt (some "1.1") "A" 3 "no", entryAt (some "1") "B" 7 "yes", entryAt none "C" 2 "yes",
    entryAt (some "1.2") "D" 2 "no"]

/-- All pages from that of the first of these entries on are covered. -/
theorem disordered_pages_are_covered :
    (∀ entry ∈ disorderedPages, IsCoded entry) ∧
    (∀ entry ∈ disorderedPages, ∃ n, entry.intField? "physical_index" = some n) ∧
    ∃ roots ranged, ofContents (.list disorderedPages) (.int 6) = .ok (.list roots, ranged) ∧
      ∀ p, 3 ≤ p → p ≤ 6 → ∃ root ∈ roots, CoversWithin root p := by
  have hcoded : ∀ entry ∈ disorderedPages, IsCoded entry := by
    simp [disorderedPages, entryAt, isCoded_codedEntry]
  have hplaced : ∀ entry ∈ disorderedPages, ∃ n, entry.intField? "physical_index" = some n := by
    simp [disorderedPages, intField?_entryAt]
  exact ⟨hcoded, hplaced, outline_covers_from_first_page hcoded hplaced rfl 6⟩

/-! ### Ranges in order -/

/-- Entries whose **pages are in order**: they are whole numbers from one to `e` that do not
decrease. -/
structure PagesInOrder (e : Int) (entries : List Value) (pages : List Int) : Prop where
  named : entries.map (·.intField? "physical_index") = pages.map some
  ordered : pages.Pairwise (· ≤ ·)
  within : ∀ n ∈ pages, 1 ≤ n ∧ n ≤ e

/-- Entries in order have pages. -/
theorem PagesInOrder.placed (h : PagesInOrder e entries pages) :
    ∀ entry ∈ entries, ∃ n, entry.intField? "physical_index" = some n := by
  intro entry hentry
  have hmem : entry.intField? "physical_index" ∈ pages.map some := by
    rw [← h.named]
    exact mem_map_of_mem hentry
  obtain ⟨n, -, hn⟩ := mem_map.mp hmem
  exact ⟨n, hn.symm⟩

/-- What is known of the page of the first entry, and of the others. -/
theorem PagesInOrder.exists_cons {rest : List Value} (h : PagesInOrder e (entry :: rest) pages) :
    ∃ n later, pages = n :: later ∧ entry.intField? "physical_index" = some n ∧ 1 ≤ n ∧ n ≤ e ∧
      (∀ m ∈ later, n ≤ m) ∧ PagesInOrder e rest later := by
  obtain ⟨hnamed, hordered, hwithin⟩ := h
  cases pages with
  | nil => cases hnamed
  | cons n later =>
    obtain ⟨hn, hrest⟩ := List.cons.inj hnamed
    obtain ⟨hfirst, hlater⟩ := forall_mem_cons.mp hwithin
    obtain ⟨hle, hordered⟩ := pairwise_cons.mp hordered
    exact ⟨n, later, rfl, hn, hfirst.1, hfirst.2, hle, hrest, hordered, hlater⟩

/-- A node has a first and a last page. -/
def Ends (d : Value) (first last : Int) : Prop :=
  d.intField? "start_index" = some first ∧ d.intField? "end_index" = some last

/-- A node with a **well-formed range** of pages, from one to `e`: its first page is not behind its
last one. -/
def WellFormed (e : Int) (d : Value) : Prop :=
  ∃ first last, Ends d first last ∧ 1 ≤ first ∧ first ≤ last ∧ last ≤ e

/-- A node whose range is well formed, or **empty**: then it ends right before it begins. -/
def WellFormedOrEmpty (e : Int) (d : Value) : Prop :=
  ∃ first last, Ends d first last ∧ 1 ≤ first ∧ first ≤ e ∧ first ≤ last + 1 ∧ last ≤ e

/-- When a range is well formed. -/
theorem Ends.wellFormed_iff {first last : Int} {d : Value} (h : Ends d first last) :
    WellFormed e d ↔ 1 ≤ first ∧ first ≤ last ∧ last ≤ e := by
  constructor
  · rintro ⟨first', last', ⟨hfirst, hlast⟩, hrange⟩
    cases hfirst.symm.trans h.1
    cases hlast.symm.trans h.2
    exact hrange
  · exact fun hrange => ⟨first, last, h, hrange⟩

/-- The entry `next` **takes the page** of an entry: it names the same page, and begins it. -/
def TakesPage (entry next : Value) : Prop :=
  BeginsPage next ∧ next.intField? "physical_index" = entry.intField? "physical_index"

instance (entry next : Value) : Decidable (TakesPage entry next) :=
  inferInstanceAs (Decidable (_ ∧ _))

/-- The ends of a range. -/
theorem ends_of_withRange {stop r : Value} {n z : Int} (h : withRange entry stop = .ok r)
    (hn : entry.intField? "physical_index" = some n) (hz : stop.int? = some z) : Ends r n z := by
  obtain ⟨hstart, hstop⟩ := intField?_of_withRange h hn
  exact ⟨hstart, hstop.trans hz⟩

/-- Sections in order are **well formed or empty**: empty if an entry takes the page of the one
before. -/
theorem wellFormed_iff_of_withRanges {rs : List Value} (h : withRanges (.int e) entries = .ok rs)
    (hpages : PagesInOrder e entries pages) :
    (∀ r ∈ rs, WellFormedOrEmpty e r) ∧
      ((∀ r ∈ rs, WellFormed e r) ↔ entries.IsChain fun entry next => ¬ TakesPage entry next) := by
  induction entries generalizing rs pages with
  | nil =>
    cases h
    simp
  | cons entry rest ih =>
    obtain ⟨n, later, rfl, hn, hone, hlast, hle, hlater⟩ := hpages.exists_cons
    cases rest with
    | nil =>
      obtain ⟨r, hr, h⟩ := bind_eq_ok.mp h
      cases h
      have hends : Ends r n e := ends_of_withRange hr hn rfl
      have hwell : WellFormed e r := hends.wellFormed_iff.mpr ⟨hone, hlast, Int.le_refl e⟩
      refine ⟨?_, ?_⟩
      · rw [forall_mem_singleton]
        exact ⟨n, e, hends, hone, hlast, by omega, Int.le_refl e⟩
      · rw [forall_mem_singleton]
        exact iff_of_true hwell (.singleton _)
    | cons next rest =>
      obtain ⟨stop, r, rs, hstop, hr, hrs, rfl⟩ := exists_of_withRanges_cons h
      obtain ⟨m, later, rfl, hm, -, hmlast, -, -⟩ := hlater.exists_cons
      have hnm : n ≤ m := hle m (.head _)
      obtain ⟨_, hstop', hz⟩ := exists_endBefore hm
      cases hstop.symm.trans hstop'
      have hends := ends_of_withRange hr hn hz
      have htakes : TakesPage entry next ↔ BeginsPage next ∧ m = n := by
        rw [TakesPage, hm, hn, Option.some.injEq]
      obtain ⟨hempty, hchain⟩ := ih hrs hlater
      refine ⟨forall_mem_cons.mpr ⟨⟨n, _, hends, hone, hlast, ?_, ?_⟩, hempty⟩, ?_⟩
      · split <;> omega
      · split <;> omega
      · rw [forall_mem_cons, hchain, hends.wellFormed_iff, isChain_cons_cons, htakes]
        refine and_congr_left fun _ => ?_
        by_cases hbegins : BeginsPage next
        · simp only [hbegins, if_true, true_and]
          omega
        · simp only [hbegins, if_false, false_and, not_false_iff, iff_true]
          omega

/-- **What holds of all nodes holds of all entries**, if it is about pages only. -/
theorem forall_within_iff_of_nest {P : Value → Prop}
    (hP : ∀ entry items, P (node entry items) ↔ P entry) {roots : List Value}
    (h : nest (.list entries) = .ok (.list roots)) :
    (∀ root ∈ roots, ∀ d, Within d root → P d) ↔ ∀ entry ∈ entries, P entry := by
  constructor
  · intro hall entry hentry
    obtain ⟨_, hroots, hwithin⟩ := exists_within_of_nest h
    cases hroots
    obtain ⟨items, root, hroot, hd⟩ := hwithin entry hentry
    exact (hP entry items).mp (hall root hroot _ hd)
  · intro hall root hroot d hd
    obtain ⟨entry, hentry, items, rfl⟩ := exists_entry_of_nest h hroot hd
    exact (hP entry items).mpr (hall entry hentry)

/-- A node has the range of its entry. -/
theorem ends_node_iff {items : List Value} {first last : Int} :
    Ends (node entry items) first last ↔ Ends entry first last := by
  rw [Ends, intField?_node (.inl rfl), intField?_node (.inr rfl), Ends]

/-- **Which outlines have well-formed ranges.** For entries in order there is an outline exactly if
their codes can be looked up. Its nodes are well formed or empty, and all are well formed exactly if
no entry takes the page of the one right before it. -/
theorem ranges_well_formed_iff {e : Int} {entries : List Value} {pages : List Int}
    (hpages : PagesInOrder e entries pages) :
    ((∃ result, ofContents (.list entries) (.int e) = .ok result) ↔
      ∀ entry ∈ entries, ∃ c, codeOf entry = .ok c) ∧
    ∀ outline ranged, ofContents (.list entries) (.int e) = .ok (outline, ranged) →
      ∃ roots, outline = .list roots ∧
        (∀ root ∈ roots, ∀ d, Within d root → WellFormedOrEmpty e d) ∧
        ((∀ root ∈ roots, ∀ d, Within d root → WellFormed e d) ↔
          entries.IsChain fun entry next => ¬ TakesPage entry next) := by
  refine ⟨exists_ofContents_iff _ hpages.placed, fun outline ranged h => ?_⟩
  obtain ⟨rs, roots, hrs, -, hnest, rfl⟩ := exists_of_ofContents h
  obtain ⟨hempty, hchain⟩ := wellFormed_iff_of_withRanges hrs hpages
  refine ⟨roots, rfl, ?_, ?_⟩
  · refine (forall_within_iff_of_nest (fun entry items => ?_) hnest).mpr hempty
    simp only [WellFormedOrEmpty, ends_node_iff]
  · rw [← hchain]
    refine forall_within_iff_of_nest (fun entry items => ?_) hnest
    simp only [WellFormed, ends_node_iff]

/-- Entries of which two are on one page, and none takes the page of another. -/
def orderedPages : List Value :=
  [entryAt (some "1") "A" 1 "yes", entryAt (some "1.1") "B" 1 "no", entryAt (some "2") "C" 3 "yes"]

/-- All ranges of their outline are well formed. -/
theorem ordered_pages_are_well_formed :
    PagesInOrder 3 orderedPages [1, 1, 3] ∧
    ∃ roots ranged, ofContents (.list orderedPages) (.int 3) = .ok (.list roots, ranged) ∧
      ∀ root ∈ roots, ∀ d, Within d root → WellFormed 3 d := by
  have hpages : PagesInOrder 3 orderedPages [1, 1, 3] := ⟨rfl, by decide, by decide⟩
  have hcoded : ∀ entry ∈ orderedPages, IsCoded entry := by
    simp [orderedPages, entryAt, isCoded_codedEntry]
  obtain ⟨hreturns, hformed⟩ := ranges_well_formed_iff hpages
  obtain ⟨⟨outline, ranged⟩, h⟩ := hreturns.mpr
    fun entry hentry => ⟨_, codeOf_of_isCoded (hcoded entry hentry)⟩
  obtain ⟨roots, rfl, -, hchain⟩ := hformed outline ranged h
  exact ⟨hpages, roots, ranged, h, hchain.mpr (by decide)⟩

/-- A chapter and its first section, both at the top of the same page. -/
def sectionOnSamePage : List Value :=
  [entryAt (some "1") "Chapter" 2 "yes", entryAt (some "1.1") "Section" 2 "yes"]

/-- The range of the chapter is **not well formed**: it ends on page 1 and begins on page 2. -/
theorem section_on_same_page_is_inverted :
    PagesInOrder 3 sectionOnSamePage [2, 2] ∧
    ∃ chapter ranged,
      ofContents (.list sectionOnSamePage) (.int 3) = .ok (.list [chapter], ranged) ∧
      Ends chapter 2 1 ∧ ¬ ∀ d, Within d chapter → WellFormed 3 d := by
  refine ⟨⟨rfl, by decide, by decide⟩, _, _, rfl, ⟨rfl, rfl⟩, fun h => ?_⟩
  obtain ⟨first, last, ⟨hfirst, hlast⟩, -, hle, -⟩ := h _ .self
  cases hfirst
  cases hlast
  exact absurd hle (by decide)

end DocTree.Outline
