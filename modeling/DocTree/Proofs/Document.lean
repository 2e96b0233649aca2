import DocTree.Proofs.Bounds
import DocTree.Proofs.Split

/-!
# Pages of a whole document

The outline of a document covers the pages from the **earliest beginning** of a section on. A
preface is made only if the first entry names a page behind the first one, so pages may be left out
if it names none.
-/

namespace DocTree.Outline

open Run Contents List

variable {p : Int} {entries : List Value} {session : Session}

/-! ### Sections of a table -/

/-- An entry **begins by** a page: it names that page or one before it. -/
def BeginsBy (entry : Value) (p : Int) : Prop :=
  ∃ n, entry.intField? "physical_index" = some n ∧ n ≤ p

/-- The sections from any entry on leave no page out. -/
theorem exists_covers_of_beginsBy {last entry : Value} {ranged : List Value} {e : Int}
    (h : withRanges last entries = .ok ranged)
    (hplaced : ∀ entry ∈ entries, ∃ x, entry.intField? "physical_index" = some x)
    (he : last.int? = some e) (hpe : p ≤ e) (hentry : entry ∈ entries)
    (hbegins : BeginsBy entry p) : ∃ r ∈ ranged, Covers r p := by
  induction entries generalizing ranged with
  | nil => cases hentry
  | cons first rest ih =>
    rcases mem_cons.mp hentry with rfl | hentry
    · obtain ⟨x, hx, hxp⟩ := hbegins
      exact exists_covers_of_withRanges h hplaced hx he hxp hpe
    · cases rest with
      | nil => cases hentry
      | cons next rest =>
        obtain ⟨stop, r', rs, -, -, hrs, rfl⟩ := exists_of_withRanges_cons h
        obtain ⟨r, hr, hcovers⟩ :=
          ih hrs (fun entry hentry => hplaced entry (.tail _ hentry)) hentry
        exact ⟨r, .tail _ hr, hcovers⟩

/-- **The sections of a table cover a page** up to their end exactly if an entry begins by it. -/
theorem coversWithin_iff_of_ofContents {last outline ranged : Value} {e : Int}
    (h : ofContents (.list entries) last = .ok (outline, ranged))
    (hplaced : ∀ entry ∈ entries, ∃ x, entry.intField? "physical_index" = some x)
    (he : last.int? = some e) (hpe : p ≤ e) :
    ∃ roots, outline = .list roots ∧
      ((∃ v ∈ roots, CoversWithin v p) ↔ ∃ entry ∈ entries, BeginsBy entry p) := by
  obtain ⟨rs, roots, hranged, -, hnest, rfl⟩ := exists_of_ofContents h
  refine ⟨roots, rfl, ?_, ?_⟩
  · -- a node that covers the page is the node of an entry that begins by it
    rintro ⟨v, hv, d, hd, hcovers⟩
    obtain ⟨r, hr, items, rfl⟩ := exists_entry_of_nest hnest hv hd
    obtain ⟨entry, hentry, stop, hrange, -⟩ := exists_withRange_of_withRanges hranged hr
    obtain ⟨x, hx⟩ := hplaced entry hentry
    obtain ⟨start, stop', hstart, -, hle, -⟩ := hcovers
    rw [intField?_node (.inl rfl), (intField?_of_withRange hrange hx).1] at hstart
    cases hstart
    exact ⟨entry, hentry, x, hx, hle⟩
  · rintro ⟨entry, hentry, hbegins⟩
    obtain ⟨r, hr, hcovers⟩ := exists_covers_of_beginsBy hranged hplaced he hpe hentry hbegins
    obtain ⟨_, hroots, hwithin⟩ := exists_within_of_nest hnest
    cases hroots
    obtain ⟨items, root, hroot, hwithin⟩ := hwithin r hr
    exact ⟨root, hroot, node r items, hwithin,
      hcovers.congr (intField?_node (.inl rfl) _ _) (intField?_node (.inr rfl) _ _)⟩

/-! ### From the table to the sections -/

/-- Entries keep their pages when beginnings are looked at. -/
theorem exists_beginsBy_iff_of_placed {model : Value} {pages : List Page} {items : List Value}
    {marked : Value} {l l' : Ledger}
    (h : (markStarts model pages (.list items)).Returns session l marked l')
    (hplaced : placed marked = .ok entries) (p : Int) :
    (∃ entry ∈ entries, BeginsBy entry p) ↔ ∃ item ∈ items, BeginsBy item p := by
  obtain ⟨ms, rfl, hms⟩ := forall₂_of_markStarts h
  have hsame : ∀ {item m : Value}, (∃ answer, item.setField "appear_start" answer = .ok m) →
      m.intField? "physical_index" = item.intField? "physical_index" := by
    rintro item m ⟨answer, hset⟩
    obtain ⟨fields, rfl, rfl⟩ := Value.setField_eq_ok_iff.mp hset
    exact Value.intField?_set_of_ne _ _ (by decide)
  constructor
  · rintro ⟨m, hm, n, hn, hle⟩
    obtain ⟨item, hitem, -, hset⟩ :=
      exists_left_of_forall₂ hms m ((mem_filterM_iff hplaced m).mp hm).1
    exact ⟨item, hitem, n, (hsame hset).symm.trans hn, hle⟩
  · rintro ⟨item, hitem, n, hn, hle⟩
    obtain ⟨m, hm, -, hset⟩ := exists_right_of_forall₂ hms item hitem
    have hpage := (hsame hset).trans hn
    refine ⟨m, (mem_filterM_iff hplaced m).mpr ⟨hm, ?_⟩, n, hpage, hle⟩
    obtain ⟨page, hfield, hint⟩ := Value.intField?_eq_some_iff.mp hpage
    rw [isPlaced, position, Value.lookup_of_field? hfield]
    exact congrArg (fun b => Except.ok !b) (Value.isNull_of_int? hint)

/-- With a **preface**, an entry begins by a page if one did, or if the first one names a page. -/
theorem exists_beginsBy_iff_of_withPreface {prefaced : Value} {limit : Int}
    (h : withPreface (.list entries) = .ok prefaced)
    (hpages : ∀ entry ∈ entries, PageAtMost limit entry) (hp : 1 ≤ p) :
    ∃ items, prefaced = .list items ∧
      ((∃ item ∈ items, BeginsBy item p) ↔
        (∃ first ∈ entries.head?, namesPage first = true) ∨
          ∃ entry ∈ entries, BeginsBy entry p) := by
  cases entries with
  | nil =>
    cases h
    exact ⟨[], rfl, by simp⟩
  | cons first rest =>
    obtain ⟨page, hpage, h⟩ := bind_eq_ok.mp h
    have hpage : first.field? "physical_index" = some page := Value.field_eq_ok_iff.mp hpage
    have hnames : namesPage first = !page.isNull := by
      rw [namesPage, hpage]
      rfl
    split at h
    · -- the first entry names no page, and the table stays as it is
      rename_i hnull
      cases h
      refine ⟨_, rfl, ?_⟩
      simp [hnames, hnull]
    · rename_i hnull
      obtain ⟨page', hpage', rfl | ⟨n, hn, -⟩⟩ := hpages first (.head _)
      · cases hpage.symm.trans hpage'
        exact absurd rfl hnull
      obtain rfl : page = page' := Option.some.inj (hpage.symm.trans hpage')
      obtain ⟨isLate, hlate, h⟩ := bind_eq_ok.mp h
      rw [Value.less_of_int? rfl hn] at hlate
      cases hlate
      have hright : ∃ first' ∈ (first :: rest).head?, namesPage first' = true :=
        ⟨first, rfl, by rw [hnames, Value.isNull_of_int? hn]; rfl⟩
      split at h
      · cases h
        refine ⟨_, rfl, fun _ => .inl hright, fun _ => ?_⟩
        exact ⟨preface, .head _, 1, rfl, hp⟩
      · rename_i hlate
        cases h
        refine ⟨_, rfl, fun _ => .inl hright, fun _ => ?_⟩
        refine ⟨first, .head _, n, Value.intField?_eq_some_iff.mpr ⟨page, hpage, hn⟩, ?_⟩
        simp only [decide_eq_true_eq] at hlate
        omega

/-! ### Nothing to split -/

/-- **Without large nodes nothing is split.** -/
theorem eq_of_splitLarge {counter : TokenCounter} {settings : Settings} {pages : List Page}
    {levels : Nat} {v v' : Value} {l l' : Ledger}
    (h : (splitLarge counter settings pages levels v).Returns session l v' l')
    (hlarge : ∀ d, Within d v → ¬ IsLarge settings pages d) : v = v' := by
  rw [← map_fst_splitLargeWithLosses] at h
  obtain ⟨r, hlosses, rfl⟩ := returns_map_iff.mp h
  clear h
  induction levels generalizing v r l l' with
  | zero => exact absurd hlosses not_returns_fail
  | succ levels ih =>
    obtain ⟨w, results, hdivided, hresults, -, -, -, hend⟩ :=
      exists_divided_of_splitLargeWithLosses hlosses
    obtain rfl : v = w := by
      cases hdivided with
      | kept => rfl
      | divided hdivided => exact absurd hdivided (hlarge v .self)
    rcases hend with hend | ⟨fields, rfl, hnodes, hend⟩
    · exact hend.symm
    · have hsame : Forall₂ Eq (children (.object fields)) (results.map Prod.fst) := by
        refine forall₂_map_right_iff.mpr (forall₂_imp_of_mem hresults fun c hc r' => ?_)
        rintro ⟨l₁, l₁', hreturns⟩
        exact ih (fun d hd => hlarge d (.child hc hd)) _ hreturns
      rw [forall₂_eq_eq_eq] at hsame
      rw [hend, ← hsame, Fields.set_of_get? hnodes]

/-! ### The outline of a document -/

/-- The **stages** of an outline: the table of contents that is built, and its sections before large
ones are split. -/
structure Stages where
  entries : List Value
  sections : List Value
deriving DecidableEq

def ofDocumentWithStages (counter : TokenCounter) (settings : Settings) (pages : List Page) :
    Run (List Value × Stages) := do
  let found ← Contents.search settings pages
  Run.info found.value
  let e : Excerpt := { pages := pages }
  let usable := found.numbered && !Text.isBlankText (found.content?.getD "")
  let printed : Contents.Printed :=
    if usable then
      { content := .ofOption (found.content?.map .str)
        positions := .list (found.pages.map .int) }
    else {}
  let mode := if usable then Contents.Mode.numbers else Contents.Mode.plain
  let entries ← Contents.build counter settings printed e mode
  let prefaced ← withPreface (.list entries)
  let marked ← Contents.markStarts (← settings.get "model") pages prefaced
  let (outline, _) ← ofContents (.list (← Contents.placed marked)) (.ofNat pages.length)
  let levels ← Run.patience
  let sections ← outline.elements
  let trees ← Run.together (sections.map (splitLarge counter settings pages levels))
  return (trees, { entries := entries, sections := sections })

/-- Forgetting the stages gives **exactly the plain outline**. -/
theorem map_fst_ofDocumentWithStages (counter : TokenCounter) (settings : Settings)
    (pages : List Page) :
    Prod.fst <$> ofDocumentWithStages counter settings pages =
      ofDocument counter settings pages := by
  simp only [ofDocumentWithStages, ofDocument, map_bind, map_pure, bind_pure]

section

variable {counter : TokenCounter} {settings : Settings} {pages : List Page} {session : Session}
  {l l' : Ledger} {trees : List Value} {stages : Stages}

/-- Sections are nested and split, and cover a page if the first entry names one, or an entry begins
by it. -/
theorem exists_sections_of_ofDocumentWithStages
    (h : (ofDocumentWithStages counter settings pages).Returns session l (trees, stages)
      l') :
    (∃ rs, nest (.list rs) = .ok (.list stages.sections)) ∧
    (∃ levels, Forall₂ (fun v tree => ∃ l₁ l₁',
      (splitLarge counter settings pages levels v).Returns session l₁ tree l₁')
      stages.sections trees) ∧
    ∀ p : Int, 1 ≤ p → p ≤ pages.length → ((∃ v ∈ stages.sections, CoversWithin v p) ↔
      (∃ first ∈ stages.entries.head?, namesPage first = true) ∨
        ∃ entry ∈ stages.entries, BeginsBy entry p) := by
  obtain ⟨found, _, -, h⟩ := h.of_bind
  obtain ⟨-, _, -, h⟩ := h.of_bind
  obtain ⟨entries, _, hentries, h⟩ := h.of_bind
  obtain ⟨prefaced, _, hprefaced, h⟩ := h.of_bind
  obtain ⟨model, _, -, h⟩ := h.of_bind
  obtain ⟨marked, _, hmarked, h⟩ := h.of_bind
  obtain ⟨kept, _, hkept, h⟩ := h.of_bind
  obtain ⟨⟨outline, ranged⟩, _, houtline, h⟩ := h.of_bind
  obtain ⟨levels, _, -, h⟩ := h.of_bind
  obtain ⟨sections, _, hsections, h⟩ := h.of_bind
  obtain ⟨trees', _, htrees, h⟩ := h.of_bind
  cases h
  have houtline := houtline.of_lift
  obtain ⟨rs, roots, -, -, hnested, rfl⟩ := exists_of_ofContents houtline
  cases hsections.of_lift
  refine ⟨⟨rs, hnested⟩, ⟨levels, htrees.forall₂_of_together⟩, fun p hp hlast => ?_⟩
  obtain ⟨rejected, t, rounds, -, hsound, haccepted⟩ := exists_accepted_of_build hentries
  have hpages := fun entry hentry => (haccepted.pageRead_of_mem hsound entry hentry).atMost
  obtain ⟨items, rfl, hpreface⟩ :=
    exists_beginsBy_iff_of_withPreface hprefaced.of_lift hpages hp
  have hplaced := hkept.of_lift
  obtain ⟨_, hroots, hcovered⟩ := coversWithin_iff_of_ofContents houtline
    (exists_intField?_of_placed hmarked hplaced) rfl hlast
  cases hroots
  rw [hcovered, exists_beginsBy_iff_of_placed hmarked hplaced, hpreface]

end

/-- **The outline of a document covers the pages from the earliest beginning on**, if no node is
large: a page lies in some node exactly if the first entry names a page, or if some entry names that
page or one before it. So all pages are covered whenever the first entry names a page. -/
theorem document_covered_from_earliest_beginning (counter : TokenCounter) (settings : Settings)
    (pages : List Page) (session : Session) (l l' : Ledger) (trees : List Value)
    (h : (ofDocument counter settings pages).Returns session l trees l') :
    ∃ stages, (ofDocumentWithStages counter settings pages).Returns session l (trees, stages)
        l' ∧
      ((∀ v ∈ stages.sections, ∀ d, Within d v → ¬ IsLarge settings pages d) →
        trees = stages.sections ∧
        ∀ p : Int, 1 ≤ p → p ≤ pages.length → ((∃ v ∈ trees, CoversWithin v p) ↔
          (∃ first ∈ stages.entries.head?, namesPage first = true) ∨
            ∃ entry ∈ stages.entries, BeginsBy entry p)) := by
  rw [← map_fst_ofDocumentWithStages] at h
  obtain ⟨⟨trees, stages⟩, hstages, rfl⟩ := returns_map_iff.mp h
  refine ⟨stages, hstages, fun hlarge => ?_⟩
  obtain ⟨-, ⟨levels, hsplit⟩, hcovered⟩ := exists_sections_of_ofDocumentWithStages hstages
  have hsame : Forall₂ Eq stages.sections trees := by
    refine forall₂_imp_of_mem hsplit fun v hv tree => ?_
    rintro ⟨l₁, l₁', hreturns⟩
    exact eq_of_splitLarge hreturns (hlarge v hv)
  rw [forall₂_eq_eq_eq] at hsame
  exact ⟨hsame.symm, hsame ▸ hcovered⟩

/-- Settings under which no section of a short document is large. -/
def shortSections : Settings :=
  [("model", .str "m"), ("toc_check_page_num", .int 3), ("max_page_num_each_node", .int 10),
    ("max_token_num_each_node", .int 20000)]

/-- The reply that a page holds no table of contents. -/
def noTable : String := "\x7b\"toc_detected\": \"no\"\x7d"

/-- A session in which no printed table is found, and `count` entries of a proposed one appear on
their pages. -/
def proposed (entries : List (String × Int)) (count : Nat) : Session :=
  scripted (replicate 3 noTable ++ proposal entries ::
    (replicate count appears ++ replicate count beginsInside))

/-- A section without children. -/
theorem eq_of_within_sectionOn {title : String} {first last : Int} {d : Value}
    (h : Within d (sectionOn title first last [])) : d = sectionOn title first last [] := by
  rcases h.eq_or_below with rfl | ⟨c, hc, -⟩
  · rfl
  · rw [sectionOn, children_node] at hc
    cases hc

/-- The first entry names the second page, so that a preface covers the first one. -/
theorem preface_covers_first_page :
    let trees := [sectionOn "Preface" 1 2 [], sectionOn "A" 2 3 [], sectionOn "B" 3 3 []]
    ∃ l', (ofDocument .words shortSections threePages.pages).Returns
        (proposed [("A", 2), ("B", 3)] 2) {} trees l' ∧
      (∀ v ∈ trees, ∀ d, Within d v → ¬ IsLarge shortSections threePages.pages d) ∧
      ∀ p : Int, 1 ≤ p → p ≤ 3 → ∃ v ∈ trees, CoversWithin v p := by
  intro trees
  have houtcome : ((ofDocumentWithStages .words shortSections threePages.pages).execute
      (proposed [("A", 2), ("B", 3)] 2) {}).1 =
      .ok (trees, { entries := [entryOn "A" 2, entryOn "B" 3], sections := trees }) := by
    decide +kernel
  have hlarge : ∀ v ∈ trees, ∀ d, Within d v → ¬ IsLarge shortSections threePages.pages d := by
    intro v hv d hd
    simp only [trees, mem_cons, not_mem_nil, or_false] at hv
    rcases hv with rfl | rfl | rfl <;> rw [eq_of_within_sectionOn hd] <;> decide
  have hstages := returns_of_outcome houtcome
  have hreturns := hstages.map Prod.fst
  rw [map_fst_ofDocumentWithStages] at hreturns
  obtain ⟨stages, hstages', hcovered⟩ :=
    document_covered_from_earliest_beginning _ _ _ _ _ _ _ hreturns
  obtain rfl : stages = _ := (Prod.ext_iff.mp (hstages'.unique hstages).1).2
  refine ⟨_, hreturns, hlarge, fun p hp hlast => ?_⟩
  exact ((hcovered hlarge).2 p hp hlast).mpr (.inl ⟨_, rfl, by decide⟩)

/-- **A document without a preface**: the first entry lies beyond the end, and the first page in no
section. -/
theorem document_without_preface :
    (∃ l', (ofDocument .words shortSections threePages.pages).Returns
      (proposed [("A", 9), ("B", 2)] 1) {} [sectionOn "B" 2 3 []] l') ∧
    (∀ d, Within d (sectionOn "B" 2 3 []) → ¬ IsLarge shortSections threePages.pages d) ∧
    ¬ ∃ v ∈ [sectionOn "B" 2 3 []], CoversWithin v 1 := by
  refine ⟨⟨_, returns_of_outcome (by decide +kernel)⟩, fun d hd => ?_, ?_⟩
  · rw [eq_of_within_sectionOn hd]
    decide
  · rintro ⟨v, hv, d, hd, hcovers⟩
    cases mem_singleton.mp hv
    rw [eq_of_within_sectionOn hd] at hcovers
    exact absurd hcovers (by decide)

end DocTree.Outline
