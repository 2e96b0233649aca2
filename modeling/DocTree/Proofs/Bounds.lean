import DocTree.Proofs.Excerpt
import DocTree.Proofs.Modes

/-!
# Pages of a table of contents

A title is looked for on the page of its entry, so the page of an accepted entry was **read**. It is
not beyond the last page of the excerpt. Before the first page it is counted from the end.
-/

namespace DocTree

open List

namespace Contents

open Run

variable {entries wrong : List Value} {entry : Value}

section

variable {model : Value} {e : Excerpt} {session : Session} {l l' : Ledger}

/-! ### Pages that were checked -/

/-- A title that is checked on a page makes the page read. -/
theorem reads_of_checkTitle {page : Value} {v : Verdict}
    (h : (checkTitle model e entry).Returns session l v l')
    (hpage : entry.field? "physical_index" = some page) (hnull : page.isNull = false) :
    e.Reads page := by
  obtain ⟨title, _, -, h⟩ := h.of_bind
  obtain ⟨_, _, hposition, h⟩ := h.of_bind
  cases (Value.lookup_of_field? hpage).symm.trans hposition.of_lift
  rw [if_neg (Bool.eq_false_iff.mp hnull)] at h
  obtain ⟨text, _, htext, h⟩ := h.of_bind
  exact ⟨text, htext.of_lift⟩

/-- Without a page, no title is found. -/
theorem not_holds_of_checkTitle {v : Verdict}
    (h : (checkTitle model e entry).Returns session l v l')
    (hpage : entry.field? "physical_index" = some .null) : v.holds = false := by
  obtain ⟨title, _, -, h⟩ := h.of_bind
  obtain ⟨_, _, hposition, h⟩ := h.of_bind
  cases (Value.lookup_of_field? hpage).symm.trans hposition.of_lift
  obtain ⟨listIndex, _, -, h⟩ := h.of_bind
  cases h
  rfl

/-- A judged page was read. -/
theorem Judged.reads {page : Value} {v : Verdict} (h : Judged model e session entry v)
    (hpage : entry.field? "physical_index" = some page) (hnull : page.isNull = false) :
    e.Reads page := by
  obtain ⟨position, noted, l, l', hset, hcheck⟩ := h
  obtain ⟨fields, rfl, rfl⟩ := Value.setField_eq_ok_iff.mp hset
  refine reads_of_checkTitle hcheck ?_ hnull
  rw [Value.field?_object, Fields.get?_set_of_ne _ _ (by decide)]
  exact hpage

/-- A page that an attempt finds right was read. -/
theorem reads_of_repairItem {positions : List Value} {item : Value} {a : Attempt}
    (h : (repairItem model e entries positions item).Returns session l a l')
    (hvalid : a.isValid = true) : e.Reads a.page := by
  obtain ⟨p, _, -, h⟩ := h.of_bind
  cases p with
  | outside listIndex title page =>
    cases h
    cases hvalid
  | between listIndex title low high =>
    obtain ⟨stop, _, -, h⟩ := h.of_bind
    obtain ⟨first, _, -, h⟩ := h.of_bind
    obtain ⟨stop', _, -, h⟩ := h.of_bind
    obtain ⟨found, _, -, h⟩ := h.of_bind
    obtain ⟨changed, _, hset, h⟩ := h.of_bind
    obtain ⟨verdict, _, hcheck, h⟩ := h.of_bind
    cases h
    obtain ⟨fields, -, rfl⟩ := Value.setField_eq_ok_iff.mp hset.of_lift
    have hpage : (Value.object (Fields.set fields "physical_index" found)).field? "physical_index" =
        some found := Fields.get?_set_self fields _ _
    cases hnull : found.isNull with
    | false => exact reads_of_checkTitle hcheck hpage hnull
    | true =>
      obtain rfl := Value.eq_null_of_isNull hnull
      exact absurd hvalid (Bool.eq_false_iff.mp (not_holds_of_checkTitle hcheck hpage))

/-! ### Pages that repair writes -/

/-- The pages that **several rounds** write were read. -/
theorem Chain.reads {rounds : List Round} {entries' wrong' : List Value}
    (h : Chain model e session entries wrong rounds entries' wrong') :
    ∀ f ∈ carriedFixes rounds, e.Reads f.page := by
  intro f hf
  obtain ⟨r, hr, hf⟩ := mem_flatMap.mp hf
  obtain ⟨t, ht, hfix⟩ := mem_filterMap.mp hf
  rw [Attempt.fix?] at hfix
  split at hfix
  · rename_i hvalid
    obtain ⟨k, -, rfl⟩ := Option.map_eq_some_iff.mp hfix
    obtain ⟨l, l', hitem⟩ := h.made r hr t ht
    exact reads_of_repairItem hitem hvalid
  · cases hfix

end

/-! ### Pages of accepted tables -/

/-- An entry with a page written into it is an entry of the table, or has that page. -/
theorem mem_applyFix {f : Fix} (h : entry ∈ applyFix entries f) :
    entry ∈ entries ∨ entry.field? "physical_index" = some f.page := by
  rw [applyFix] at h
  split at h
  · exact .inl h
  · split at h
    · rcases mem_or_eq_of_mem_set h with h | rfl
      · exact .inl h
      · exact .inr (Fields.get?_set_self _ _ _)
    · exact .inl h

/-- Where the pages of a table **come from** into which pages were written. -/
theorem mem_applyFixes {fixes : List Fix} (h : entry ∈ applyFixes entries fixes) :
    entry ∈ entries ∨ ∃ f ∈ fixes, entry.field? "physical_index" = some f.page := by
  induction fixes generalizing entries with
  | nil => exact .inl h
  | cons f fixes ih =>
    rcases ih h with h | ⟨g, hg, hpage⟩
    · rcases mem_applyFix h with h | hpage
      · exact .inl h
      · exact .inr ⟨f, .head _, hpage⟩
    · exact .inr ⟨g, .tail _ hg, hpage⟩

/-- An entry names **no page, or one that is read**. -/
def PageRead (e : Excerpt) (entry : Value) : Prop :=
  ∃ page, entry.field? "physical_index" = some page ∧ (page = .null ∨ e.Reads page)

/-- An entry names **no page, or one up to a limit**. -/
def PageAtMost (limit : Int) (entry : Value) : Prop :=
  ∃ page, entry.field? "physical_index" = some page ∧
    (page = .null ∨ ∃ n, page.int? = some n ∧ n ≤ limit)

/-- A page that was read is not beyond the last. -/
theorem PageRead.atMost {e : Excerpt} (h : PageRead e entry) : PageAtMost e.last entry := by
  obtain ⟨page, hpage, rfl | hreads⟩ := h
  · exact ⟨.null, hpage, .inl rfl⟩
  · obtain ⟨n, hn, -, hlast⟩ := Excerpt.reads_iff.mp hreads
    exact ⟨page, hpage, .inr ⟨n, hn, hlast⟩⟩

section

variable {e : Excerpt} {session : Session} {t : Trial} {rounds : List Round} {entries : List Value}

/-- The table of an accepted trial was read. -/
theorem Trial.Accepted.pageRead (h : t.Accepted e session rounds entries)
    (hsound : t.Sound e session) : ∀ entry ∈ t.entries, PageRead e entry := by
  intro entry hentry
  obtain ⟨page, hpage⟩ := hsound.known entry hentry
  refine ⟨page, hpage, ?_⟩
  cases hnull : page.isNull with
  | true => exact .inl (Value.eq_null_of_isNull hnull)
  | false =>
    have hnames : namesPage entry = true := by
      rw [namesPage, hpage, Option.getD_some, hnull]
      rfl
    obtain ⟨v, -, hjudged⟩ := exists_right_of_forall₂ (h.checked hsound).2.1 entry
      (mem_filter.mpr ⟨hentry, hnames⟩)
    exact .inr (hjudged.reads hpage hnull)

/-- What is accepted is the table with pages written into it, all of which **were read**. -/
theorem Trial.Accepted.reads (h : t.Accepted e session rounds entries) :
    entries = applyFixes t.entries (carriedFixes rounds) ∧
      ∀ f ∈ carriedFixes rounds, e.Reads f.page := by
  cases h with
  | perfect => exact ⟨rfl, fun f hf => nomatch hf⟩
  | repaired _ hrepair =>
    have hchain := chain_of_repairAllWithAccount hrepair
    exact ⟨hchain.written, hchain.reads⟩

/-- All accepted pages were read. -/
theorem Trial.Accepted.pageRead_of_mem (h : t.Accepted e session rounds entries)
    (hsound : t.Sound e session) : ∀ entry ∈ entries, PageRead e entry := by
  obtain ⟨rfl, hfixes⟩ := h.reads
  intro entry hentry
  rcases mem_applyFixes hentry with hentry | ⟨f, hf, hpage⟩
  · exact h.pageRead hsound entry hentry
  · exact ⟨f.page, hpage, .inr (hfixes f hf)⟩

end

/-- What is built comes from an **accepted trial**, the last of the trials. -/
theorem exists_accepted_of_build {counter : TokenCounter} {settings : Settings} {printed : Printed}
    {e : Excerpt} {mode : Mode} {session : Session} {l l' : Ledger}
    (h : (build counter settings printed e mode).Returns session l entries l') :
    ∃ rejected t rounds,
      (trials counter settings printed e mode.fallbacks).Returns session l
        (rejected, .accepted t rounds entries) l' ∧
      t.Sound e session ∧ t.Accepted e session rounds entries := by
  obtain ⟨rejected, ending, between, htrials, hrun⟩ :=
    exists_trials_of_tryModes counter settings printed e mode.fallbacks session l
  obtain ⟨houtcome, rfl⟩ := Prod.ext_iff.mp (hrun.symm.trans h)
  obtain ⟨t, rounds, rfl, hsound, haccepted⟩ := (account_of_trials htrials).exists_of_ok houtcome
  exact ⟨rejected, t, rounds, htrials, hsound, haccepted⟩

/-! ### The end of the document -/

/-- **No page lies beyond the end of the document**, whatever the mode and the replies, and repair
keeps it so in any number of rounds. -/
theorem pages_within_document (counter : TokenCounter) (settings : Settings) (printed : Printed)
    (e : Excerpt) (session : Session) (l : Ledger) :
    (∀ mode entries l',
      (build counter settings printed e mode).Returns session l entries l' →
      ∀ entry ∈ entries, PageAtMost e.last entry) ∧
    ∀ model attempts entries wrong entries' wrong' l',
      (repairAll model e attempts entries wrong).Returns session l (entries', wrong') l' →
      (∀ entry ∈ entries, PageAtMost e.last entry) →
      ∀ entry ∈ entries', PageAtMost e.last entry := by
  constructor
  · intro mode entries l' h entry hentry
    obtain ⟨rejected, t, rounds, -, hsound, haccepted⟩ := exists_accepted_of_build h
    exact (haccepted.pageRead_of_mem hsound entry hentry).atMost
  · intro model attempts entries wrong entries' wrong' l' h hentries entry hentry
    rw [← map_fst_repairAllWithAccount] at h
    obtain ⟨⟨_, rounds⟩, haccount, rfl⟩ := returns_map_iff.mp h
    have hchain := chain_of_repairAllWithAccount haccount
    obtain rfl := hchain.written
    rcases mem_applyFixes hentry with hentry | ⟨f, hf, hpage⟩
    · exact hentries entry hentry
    · have hread : PageRead e entry :=
        ⟨f.page, hpage, .inr (hchain.reads f hf)⟩
      exact hread.atMost

def withModel : Settings := [("model", .str "m")]

/-- The reply that proposes titles with pages. -/
def proposal (entries : List (String × Int)) : String :=
  "[" ++ Text.join ", " (entries.map fun (title, page) =>
    "\x7b\"title\": \"" ++ title ++ "\", \"physical_index\": " ++ Decimal.intText page ++ "\x7d") ++
    "]"

/-- A session with a page beyond the end and a wrong one, for which a page beyond the end is found.
-/
def pagesBeyond : Session :=
  scripted [proposal [("A", 1), ("B", 3), ("C", 2), ("D", 9)], rightOrNot "yes", rightOrNot "no",
    rightOrNot "yes", foundOn "9"]

/-- The table at the end of that session. -/
def beyondDropped : List Value :=
  [entryOn "A" 1, entryOn "B" 3, entryOn "C" 2,
    .object [("title", .str "D"), ("physical_index", .null)]]

/-- A page beyond the end is taken away, or not written by repair; one that a second round finds is.
-/
theorem pages_beyond_are_dropped :
    (∃ l', (build .words withModel {} threePages .plain).Returns pagesBeyond {} beyondDropped
        l' ∧
      ∀ entry ∈ beyondDropped, PageAtMost 3 entry) ∧
    ∃ l', (repairAll (.str "m") threePages 2 [entryOn "A" 1, entryOn "B" 3, entryOn "C" 2]
        [wrongAt 1 "B" 3]).Returns secondTry {}
        ([entryOn "A" 1, entryOn "B" 2, entryOn "C" 2], []) l' ∧
      (∀ entry ∈ [entryOn "A" 1, entryOn "B" 3, entryOn "C" 2], PageAtMost 3 entry) ∧
      ∀ entry ∈ [entryOn "A" 1, entryOn "B" 2, entryOn "C" 2], PageAtMost 3 entry := by
  have hbuild : ((build .words withModel {} threePages .plain).execute pagesBeyond {}).1 =
      .ok beyondDropped := by
    decide +kernel
  have hrepair : ((repairAll (.str "m") threePages 2 [entryOn "A" 1, entryOn "B" 3, entryOn "C" 2]
      [wrongAt 1 "B" 3]).execute secondTry {}).1 =
      .ok ([entryOn "A" 1, entryOn "B" 2, entryOn "C" 2], []) := by
    decide +kernel
  have hbefore : ∀ entry ∈ [entryOn "A" 1, entryOn "B" 3, entryOn "C" 2], PageAtMost 3 entry := by
    simp only [forall_mem_cons]
    exact ⟨⟨_, rfl, .inr ⟨1, rfl, by decide⟩⟩, ⟨_, rfl, .inr ⟨3, rfl, by decide⟩⟩,
      ⟨_, rfl, .inr ⟨2, rfl, by decide⟩⟩, fun _ h => nomatch h⟩
  refine ⟨⟨_, returns_of_outcome hbuild, ?_⟩, _, returns_of_outcome hrepair, hbefore, ?_⟩
  · exact (pages_within_document _ _ _ threePages _ _).1 _ _ _ (returns_of_outcome hbuild)
  · exact (pages_within_document .words [] {} threePages _ _).2 _ _ _ _ _ _ _
      (returns_of_outcome hrepair) hbefore

/-! ### The start of the document -/

/-- **A page before the start of the document is one that was named so**, and is read as the page
counted from the end. If neither the accepted table nor the pages that repair wrote name such a
page, no lookup counts from the end. -/
theorem pages_before_start_are_named (counter : TokenCounter) (settings : Settings)
    (printed : Printed) (e : Excerpt) (mode : Mode) (session : Session) (l l' : Ledger)
    (entries : List Value) (hfirst : 1 ≤ e.first)
    (h : (build counter settings printed e mode).Returns session l entries l') :
    ∃ rejected t rounds,
      (trials counter settings printed e mode.fallbacks).Returns session l
        (rejected, .accepted t rounds entries) l' ∧
      (∀ entry ∈ entries, ∃ page, entry.field? "physical_index" = some page ∧
        (page = .null ∨ ∃ n, page.int? = some n ∧ e.first - e.pages.length ≤ n ∧ n ≤ e.last ∧
          (n < e.first → e.textOf page = e.textOf (.int (n + e.pages.length))))) ∧
      ((∀ entry ∈ t.entries, ∀ n, entry.intField? "physical_index" = some n → e.first ≤ n) →
        (∀ f ∈ carriedFixes rounds, ∀ n, f.page.int? = some n → e.first ≤ n) →
        ∀ entry ∈ entries, ∀ n, entry.intField? "physical_index" = some n →
          0 ≤ n - e.first ∧ 0 ≤ n - 1) := by
  obtain ⟨rejected, t, rounds, htrials, hsound, haccepted⟩ := exists_accepted_of_build h
  refine ⟨rejected, t, rounds, htrials, fun entry hentry => ?_,
    fun htable hfixes entry hentry n hn => ?_⟩
  · obtain ⟨page, hpage, rfl | hreads⟩ := haccepted.pageRead_of_mem hsound entry hentry
    · exact ⟨.null, hpage, .inl rfl⟩
    · obtain ⟨n, hn, hlow, hhigh⟩ := Excerpt.reads_iff.mp hreads
      exact ⟨page, hpage, .inr ⟨n, hn, hlow, hhigh, Excerpt.textOf_of_before hn hlow⟩⟩
  · have hstart : e.first ≤ n := by
      rw [haccepted.reads.1] at hentry
      rcases mem_applyFixes hentry with hentry | ⟨f, hf, hpage⟩
      · exact htable entry hentry n hn
      · rw [Value.intField?, hpage] at hn
        exact hfixes f hf n hn
    omega

/-- A session in which a wrong page is repaired, and no page before the start is named. -/
def pagesFromStart : Session :=
  scripted [proposal [("A", 1), ("B", 3), ("C", 2)], rightOrNot "yes", rightOrNot "no",
    rightOrNot "yes", foundOn "2", rightOrNot "yes"]

/-- The table that is checked, the pages that repair writes, and the table that is returned. -/
def Ending.pages? : Ending → Option (List Value × List Value × List Value)
  | .accepted t rounds entries => some (t.entries, (carriedFixes rounds).map Fix.page, entries)
  | _ => none

/-- With no page before the start, no lookup counts from the end. -/
theorem pages_from_start_stay :
    ∃ rejected t rounds l', 1 ≤ threePages.first ∧
      (build .words withModel {} threePages .plain).Returns pagesFromStart {}
        [entryOn "A" 1, entryOn "B" 2, entryOn "C" 2] l' ∧
      (trials .words withModel {} threePages Mode.plain.fallbacks).Returns pagesFromStart {}
        (rejected, .accepted t rounds [entryOn "A" 1, entryOn "B" 2, entryOn "C" 2]) l' ∧
      t.entries = [entryOn "A" 1, entryOn "B" 3, entryOn "C" 2] ∧
      (carriedFixes rounds).map Fix.page = [.int 2] ∧
      ∀ entry ∈ [entryOn "A" 1, entryOn "B" 2, entryOn "C" 2], ∀ n,
        entry.intField? "physical_index" = some n → 0 ≤ n - threePages.first ∧ 0 ≤ n - 1 := by
  have hpages : ((trials .words withModel {} threePages Mode.plain.fallbacks).execute
      pagesFromStart {}).1.map (fun r => r.2.pages?) =
      .ok (some ([entryOn "A" 1, entryOn "B" 3, entryOn "C" 2], [.int 2],
        [entryOn "A" 1, entryOn "B" 2, entryOn "C" 2])) := by
    decide +kernel
  obtain ⟨⟨rejected, ending⟩, l', htrials, hending⟩ := returns_of_map_outcome hpages
  cases ending with
  | failed => cases hending
  | exhausted => cases hending
  | accepted t rounds entries =>
    simp only [Ending.pages?, Option.some.injEq, Prod.mk.injEq] at hending
    obtain ⟨htable, hfixes, rfl⟩ := hending
    have hbuild := execute_tryModes_of_trials htrials
    obtain ⟨rejected', t', rounds', htrials', -, hstart⟩ :=
      pages_before_start_are_named _ _ _ _ _ _ _ _ _ (by decide) hbuild
    obtain ⟨⟨⟩, -⟩ := htrials'.unique htrials
    refine ⟨rejected, t, rounds, l', by decide, hbuild, htrials, htable, hfixes,
      hstart ?_ ?_⟩
    · rw [htable]
      simp [entryOn, Value.intField?, Fields.get?, Value.int?, threePages]
    · intro f hf n hn
      have hpage : f.page ∈ (carriedFixes rounds).map Fix.page := mem_map_of_mem hf
      rw [hfixes, mem_singleton] at hpage
      rw [hpage] at hn
      cases hn
      decide

/-- **A page before the start is accepted**: page 0 is read as the last page. -/
theorem page_before_start_is_accepted :
    (∃ l', (build .words withModel {} threePages .plain).Returns
      (scripted [proposal [("A", 0), ("B", 2)], rightOrNot "yes", rightOrNot "yes"]) {}
      [entryOn "A" 0, entryOn "B" 2] l') ∧
    threePages.first = 1 ∧ (entryOn "A" 0).intField? "physical_index" = some 0 ∧
    threePages.textOf (.int 0) = threePages.textOf (.int threePages.last) :=
  ⟨⟨_, returns_of_outcome (by decide +kernel)⟩, rfl, rfl, by decide⟩

end Contents

end DocTree
