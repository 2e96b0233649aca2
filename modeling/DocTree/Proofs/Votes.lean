import DocTree.Contents.Build
import DocTree.Proofs.Run
import DocTree.Proofs.Value

/-!
# Votes for the offset

The entries that the model finds on the pages after a printed table vote for its offset. A vote may
name the last page of the printed table itself. Where nobody votes, an entry with a whole number as
its page ends the work, and no other mode is tried.
-/

namespace DocTree.Contents

open Run Value List

variable {model contents positions checkedPages : Value} {pages : List Page} {session : Session}
  {l l' : Ledger}

/-! ### Stages -/

/-- What is known when the votes are **cast**: the printed entries, the pages shown, the entries
found, and the pairs that vote. -/
structure Ballot where
  entries : Value
  shown : String
  located : Value
  pairs : List Value

/-- The votes for the offset of a printed table. -/
def ballot (model : Value) (pages : List Page) (contents positions checkedPages : Value) :
    Run Ballot := do
  let entries ← transform model contents
  Run.info (.str ("toc_with_page_number: " ++ entries.display))
  let unnumbered := Outline.dropPageNumbers entries
  let start ← (← positions.item (-1)).add (.int 1)
  let stop ← shownEnd start checkedPages pages.length
  let shown ← Page.range (fun i => (Page.textAt pages i).map (Excerpt.labelled (i + 1)))
    (← start.integer) stop
  let located ← locate model unnumbered (.str shown)
  Run.info (.str ("toc_with_physical_index: " ++ located.display))
  let located ← Outline.readLabels located
  Run.info (.str ("toc_with_physical_index: " ++ located.display))
  return ⟨entries, shown, located, ← pairs entries located start⟩

/-- The entries of a printed table, and the **offset** that the votes decide on. -/
def survey (model : Value) (pages : List Page) (contents positions checkedPages : Value) :
    Run (Value × Value) := do
  let b ← ballot model pages contents positions checkedPages
  Run.info (.str ("matching_pairs: " ++ (Value.list b.pairs).display))
  let shift ← offset (.list b.pairs)
  Run.info (.str ("offset: " ++ shift.display))
  return (b.entries, shift)

/-- The entries moved by an offset, with the pages that are still missing. -/
def moved (model : Value) (pages : List Page) (entries shift : Value) : Run Value := do
  let moved ← applyOffset entries shift
  Run.info (.str ("toc_with_page_number: " ++ moved.display))
  let complete ← placeAll model { pages := pages } moved
  Run.info (.str ("toc_with_page_number: " ++ complete.display))
  return complete

/-- First the votes, then the offset. -/
theorem fromNumbers_eq : fromNumbers model pages contents positions checkedPages =
    survey model pages contents positions checkedPages >>= fun s => moved model pages s.1 s.2 := by
  simp only [fromNumbers, survey, ballot, moved, bind_assoc, pure_bind]

/-! ### Who votes -/

/-- A value **names** a page by a number. -/
def Names (v : Value) (n : Int) : Prop :=
  ((v.field? "physical_index").getD .null).toInteger = .ok n

/-- Two entries have the **same title**, or both have none. -/
def SameTitle (p q : Value) : Prop :=
  Value.same ((p.field? "title").getD .null) ((q.field? "title").getD .null) = true

/-- Two entries **cast a vote** with the same title and a page from `start` on, which it names. -/
theorem pair?_of_eq_ok {start : Int} {q p : Value} {vote? : Option Value}
    (h : pair? (.int start) q p = .ok vote?) :
    (∀ vote, vote? = some vote → SameTitle p q ∧ ∃ n, start ≤ n ∧ Names p n ∧ Names vote n) ∧
    ∀ n, SameTitle p q → Names p n → start ≤ n → ∃ vote, vote? = some vote ∧ Names vote n := by
  obtain ⟨title, htitle, h⟩ := bind_eq_ok.mp h
  obtain ⟨other, hother, h⟩ := bind_eq_ok.mp h
  obtain ⟨fs, rfl, rfl⟩ := lookup_eq_ok_iff.mp htitle
  obtain ⟨gs, rfl, rfl⟩ := lookup_eq_ok_iff.mp hother
  split at h
  · rename_i hsame
    obtain ⟨page, hpage, h⟩ := bind_eq_ok.mp h
    obtain ⟨_, ⟨⟩, hvalue⟩ := lookup_eq_ok_iff.mp hpage
    split at h
    · rename_i hnull
      cases h
      refine ⟨by rintro _ ⟨⟩, fun n _ hn _ => ?_⟩
      rw [Names, field?_object, hvalue, eq_null_of_isNull hnull] at hn
      cases hn
    · obtain ⟨number, hnumber, h⟩ := bind_eq_ok.mp h
      obtain ⟨late, hlate, h⟩ := bind_eq_ok.mp h
      cases (atMost_of_int? rfl rfl).symm.trans hlate
      have hnames : Names (.object fs) number := by rwa [Names, field?_object, hvalue]
      have hunique : ∀ n, Names (.object fs) n → n = number := fun n hn =>
        Except.ok.inj (hn.symm.trans hnames)
      by_cases hle : start ≤ number
      · rw [if_pos (decide_eq_true hle)] at h
        obtain ⟨printed, -, h⟩ := bind_eq_ok.mp h
        cases h
        refine ⟨?_, fun n _ hn _ => ⟨_, rfl, hunique n hn ▸ hnumber⟩⟩
        rintro _ ⟨⟩
        exact ⟨hsame, number, hle, hnames, hnumber⟩
      · rw [if_neg fun h => hle (of_decide_eq_true h)] at h
        cases h
        exact ⟨by rintro _ ⟨⟩, fun n _ hn hstart => absurd (hunique n hn ▸ hstart) hle⟩
  · rename_i hdiffer
    cases h
    exact ⟨by rintro _ ⟨⟩, fun n h => absurd h hdiffer⟩

/-- An entry that the model has found and a printed one with the **same title**. -/
def Ballot.Meet (b : Ballot) (p q : Value) : Prop :=
  (∃ ps, b.located.elements = .ok ps ∧ p ∈ ps) ∧ (∃ qs, b.entries.elements = .ok qs ∧ q ∈ qs) ∧
    SameTitle p q

/-- The pairs are the votes that are **cast**. -/
theorem pairs_of_eq_ok {b : Ballot} {start : Int}
    (h : pairs b.entries b.located (.int start) = .ok b.pairs) :
    (∀ vote ∈ b.pairs, ∃ p q n, b.Meet p q ∧ start ≤ n ∧ Names p n ∧ Names vote n) ∧
    ∀ p q n, b.Meet p q → Names p n → start ≤ n → ∃ vote ∈ b.pairs, Names vote n := by
  obtain ⟨ps, hps, h⟩ := bind_eq_ok.mp h
  obtain ⟨found, hfound, h⟩ := bind_eq_ok.mp h
  have hpairs : b.pairs = found.flatten := (Except.ok.inj h).symm
  have hfound := mapM_eq_ok_iff.mp hfound
  rw [hpairs]
  constructor
  · intro vote hvote
    obtain ⟨votes, hvotes, hvote⟩ := mem_flatten.mp hvote
    obtain ⟨p, hp, h⟩ := exists_left_of_forall₂ hfound votes hvotes
    obtain ⟨qs, hqs, h⟩ := bind_eq_ok.mp h
    obtain ⟨os, hos, rfl⟩ := exists_of_filterMapM h
    obtain ⟨o, ho, rfl⟩ := mem_filterMap.mp hvote
    obtain ⟨q, hq, hpair⟩ := exists_left_of_forall₂ hos _ ho
    obtain ⟨hsame, n, hn⟩ := (pair?_of_eq_ok hpair).1 vote rfl
    exact ⟨p, q, n, ⟨⟨ps, hps, hp⟩, ⟨qs, hqs, hq⟩, hsame⟩, hn⟩
  · rintro p q n ⟨⟨ps', hps', hp⟩, ⟨qs', hqs', hq⟩, hsame⟩ hn hstart
    cases hps.symm.trans hps'
    obtain ⟨votes, hvotes, h⟩ := exists_right_of_forall₂ hfound p hp
    obtain ⟨qs, hqs, h⟩ := bind_eq_ok.mp h
    cases hqs.symm.trans hqs'
    obtain ⟨os, hos, rfl⟩ := exists_of_filterMapM h
    obtain ⟨o, ho, hpair⟩ := exists_right_of_forall₂ hos q hq
    obtain ⟨vote, rfl, hvote⟩ := (pair?_of_eq_ok hpair).2 n hsame hn hstart
    exact ⟨vote, mem_flatten.mpr ⟨_, hvotes, mem_filterMap.mpr ⟨_, ho, rfl⟩⟩, hvote⟩

/-- A ballot follows the pages after the printed table. -/
theorem exists_of_ballot {b : Ballot} {last : Value} {k : Int}
    (h : (ballot model pages contents positions checkedPages).Returns session l b l')
    (hlast : positions.item (-1) = .ok last) (hk : last.int? = some k) :
    pairs b.entries b.located (.int (k + 1)) = .ok b.pairs ∧
      ∃ stop, Page.range (fun i => (Page.textAt pages i).map (Excerpt.labelled (i + 1))) (k + 1)
        stop = .ok b.shown := by
  have hstart : last.add (.int 1) = .ok (.int (k + 1)) := add_of_int? hk rfl
  obtain ⟨entries, _, -, h⟩ := h.of_bind
  obtain ⟨_, _, -, h⟩ := h.of_bind
  rw [hlast, lift_ok_bind, hstart, lift_ok_bind] at h
  obtain ⟨stop, _, -, h⟩ := h.of_bind
  obtain ⟨first, _, hfirst, h⟩ := h.of_bind
  cases hfirst.of_lift
  obtain ⟨shown, _, hshown, h⟩ := h.of_bind
  obtain ⟨_, _, -, h⟩ := h.of_bind
  obtain ⟨_, _, -, h⟩ := h.of_bind
  obtain ⟨located, _, -, h⟩ := h.of_bind
  obtain ⟨_, _, -, h⟩ := h.of_bind
  obtain ⟨found, _, hfound, h⟩ := h.of_bind
  cases h
  exact ⟨hfound.of_lift, stop, hshown.of_lift⟩

/-- **Votes name the last page of the printed table, or a later one.** The positions of the table
end with `k`, so that page has the number `k + 1`, and the pages shown are those from `k + 2` on.
All votes name later pages exactly if the model has not placed a printed title on that last page
itself. -/
theorem votes_name_last_contents_page_or_later {b : Ballot} {last : Value} {k : Int}
    (h : (ballot model pages contents positions checkedPages).Returns session l b l')
    (hlast : positions.item (-1) = .ok last) (hk : last.int? = some k) :
    (∃ stop, Page.range (fun i => (Page.textAt pages i).map (Excerpt.labelled (i + 1))) (k + 1)
      stop = .ok b.shown) ∧
    (∀ vote ∈ b.pairs, ∃ p q n, b.Meet p q ∧ k + 1 ≤ n ∧ Names p n ∧ Names vote n) ∧
    ((∀ vote ∈ b.pairs, ∀ n, Names vote n → k + 1 < n) ↔
      ∀ p q, b.Meet p q → ¬ Names p (k + 1)) := by
  obtain ⟨hpairs, hshown⟩ := exists_of_ballot h hlast hk
  obtain ⟨hcast, hall⟩ := pairs_of_eq_ok hpairs
  refine ⟨hshown, hcast, fun hlater p q hmeet hn => ?_, fun hnot vote hvote n hn => ?_⟩
  · obtain ⟨vote, hvote, hnames⟩ := hall p q (k + 1) hmeet hn (Int.le_refl _)
    exact Int.lt_irrefl _ (hlater vote hvote (k + 1) hnames)
  · obtain ⟨p, q, m, hmeet, hle, hp, hm⟩ := hcast vote hvote
    cases Except.ok.inj (hn.symm.trans hm)
    have hne : n ≠ k + 1 := fun h => hnot p q hmeet (h ▸ hp)
    omega

/-- A model that reads a printed table, finds it **complete** and gives labels. -/
def reader (table labels : String) : Session :=
  scripted ["\x7b\"table_of_contents\": " ++ table ++ "\x7d", "\x7b\"completed\": \"yes\"\x7d",
    labels]

/-- A printed table on the first page, and two pages after it. -/
def printedFirst : List Page := [⟨"Contents", 5⟩, ⟨"A", 5⟩, ⟨"B", 5⟩]

/-- The title A is found on the page after the printed table, and that page gets its vote. -/
theorem next_page_votes : ∃ b l',
    (ballot (.str "m") printedFirst (.str "Contents") (.list [.int 0]) (.int 3)).Returns
      (reader "[\x7b\"title\": \"A\", \"page\": 1\x7d]"
        "[\x7b\"title\": \"A\", \"physical_index\": \"<physical_index_2>\"\x7d]") {} b l' ∧
    b.pairs = [.object [("title", .str "A"), ("page", .int 1), ("physical_index", .int 2)]] ∧
    ((∀ vote ∈ b.pairs, ∀ n, Names vote n → 0 + 1 < n) ↔
      ∀ p q, b.Meet p q → ¬ Names p (0 + 1)) := by
  have hpairs : ((ballot (.str "m") printedFirst (.str "Contents") (.list [.int 0])
      (.int 3)).execute (reader "[\x7b\"title\": \"A\", \"page\": 1\x7d]"
        "[\x7b\"title\": \"A\", \"physical_index\": \"<physical_index_2>\"\x7d]") {}).1.map
      Ballot.pairs = .ok
        [.object [("title", .str "A"), ("page", .int 1), ("physical_index", .int 2)]] := by
    decide +kernel
  obtain ⟨b, l', hb, hpairs⟩ := returns_of_map_outcome hpairs
  exact ⟨b, l', hb, hpairs, (votes_name_last_contents_page_or_later hb rfl rfl).2.2⟩

/-- The title A is placed on the page of the printed table itself, whose vote is counted. -/
theorem contents_page_votes :
    ((ballot (.str "m") printedFirst (.str "Contents") (.list [.int 0]) (.int 3)).execute
      (reader
        "[\x7b\"title\": \"A\", \"page\": 1\x7d, \x7b\"title\": \"B\", \"page\": 2\x7d]"
        "[\x7b\"title\": \"A\", \"physical_index\": \"<physical_index_1>\"\x7d,
          \x7b\"title\": \"B\", \"physical_index\": \"<physical_index_3>\"\x7d]") {}).1.map
      Ballot.pairs = .ok
        [.object [("title", .str "A"), ("page", .int 1), ("physical_index", .int 1)],
          .object [("title", .str "B"), ("page", .int 2), ("physical_index", .int 3)]] := by
  decide +kernel

/-! ### A missing offset -/

/-- An entry that prints **no whole number** as its page. -/
def PrintsNone (entry : Value) : Prop :=
  (∃ fields, entry = .object fields) ∧ entry.intField? "page" = none

/-- The **first printed** page: that of an entry after others that print no whole number. -/
inductive FirstPrinted (page : Value) : List Value → Prop
  | here {entry : Value} {rest : List Value} (hpage : entry.field? "page" = some page)
      (hint : page.isInt = true) : FirstPrinted page (entry :: rest)
  | there {entry : Value} {rest : List Value} (hnone : PrintsNone entry)
      (hrest : FirstPrinted page rest) : FirstPrinted page (entry :: rest)

/-- Entries without a page stay. -/
theorem applyOffsetTo_of_printsNone {entry : Value} (h : PrintsNone entry) (shift : Value) :
    applyOffsetTo shift entry = .ok entry := by
  obtain ⟨⟨fields, rfl⟩, hnone⟩ := h
  rw [intField?_eq_getD, field?_object] at hnone
  refine bind_ok (lookup_eq_ok_iff.mpr ⟨fields, rfl, rfl⟩) (if_neg ?_)
  rw [Value.isInt, hnone]
  exact Bool.false_ne_true

/-- Nothing can be added to a page without an offset. -/
theorem applyOffsetTo_null {entry page : Value} (hpage : entry.field? "page" = some page)
    (hint : page.isInt = true) :
    applyOffsetTo .null entry = .error (.wrongKind (.noSum page.kind .null)) := by
  have hadd : page.add .null = .error (.wrongKind (.noSum page.kind .null)) := by
    cases page with
    | int n => rfl
    | bool b => rfl
    | _ => cases hint
  rw [applyOffsetTo, lookup_of_field? hpage]
  change (if page.isInt then _ else _) = _
  rw [if_pos hint, hadd]
  rfl

/-- Nothing is added to a page. -/
theorem applyOffset_null_of_firstPrinted {page : Value} {items : List Value}
    (h : FirstPrinted page items) :
    applyOffset (.list items) .null = .error (.wrongKind (.noSum page.kind .null)) := by
  have hitems : items.mapM (applyOffsetTo .null) =
      .error (.wrongKind (.noSum page.kind .null)) := by
    induction h with
    | here hpage hint =>
      rw [mapM_cons, applyOffsetTo_null hpage hint]
      rfl
    | there hnone _ ih =>
      rw [mapM_cons, applyOffsetTo_of_printsNone hnone, ih]
      rfl
  rw [applyOffset, hitems]
  rfl

/-- **A missing offset makes no difference** to a table without a first printed page. -/
theorem applyOffset_eq_of_not_firstPrinted {entries : Value}
    (h : ∀ items page, entries = .list items → ¬ FirstPrinted page items) (shift : Value) :
    applyOffset entries .null = applyOffset entries shift := by
  cases entries with
  | list items =>
    have hitems : items.mapM (applyOffsetTo .null) = items.mapM (applyOffsetTo shift) := by
      replace h := fun page => h items page rfl
      induction items with
      | nil => rfl
      | cons entry rest ih =>
        rw [mapM_cons, mapM_cons]
        cases entry with
        | object fields =>
          cases hint : (Value.object fields).intField? "page" with
          | none =>
            have hnone : PrintsNone (.object fields) := ⟨⟨fields, rfl⟩, hint⟩
            rw [applyOffsetTo_of_printsNone hnone, applyOffsetTo_of_printsNone hnone,
              ih fun page hrest => h page (.there hnone hrest)]
          | some n =>
            obtain ⟨page, hpage, hn⟩ := intField?_eq_some_iff.mp hint
            exact absurd (.here hpage (by rw [Value.isInt, hn]; rfl)) (h page)
        | _ => rfl
    rw [applyOffset, applyOffset, hitems]
  | _ => rfl

/-- The ledger after a mode is announced. -/
def announced (mode : Mode) (e : Excerpt) (l : Ledger) : Ledger :=
  { l with printed := l.printed ++ mode.name.display ++ "\n" ++
      ("start_index: " ++ Decimal.intText e.first) ++ "\n" }

/-- A failure of the first mode ends the search for a table. -/
theorem execute_tryModes_of_error {counter : TokenCounter} {settings : Settings}
    {printed : Printed} {e : Excerpt} {mode : Mode} {rest : List Mode} {why : Failure}
    (h : (mode.run counter settings printed e).execute session (announced mode e l) =
      (.error why, l')) :
    (tryModes counter settings printed e (mode :: rest)).execute session l =
      (.error why, l') := by
  have hline (text : String) (l₁ : Ledger) : (printLine text).Returns session l₁ ()
      { l₁ with printed := l₁.printed ++ text ++ "\n" } := rfl
  rw [tryModes, execute_bind_of_returns (hline _ _), execute_bind_of_returns (hline _ _)]
  exact execute_bind_of_error h

/-- **A missing offset stops tables that print whole pages.** If nobody votes, a table whose first
entry with a whole number as its page comes before any entry that is no object ends the work, with
the failure of the sum of that page and nothing. To every other table the missing offset does
nothing. -/
theorem missing_offset_stops_printed_pages {entries : Value}
    (h : (survey model pages contents positions checkedPages).Returns session l
      (entries, .null) l') :
    (∀ items page, entries = .list items → FirstPrinted page items →
      (fromNumbers model pages contents positions checkedPages).execute session l =
        (.error (.wrongKind (.noSum page.kind .null)), l') ∧
      ∀ counter settings e l₀, e.pages = pages → Settings.get settings "model" = .ok model →
        Settings.get settings "toc_check_page_num" = .ok checkedPages →
        l = announced .numbers e l₀ →
        (build counter settings ⟨contents, positions⟩ e .numbers).execute session l₀ =
          (.error (.wrongKind (.noSum page.kind .null)), l')) ∧
    ((∀ items page, entries = .list items → ¬ FirstPrinted page items) → ∀ shift,
      (fromNumbers model pages contents positions checkedPages).execute session l =
        (moved model pages entries shift).execute session l') := by
  constructor
  · rintro items page rfl hfirst
    have hfails : (fromNumbers model pages contents positions checkedPages).execute session l =
        (.error (.wrongKind (.noSum page.kind .null)), l') := by
      rw [fromNumbers_eq, execute_bind_of_returns h, moved, applyOffset_null_of_firstPrinted hfirst,
        lift_error_bind]
      rfl
    refine ⟨hfails, ?_⟩
    rintro counter settings e l₀ rfl hmodel hchecked rfl
    refine execute_tryModes_of_error ?_
    rw [Mode.run, hchecked, lift_ok_bind, hmodel, lift_ok_bind]
    exact hfails
  · intro hnot shift
    rw [fromNumbers_eq, execute_bind_of_returns h, moved, moved,
      applyOffset_eq_of_not_firstPrinted hnot shift]

/-- A table that prints the page "iv" is not stopped: the work goes on as with any offset. -/
theorem roman_page_is_not_stopped : ∃ l',
    (survey (.str "m") printedFirst (.str "Contents") (.list [.int 0]) (.int 3)).Returns
      (reader "[\x7b\"title\": \"A\", \"page\": \"iv\"\x7d]" "[]") {}
      (.list [.object [("title", .str "A"), ("page", .str "iv")]], .null) l' ∧
    ∀ shift, (fromNumbers (.str "m") printedFirst (.str "Contents") (.list [.int 0])
        (.int 3)).execute (reader "[\x7b\"title\": \"A\", \"page\": \"iv\"\x7d]" "[]") {} =
      (moved (.str "m") printedFirst (.list [.object [("title", .str "A"), ("page", .str "iv")]])
        shift).execute (reader "[\x7b\"title\": \"A\", \"page\": \"iv\"\x7d]" "[]") l' := by
  refine ⟨_, returns_of_outcome (by decide +kernel), ?_⟩
  refine (missing_offset_stops_printed_pages (returns_of_outcome (by decide +kernel))).2 ?_
  rintro _ page ⟨⟩ hfirst
  cases hfirst with
  | here hpage hint =>
    cases hpage
    cases hint
  | there _ hrest => cases hrest

/-- A table that prints the page 1, for which nobody votes, ends the work. -/
theorem printed_page_is_stopped :
    ((fromNumbers (.str "m") printedFirst (.str "Contents") (.list [.int 0]) (.int 3)).execute
      (reader "[\x7b\"title\": \"A\", \"page\": 1\x7d]" "[]") {}).1 =
        .error (.wrongKind (.noSum .int .null)) ∧
    ((survey (.str "m") printedFirst (.str "Contents") (.list [.int 0]) (.int 3)).execute
      (reader "[\x7b\"title\": \"A\", \"page\": 1\x7d]" "[]") {}).1 =
        .ok (.list [.object [("title", .str "A"), ("page", .int 1)]], .null) := by
  decide +kernel

end DocTree.Contents
