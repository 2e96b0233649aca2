import DocTree.Proofs.Coverage
import DocTree.Proofs.Excerpt
import DocTree.Proofs.Run

/-!
# What splitting keeps

A node that is too large gets the sections of a table of its own as children, in place of those that
it had, so whatever stands below it is lost. Its pages stay covered by that table, but a large
section of the table loses its own subsections when it is split in turn.
-/

namespace DocTree.Outline

open Run Value List

variable {l l' : Ledger} {pages : List Page} {entries items lost : List Value}
  {levels : Nat} {session : Session} {key : String} {marked model : Value}

/-! ### Entries that are placed -/

/-- An entry whose beginning could be asked for has a page that is read, if it has one. -/
theorem reads_of_startQuestion? {entry page : Value} {question? : Option (Value × String)}
    (h : Contents.startQuestion? pages entry = .ok question?)
    (hpage : entry.lookup "physical_index" = .ok page) (hnull : page.isNull = false) :
    Excerpt.Reads { pages := pages } page := by
  obtain ⟨page', hpage', h⟩ := bind_eq_ok.mp h
  cases hpage.symm.trans hpage'
  rw [hnull] at h
  obtain ⟨text, htext, -⟩ := bind_eq_ok.mp h
  exact ⟨text, htext⟩

/-- What is known about the beginning of an entry is written into the entry. -/
theorem exists_setField_of_markStart {entry m : Value} {outcome? : Option (Except Failure Value)}
    (h : (Contents.markStart entry outcome?).Returns session l m l') :
    ∃ answer, entry.setField "appear_start" answer = .ok m := by
  rcases outcome? with _ | ⟨why | answer⟩
  · exact ⟨_, h.of_lift⟩
  · obtain ⟨title, _, -, h⟩ := h.of_bind
    obtain ⟨-, _, -, h⟩ := h.of_bind
    exact ⟨_, h.of_lift⟩
  · exact ⟨_, h.of_lift⟩

/-- Marking beginnings changes nothing else in the entries. -/
theorem forall₂_of_markStarts
    (h : (Contents.markStarts model pages (.list items)).Returns session l marked l') :
    ∃ ms, marked = .list ms ∧ Forall₂ (fun item m =>
      (∃ question?, Contents.startQuestion? pages item = .ok question?) ∧
        ∃ answer, item.setField "appear_start" answer = .ok m) items ms := by
  obtain ⟨-, _, -, h⟩ := h.of_bind
  obtain ⟨_, _, hitems, h⟩ := h.of_bind
  cases hitems.of_lift
  obtain ⟨-, _, -, h⟩ := h.of_bind
  obtain ⟨questions, _, hquestions, h⟩ := h.of_bind
  obtain ⟨outcomes, _, houtcomes, h⟩ := h.of_bind
  split at h
  · rename_i hempty
    cases h
    obtain rfl := isEmpty_iff.mp hempty
    exact ⟨[], rfl, .nil⟩
  · obtain ⟨ms, _, hms, h⟩ := h.of_bind
    cases h
    refine ⟨ms, rfl, (forall₂_and_left _ _).mpr ⟨fun item hitem => ?_, ?_⟩⟩
    · obtain ⟨question?, -, _, _, hquestion⟩ :=
        exists_right_of_forall₂ hquestions.forall₂_of_mapM item hitem
      exact ⟨question?, hquestion.of_lift⟩
    · have hlength : items.length = outcomes.length :=
        hquestions.forall₂_of_mapM.length_eq.trans houtcomes.forall₂_of_mapM.length_eq
      have hmarks : Forall₂ (fun (entry : Value × Option (Except Failure Value)) m =>
          ∃ answer, entry.1.setField "appear_start" answer = .ok m) (items.zip outcomes) ms := by
        refine hms.forall₂_of_mapM.imp ?_
        rintro entry m ⟨l₁, l₁', hmark⟩
        exact exists_setField_of_markStart hmark
      rw [← map_fst_zip (Nat.le_of_eq hlength), forall₂_map_left_iff]
      exact hmarks

/-- The entries that are kept for sections have **pages that are read**. -/
theorem reads_of_placed
    (h : (Contents.markStarts model pages (.list items)).Returns session l marked l')
    (hplaced : Contents.placed marked = .ok entries) :
    ∀ entry ∈ entries, ∃ page, entry.field? "physical_index" = some page ∧
      Excerpt.Reads { pages := pages } page := by
  intro entry hentry
  obtain ⟨ms, rfl, hms⟩ := forall₂_of_markStarts h
  obtain ⟨hmem, hkept⟩ := (mem_filterM_iff hplaced entry).mp hentry
  obtain ⟨item, -, ⟨question?, hquestion⟩, answer, hanswer⟩ := exists_left_of_forall₂ hms entry hmem
  obtain ⟨fields, rfl, rfl⟩ := setField_eq_ok_iff.mp hanswer
  obtain ⟨page, hpage, hkept⟩ := bind_eq_ok.mp hkept
  obtain ⟨_, hfields, rfl⟩ := lookup_eq_ok_iff.mp hpage
  cases hfields
  rw [Fields.get?_set_of_ne _ _ (by decide)] at hkept
  have hnull : ((Fields.get? fields "physical_index").getD .null).isNull = false := by
    simpa using Except.ok.inj hkept
  have hreads := reads_of_startQuestion? hquestion rfl hnull
  cases hget : Fields.get? fields "physical_index" with
  | none =>
    rw [hget] at hnull
    cases hnull
  | some page =>
    rw [hget] at hreads
    refine ⟨page, ?_, hreads⟩
    rw [field?_object, Fields.get?_set_of_ne _ _ (by decide), hget]

/-- They have **whole numbers as their pages**. -/
theorem exists_intField?_of_placed
    (h : (Contents.markStarts model pages (.list items)).Returns session l marked l')
    (hplaced : Contents.placed marked = .ok entries) :
    ∀ entry ∈ entries, ∃ x, entry.intField? "physical_index" = some x := by
  intro entry hentry
  obtain ⟨page, hpage, hreads⟩ := reads_of_placed h hplaced entry hentry
  obtain ⟨x, hx, -⟩ := Excerpt.reads_iff.mp hreads
  exact ⟨x, intField?_eq_some_iff.mpr ⟨page, hpage, hx⟩⟩

/-! ### One node -/

/-- A node is **large**. -/
def IsLarge (settings : Settings) (pages : List Page) (v : Value) : Prop :=
  isLarge settings pages v = .ok true

instance (settings : Settings) (pages : List Page) (v : Value) :
    Decidable (IsLarge settings pages v) :=
  inferInstanceAs (Decidable (_ = _))

/-- What becomes of a node: it is **kept**, or its section is **divided** among the entries of a
table with whole numbers as pages. -/
inductive Divided (settings : Settings) (pages : List Page) (v : Value) : Value → Prop
  | kept (hlarge : ¬ IsLarge settings pages v) : Divided settings pages v v
  | divided {v' : Value} {entries : List Value} (hlarge : IsLarge settings pages v)
      (hplaced : ∀ entry ∈ entries, ∃ x, entry.intField? "physical_index" = some x)
      (hsections : withSections v entries = .ok v') : Divided settings pages v v'

section

variable {counter : TokenCounter} {settings : Settings} {pages : List Page} {v v' : Value}
  {session : Session} {l l' : Ledger}

/-- Splitting gives a node sections. -/
theorem exists_withSections_of_splitNode
    (h : (splitNode counter settings pages v).Returns session l v' l') :
    ∃ entries, (∀ entry ∈ entries, ∃ x, entry.intField? "physical_index" = some x) ∧
      withSections v entries = .ok v' := by
  obtain ⟨own, _, -, h⟩ := h.of_bind
  obtain ⟨start, _, -, h⟩ := h.of_bind
  obtain ⟨first, _, -, h⟩ := h.of_bind
  obtain ⟨items, _, -, h⟩ := h.of_bind
  obtain ⟨model, _, -, h⟩ := h.of_bind
  obtain ⟨marked, _, hmarked, h⟩ := h.of_bind
  obtain ⟨entries, _, hentries, h⟩ := h.of_bind
  have hplaced := exists_intField?_of_placed hmarked hentries.of_lift
  cases entries with
  | nil => exact ⟨[], hplaced, h.of_lift⟩
  | cons entry rest =>
    obtain ⟨isOwn, _, -, h⟩ := h.of_bind
    have hsections := h.of_lift
    cases isOwn with
    | true => exact ⟨rest, fun e he => hplaced e (.tail _ he), hsections⟩
    | false => exact ⟨entry :: rest, hplaced, hsections⟩

/-- **All that can become of a node** on its own level. -/
theorem divided_of_splitIfLarge
    (h : (splitIfLarge counter settings pages v).Returns session l v' l') :
    Divided settings pages v v' := by
  obtain ⟨large, _, hlarge, h⟩ := h.of_bind
  replace hlarge := hlarge.of_lift
  cases large with
  | true =>
    obtain ⟨-, _, -, h⟩ := h.of_bind
    obtain ⟨entries, hplaced, hsections⟩ := exists_withSections_of_splitNode h
    exact .divided hlarge hplaced hsections
  | false =>
    cases h
    exact .kept fun hnot => nomatch hlarge.symm.trans hnot

/-- The sections that a node is divided into **stand below it**. -/
theorem exists_roots_of_withSections (h : withSections v entries = .ok v') :
    ∃ stop rs roots, v.field? "end_index" = some stop ∧ withRanges stop entries = .ok rs ∧
      nest (.list rs) = .ok (.list roots) ∧ v'.field? "nodes" = some (.list roots) := by
  obtain ⟨fs, stop, rs, roots, gs, rfl, hstop, hrs, hnested, rfl, hgs⟩ := exists_of_withSections h
  refine ⟨stop, rs, roots, hstop, hrs, hnested, ?_⟩
  rcases hgs with ⟨rfl, -⟩ | ⟨start, rfl, -⟩
  · exact Fields.get?_set_self _ _ _
  · rw [field?_object, Fields.get?_set_of_ne _ _ (by decide), Fields.get?_set_self]

/-- The other fields stay. -/
theorem Divided.field?_eq (hnodes : "nodes" ≠ key) (hend : "end_index" ≠ key)
    (h : Divided settings pages v v') : v'.field? key = v.field? key := by
  cases h with
  | kept hlarge => rfl
  | divided hlarge hplaced hsections =>
    obtain ⟨fs, _, _, roots, gs, rfl, -, -, -, rfl, hgs⟩ := exists_of_withSections hsections
    rcases hgs with ⟨rfl, -⟩ | ⟨start, rfl, -⟩
    · exact Fields.get?_set_of_ne _ _ hnodes
    · rw [field?_object, Fields.get?_set_of_ne _ _ hend, Fields.get?_set_of_ne _ _ hnodes]
      rfl

/-! ### All levels -/

/-- A node with all large nodes below it split, and these nodes **as they were before**: their own
children are given up. -/
def splitLargeWithLosses (counter : TokenCounter) (settings : Settings) (pages : List Page) :
    (levels : Nat) → (v : Value) → Run (Value × List Value)
  | 0, _ => Run.fail .outOfFuel
  | levels + 1, v => do
    let v ← splitIfLarge counter settings pages v
    let below ← v.lookup "nodes"
    if !below.isTruthy then return (v, [])
    let items ← below.elements
    let results ← Run.together (items.map (splitLargeWithLosses counter settings pages levels))
    let v ← v.setField "nodes" (.list (results.map Prod.fst))
    return (v, items.filter (IsLarge settings pages ·) ++ results.flatMap Prod.snd)

/-- Forgetting the losses gives exactly the plain splitting. -/
theorem map_fst_splitLargeWithLosses (levels : Nat) (v : Value) :
    Prod.fst <$> splitLargeWithLosses counter settings pages levels v =
      splitLarge counter settings pages levels v := by
  induction levels generalizing v with
  | zero => rfl
  | succ levels ih =>
    have hih : splitLarge counter settings pages levels =
        fun v => Prod.fst <$> splitLargeWithLosses counter settings pages levels v :=
      funext fun v => (ih v).symm
    simp only [splitLargeWithLosses, splitLarge, hih, together_map, map_bind, bind_map_left]
    refine bind_congr fun w => bind_congr fun below => ?_
    split
    · rfl
    · simp

/-- A text cannot be split. -/
theorem not_returns_splitLargeWithLosses_str {text : String} {r : Value × List Value} :
    ¬ (splitLargeWithLosses counter settings pages levels (.str text)).Returns session l r
      l' := by
  intro h
  cases levels with
  | zero => exact not_returns_fail h
  | succ levels =>
    obtain ⟨_, _, hsplit, -⟩ := h.of_bind
    obtain ⟨large, _, hlarge, -⟩ := hsplit.of_bind
    cases hlarge.of_lift

/-- What is found in place of children is a list of them, unless it holds texts. -/
theorem get?_nodes_of_elements {fields : Fields}
    (htruthy : ((fields.get? "nodes").getD .null).isTruthy = true)
    (hitems : ((fields.get? "nodes").getD .null).elements = .ok items)
    (htexts : ∀ text, Value.str text ∉ items) :
    fields.get? "nodes" = some (.list items) := by
  cases hget : fields.get? "nodes" with
  | none =>
    rw [hget] at hitems
    cases hitems
  | some below =>
    rw [hget, Option.getD_some] at htruthy hitems
    cases below with
    | list cs =>
      cases hitems
      rfl
    | object inner =>
      cases hitems
      cases inner with
      | nil => cases htruthy
      | cons f inner => exact absurd (.head _) (htexts f.1)
    | str text =>
      cases hitems
      cases hchars : text.toList with
      | nil =>
        rw [String.toList_eq_nil_iff] at hchars
        rw [hchars] at htruthy
        cases htruthy
      | cons c cs =>
        rw [hchars] at htexts
        exact absurd (.head _) (htexts _)
    | null => cases hitems
    | bool b => cases hitems
    | int n => cases hitems
    | float x => cases hitems

/-- **One level of splitting**: the node is kept or divided, and its children are split. -/
theorem exists_divided_of_splitLargeWithLosses
    (h : (splitLargeWithLosses counter settings pages (levels + 1) v).Returns session l
      (v', lost) l') :
    ∃ w results, Divided settings pages v w ∧
      Forall₂ (fun c r => ∃ l₁ l₁',
        (splitLargeWithLosses counter settings pages levels c).Returns session l₁ r l₁')
        (children w) results ∧
      children v' = results.map Prod.fst ∧
      (∀ key, "nodes" ≠ key → v'.field? key = w.field? key) ∧
      lost = (children w).filter (IsLarge settings pages ·) ++ results.flatMap Prod.snd ∧
      (v' = w ∨ ∃ fields, w = .object fields ∧
        Fields.get? fields "nodes" = some (.list (children w)) ∧
        v' = .object (Fields.set fields "nodes" (.list (results.map Prod.fst)))) := by
  obtain ⟨w, _, hw, h⟩ := h.of_bind
  have hdivided := divided_of_splitIfLarge hw
  obtain ⟨below, _, hbelow, h⟩ := h.of_bind
  obtain ⟨fields, rfl, rfl⟩ := lookup_eq_ok_iff.mp hbelow.of_lift
  split at h
  · -- no children
    rename_i hfalsy
    have hempty : children (.object fields) = [] := by
      rw [children, field?_object]
      split
      · rename_i items hitems
        rw [hitems] at hfalsy
        simpa [Value.isTruthy] using hfalsy
      · rfl
    cases h
    refine ⟨_, [], hdivided, ?_, hempty, fun key _ => rfl, ?_, .inl rfl⟩
    · rw [hempty]
      exact .nil
    · rw [hempty]
      rfl
  · rename_i htruthy
    obtain ⟨items, _, hitems, h⟩ := h.of_bind
    obtain ⟨results, _, hresults, h⟩ := h.of_bind
    obtain ⟨_, _, hset, h⟩ := h.of_bind
    obtain ⟨_, hfields, rfl⟩ := setField_eq_ok_iff.mp hset.of_lift
    cases hfields
    cases h
    have hbelow := hresults.forall₂_of_together
    have htexts : ∀ text, Value.str text ∉ items := by
      intro text hmem
      obtain ⟨r, -, l₁, l₁', hreturns⟩ := exists_right_of_forall₂ hbelow _ hmem
      exact not_returns_splitLargeWithLosses_str hreturns
    have hnodes : Fields.get? fields "nodes" = some (.list items) :=
      get?_nodes_of_elements (by simpa using htruthy) hitems.of_lift htexts
    have hchildren : children (.object fields) = items := children_of_field? hnodes
    refine ⟨_, results, hdivided, hchildren.symm ▸ hbelow, ?_, fun key hkey => ?_, ?_,
      .inr ⟨fields, rfl, hchildren.symm ▸ hnodes, rfl⟩⟩
    · exact children_of_field? (Fields.get?_set_self _ _ _)
    · exact Fields.get?_set_of_ne _ _ hkey
    · rw [hchildren]

/-! ### Sections that are kept -/

/-- A node below another one is **spared**: no node on the way down to it is large. -/
inductive Spared (settings : Settings) (pages : List Page) (d : Value) : (v : Value) → Prop
  | child {v : Value} (hlarge : ¬ IsLarge settings pages v) (hd : d ∈ children v) :
      Spared settings pages d v
  | deeper {c v : Value} (hlarge : ¬ IsLarge settings pages v) (hc : c ∈ children v)
      (hd : Spared settings pages d c) : Spared settings pages d v

/-- If no large node has children, everything below a node is spared. -/
theorem spared_of_below {d : Value}
    (hlarge : ∀ n, Within n v → IsLarge settings pages n → children n = []) (hd : Below d v) :
    Spared settings pages d v := by
  obtain ⟨c, hc, hd⟩ := hd
  induction hd generalizing v with
  | self =>
    refine .child (fun hv => ?_) hc
    rw [hlarge v .self hv] at hc
    cases hc
  | child hc' hd ih =>
    refine .deeper (fun hv => ?_) hc (ih (fun n hn => hlarge n (.child hc hn)) hc')
    rw [hlarge v .self hv] at hc
    cases hc

/-- Splitting keeps every field of a node but its children and its last page. -/
theorem field?_of_splitLargeWithLosses (hnodes : "nodes" ≠ key) (hend : "end_index" ≠ key)
    (h : (splitLargeWithLosses counter settings pages levels v).Returns session l
      (v', lost) l') : v'.field? key = v.field? key := by
  cases levels with
  | zero => exact absurd h not_returns_fail
  | succ levels =>
    obtain ⟨w, results, hdivided, -, -, hfields, -⟩ := exists_divided_of_splitLargeWithLosses h
    rw [hfields key hnodes, hdivided.field?_eq hnodes hend]

/-- **Spared sections are kept**, with their titles and their first pages. -/
theorem exists_below_of_spared {d : Value}
    (h : (splitLargeWithLosses counter settings pages levels v).Returns session l
      (v', lost) l') (hd : Spared settings pages d v) :
    ∃ d', Below d' v' ∧ d'.field? "title" = d.field? "title" ∧
      d'.field? "start_index" = d.field? "start_index" := by
  induction levels generalizing v v' lost l l' with
  | zero => exact absurd h not_returns_fail
  | succ levels ih =>
    obtain ⟨w, results, hdivided, hresults, hchildren, -, -⟩ :=
      exists_divided_of_splitLargeWithLosses h
    have hkept : ¬ IsLarge settings pages v → w = v := by
      intro hlarge
      cases hdivided with
      | kept => rfl
      | divided hnot => exact absurd hnot hlarge
    -- every child has its result among the children afterwards
    have hresult : ∀ c ∈ children w, ∃ c' ∈ children v', ∃ lost k k',
        (splitLargeWithLosses counter settings pages levels c).Returns session k (c', lost) k' := by
      intro c hc
      obtain ⟨⟨c', lost⟩, hmem, k, k', hreturns⟩ := exists_right_of_forall₂ hresults c hc
      exact ⟨c', hchildren ▸ mem_map_of_mem hmem, lost, k, k', hreturns⟩
    cases hd with
    | child hlarge hd =>
      rw [hkept hlarge] at hresult
      obtain ⟨d', hd', lost, k, k', hreturns⟩ := hresult d hd
      exact ⟨d', ⟨d', hd', .self⟩, field?_of_splitLargeWithLosses (by decide) (by decide) hreturns,
        field?_of_splitLargeWithLosses (by decide) (by decide) hreturns⟩
    | @deeper c v hlarge hc hd =>
      rw [hkept hlarge] at hresult
      obtain ⟨c', hc', lost, k, k', hreturns⟩ := hresult c hc
      obtain ⟨d', hbelow, htitle, hstart⟩ := ih hreturns hd
      exact ⟨d', ⟨c', hc', hbelow.within⟩, htitle, hstart⟩

/-! ### Sections without influence -/

/-- Two nodes **agree above large nodes**: they differ in what large nodes have below them only. -/
inductive AgreeAbove (settings : Settings) (pages : List Page) : Value → Value → Prop
  | refl (v : Value) : AgreeAbove settings pages v v
  | large {fields : Fields} {below : Value} (hlarge : IsLarge settings pages (.object fields)) :
      AgreeAbove settings pages (.object fields) (.object (fields.set "nodes" below))
  | children {fields : Fields} {cs cs' : List Value}
      (hnodes : fields.get? "nodes" = some (.list cs))
      (hagree : Forall₂ (AgreeAbove settings pages) cs cs') :
      AgreeAbove settings pages (.object fields) (.object (fields.set "nodes" (.list cs')))

section

variable (fields : Fields) (below : Value)

/-- New children keep the other fields. -/
theorem field_set_nodes (hkey : "nodes" ≠ key) :
    (Value.object (fields.set "nodes" below)).field key =
      (Value.object fields).field key := by
  simp only [Value.field, Fields.get?_set_of_ne _ _ hkey]

/-- They keep the pages. -/
theorem ownPages_set_nodes :
    ownPages pages (.object (fields.set "nodes" below)) =
      ownPages pages (.object fields) := by
  simp only [ownPages, field_set_nodes, ne_eq, String.reduceEq, not_false_eq_true]

/-- Whether a node is large does not depend on its children. -/
theorem isLarge_set_nodes :
    isLarge settings pages (.object (fields.set "nodes" below)) =
      isLarge settings pages (.object fields) := by
  simp only [isLarge, ownPages_set_nodes, field_set_nodes, ne_eq, String.reduceEq,
    not_false_eq_true]

/-- How a node is divided does not depend on its children. -/
theorem withSections_set_nodes (entries : List Value) :
    withSections (.object (fields.set "nodes" below)) entries =
      withSections (.object fields) entries := by
  simp only [withSections, field_set_nodes, ne_eq, String.reduceEq, not_false_eq_true,
    Value.setField, Fields.set_set]

/-- What becomes of a large node does not depend on its children. -/
theorem splitNode_set_nodes :
    splitNode counter settings pages (.object (fields.set "nodes" below)) =
      splitNode counter settings pages (.object fields) := by
  simp only [splitNode, sameTitle, ownPages_set_nodes, withSections_set_nodes, field_set_nodes,
    ne_eq, String.reduceEq, not_false_eq_true]

/-- They keep the announcement. -/
theorem announceLarge_set_nodes :
    announceLarge pages (.object (fields.set "nodes" below)) =
      announceLarge pages (.object fields) := by
  simp only [announceLarge, ownPages_set_nodes, field_set_nodes, ne_eq, String.reduceEq,
    not_false_eq_true]

end

/-- Old children do not matter. -/
theorem splitIfLarge_set_nodes {fields : Fields} (below : Value)
    (hlarge : IsLarge settings pages (.object fields)) :
    splitIfLarge counter settings pages (.object (fields.set "nodes" below)) =
      splitIfLarge counter settings pages (.object fields) := by
  rw [IsLarge] at hlarge
  simp only [splitIfLarge, isLarge_set_nodes, hlarge, lift_ok_bind, if_true,
    announceLarge_set_nodes, splitNode_set_nodes]

/-- **What large nodes have below them has no influence** on splitting, at any depth. -/
theorem splitLarge_of_agreeAbove {w : Value} (h : AgreeAbove settings pages v w) :
    splitLarge counter settings pages levels w = splitLarge counter settings pages levels v := by
  induction levels generalizing v w with
  | zero => rfl
  | succ levels ih =>
    cases h with
    | refl => rfl
    | large hlarge => rw [splitLarge, splitLarge, splitIfLarge_set_nodes _ hlarge]
    | @children fields cs cs' hnodes hagree =>
      by_cases hlarge : IsLarge settings pages (.object fields)
      · rw [splitLarge, splitLarge, splitIfLarge_set_nodes _ hlarge]
      have hmap : cs'.map (splitLarge counter settings pages levels) =
          cs.map (splitLarge counter settings pages levels) := by
        clear hnodes
        induction hagree with
        | nil => rfl
        | cons hc hrest ihrest => rw [map_cons, map_cons, ih hc, ihrest]
      cases hl : isLarge settings pages (.object fields) with
      | error why =>
        simp only [splitLarge, splitIfLarge, isLarge_set_nodes, hl, lift_error_bind]
      | ok large =>
        cases large with
        | true => exact absurd hl hlarge
        | false =>
          simp only [splitLarge, splitIfLarge, isLarge_set_nodes, hl, lift_ok_bind, pure_bind,
            Bool.false_eq_true, if_false, Value.lookup, Value.lookupOr, hnodes, Option.getD_some,
            Fields.get?_set_self, Value.elements, Value.isTruthy, Value.setField, Fields.set_set,
            hmap]
          cases hagree with
          | nil =>
            rw [Fields.set_of_get? hnodes]
            rfl
          | cons hc hrest => rfl

/-! ### Pages that are kept -/

/-- A page of a node **stays covered**, unless it is one of a section that a large node below has
given up. -/
theorem coversWithin_or_coversBelow {p : Int}
    (h : (splitLargeWithLosses counter settings pages levels v).Returns session l
      (v', lost) l') (hp : Covers v p ∨ ¬ IsLarge settings pages v ∧ CoversWithin v p) :
    CoversWithin v' p ∨ CoversBelow lost p := by
  induction levels generalizing v v' lost l l' with
  | zero => exact absurd h not_returns_fail
  | succ levels ih =>
    obtain ⟨w, results, hdivided, hresults, hchildren, hfields, rfl, -⟩ :=
      exists_divided_of_splitLargeWithLosses h
    have hw : CoversWithin w p := by
      cases hdivided with
      | kept hlarge =>
        rcases hp with hp | ⟨-, hp⟩
        · exact ⟨v, .self, hp⟩
        · exact hp
      | divided hlarge hplaced hsections =>
        rcases hp with hp | ⟨hnot, -⟩
        · exact coversWithin_of_withSections hsections hp hplaced
        · exact absurd hlarge hnot
    obtain ⟨d, hd, hcovers⟩ := hw
    cases hd with
    | self =>
      refine .inl ⟨v', .self, hcovers.congr ?_ ?_⟩
      · rw [Value.intField?, hfields _ (by decide), Value.intField?]
      · rw [Value.intField?, hfields _ (by decide), Value.intField?]
    | @child c w hc hd =>
      obtain ⟨⟨c', lost⟩, hmem, l₁, l₁', hreturns⟩ := exists_right_of_forall₂ hresults c hc
      -- what lies below a large child is given up
      by_cases hgiven : IsLarge settings pages c ∧ Below d c
      · refine .inr ⟨c, mem_append_left _ (mem_filter.mpr ⟨hc, ?_⟩), d, hgiven.2, hcovers⟩
        exact decide_eq_true hgiven.1
      have hpc : Covers c p ∨ ¬ IsLarge settings pages c ∧ CoversWithin c p := by
        by_cases hlarge : IsLarge settings pages c
        · rcases hd.eq_or_below with rfl | hbelow
          · exact .inl hcovers
          · exact absurd ⟨hlarge, hbelow⟩ hgiven
        · exact .inr ⟨hlarge, d, hd, hcovers⟩
      rcases ih hreturns hpc with ⟨d', hd', hcovers'⟩ | ⟨g, hg, hbelow⟩
      · exact .inl ⟨d', .child (hchildren ▸ mem_map_of_mem hmem) hd', hcovers'⟩
      · exact .inr ⟨g, mem_append_right _ (mem_flatMap.mpr ⟨_, hmem, hg⟩), hbelow⟩

end

/-! ### Splitting large nodes -/

/-- **Splitting keeps every section that no large node stands above**, with its title and its first
page. What large nodes have below them is lost without a trace: whatever it was, splitting comes to
the same. -/
theorem split_keeps_spared_sections (counter : TokenCounter) (settings : Settings)
    (pages : List Page) (levels : Nat) (v v' : Value) (session : Session) (l l' : Ledger)
    (h : (splitLarge counter settings pages levels v).Returns session l v' l') :
    (∀ d, Spared settings pages d v →
      ∃ d', Below d' v' ∧ d'.field? "title" = d.field? "title" ∧
        d'.field? "start_index" = d.field? "start_index") ∧
    ((∀ n, Within n v → IsLarge settings pages n → children n = []) →
      ∀ d, Below d v → ∃ d', Below d' v' ∧ d'.field? "title" = d.field? "title" ∧
        d'.field? "start_index" = d.field? "start_index") ∧
    ∀ w, AgreeAbove settings pages v w →
      (splitLarge counter settings pages levels w).Returns session l v' l' := by
  have hplain := h
  rw [← map_fst_splitLargeWithLosses] at h
  obtain ⟨⟨_, lost⟩, hlosses, rfl⟩ := returns_map_iff.mp h
  refine ⟨fun d hd => exists_below_of_spared hlosses hd, fun hlarge d hd => ?_, fun w hw => ?_⟩
  · exact exists_below_of_spared hlosses (spared_of_below hlarge hd)
  · rw [splitLarge_of_agreeAbove hw]
    exact hplain

/-- The node of a section with a title and pages. -/
def sectionOn (title : String) (first last : Int) (items : List Value) : Value :=
  node (.object [("title", .str title), ("start_index", .int first), ("end_index", .int last)])
    items

/-- Settings under which a section of more than `count` pages after its first one is large. -/
def atMostPages (count : Int) : Settings :=
  [("model", .str "m"), ("max_page_num_each_node", .int count), ("max_token_num_each_node", .int 1)]

def fivePages : List Page := [⟨"1", 1⟩, ⟨"2", 1⟩, ⟨"3", 1⟩, ⟨"4", 1⟩, ⟨"5", 1⟩]

def entryText (code title page : String) : String :=
  "\x7b\"structure\": \"" ++ code ++ "\", \"title\": \"" ++ title ++ "\", \"physical_index\": " ++
    page ++ "\x7d"

/-- The reply to the question for a table of contents. -/
def tableText (entries : List String) : String := "[" ++ Text.join ", " entries ++ "]"

/-- The reply that a section appears on its page. -/
def appears : String := "\x7b\"answer\": \"yes\"\x7d"

/-- The reply that a section does not begin at the top of its page. -/
def beginsInside : String := "\x7b\"start_begin\": \"no\"\x7d"

/-- A session in which a table of one new section is found. -/
def oneNewSection (page : String) : Session :=
  scripted [tableText [entryText "1" "New" page], appears, beginsInside]

/-- A section beside a large one is spared, and kept while the large one is split. -/
theorem section_beside_large_is_kept :
    let before := sectionOn "Book" 1 2
      [sectionOn "A" 1 1 [sectionOn "B" 1 1 []], sectionOn "Part" 2 5 []]
    let after := sectionOn "Book" 1 2
      [sectionOn "A" 1 1 [sectionOn "B" 1 1 []], sectionOn "Part" 2 4 [sectionOn "New" 4 5 []]]
    (∃ l', (splitLarge .quarter (atMostPages 2) fivePages 5 before).Returns
      (oneNewSection "4") {} after l') ∧
    Spared (atMostPages 2) fivePages (sectionOn "B" 1 1 []) before ∧
    ∃ d, Below d after ∧ d.field? "title" = some (.str "B") ∧
      d.field? "start_index" = some (.int 1) := by
  intro before after
  have houtcome : ((splitLarge .quarter (atMostPages 2) fivePages 5 before).execute
      (oneNewSection "4") {}).1 = .ok after := by
    decide +kernel
  have hreturns := returns_of_outcome houtcome
  have hspared : Spared (atMostPages 2) fivePages (sectionOn "B" 1 1 []) before :=
    .deeper (c := sectionOn "A" 1 1 [sectionOn "B" 1 1 []]) (by decide +kernel) (by decide)
      (.child (by decide +kernel) (by decide))
  have hkept := (split_keeps_spared_sections _ _ _ _ _ _ _ _ _ hreturns).1 _ hspared
  exact ⟨⟨_, hreturns⟩, hspared, hkept⟩

/-- **A large node loses the sections that it has**: afterwards no node has the title. -/
theorem large_node_loses_sections :
    let before := sectionOn "Part" 1 4 [sectionOn "Old" 4 5 []]
    let after := sectionOn "Part" 1 3 [sectionOn "New" 3 4 []]
    (∃ l', (splitLarge .quarter (atMostPages 2) fivePages 5 before).Returns
      (oneNewSection "3") {} after l') ∧
    Below (sectionOn "Old" 4 5 []) before ∧
    ∀ d, Below d after → d.field? "title" ≠ some (.str "Old") := by
  intro before after
  refine ⟨⟨_, returns_of_outcome (by decide +kernel)⟩, ⟨_, by decide, .self⟩, fun d hd htitle => ?_⟩
  obtain ⟨fields, rfl, -⟩ := Value.exists_object_of_field? htitle
  have hnodes : nodes after = .ok (some [after, sectionOn "New" 3 4 []]) := by decide +kernel
  have hnot : ∀ n ∈ [after, sectionOn "New" 3 4 []], n.field? "title" ≠ some (.str "Old") := by
    decide
  exact hnot _ (mem_nodes_of_within hd.within hnodes) htitle

/-- **Splitting keeps the pages of a node covered**, but for those that only sections cover which a
large node below has given up. The account of a run holds the large nodes below as they were. A page
that no section below one of them covers lies in the node afterwards, or below it; if none of them
had sections, that is every page. -/
theorem split_covers_own_pages (counter : TokenCounter) (settings : Settings) (pages : List Page)
    (levels : Nat) (v v' : Value) (session : Session) (l l' : Ledger) (first last : Int)
    (hfirst : v.intField? "start_index" = some first) (hlast : v.intField? "end_index" = some last)
    (h : (splitLarge counter settings pages levels v).Returns session l v' l') :
    ∃ lost, (splitLargeWithLosses counter settings pages levels v).Returns session l (v', lost)
        l' ∧
      (∀ p, first ≤ p → p ≤ last → CoversWithin v' p ∨ CoversBelow lost p) ∧
      ((∀ g ∈ lost, children g = []) → ∀ p, first ≤ p → p ≤ last → CoversWithin v' p) := by
  rw [← map_fst_splitLargeWithLosses] at h
  obtain ⟨⟨w, lost⟩, hlosses, rfl⟩ := returns_map_iff.mp h
  have hcovers : ∀ p, first ≤ p → p ≤ last → CoversWithin w p ∨ CoversBelow lost p :=
    fun p hle hge =>
      coversWithin_or_coversBelow hlosses (.inl ⟨first, last, hfirst, hlast, hle, hge⟩)
  refine ⟨lost, hlosses, hcovers, fun hlost p hle hge => ?_⟩
  exact (hcovers p hle hge).resolve_right (not_coversBelow_of_children hlost)

/-- A session in which the table of a node begins with the node itself and is out of order. -/
def disorderedTable : Session :=
  scripted [tableText [entryText "1" "Part" "1", entryText "2" "X" "3", entryText "3" "Y" "2"],
    appears, appears, appears, beginsInside, beginsInside, beginsInside]

/-- With that table nothing is given up, so all pages stay covered. -/
theorem disordered_table_covers_own_pages :
    let before := sectionOn "Part" 1 4 []
    let after := sectionOn "Part" 1 3 [sectionOn "X" 3 2 [], sectionOn "Y" 2 4 []]
    (∃ l', (splitLarge .quarter (atMostPages 2) fivePages 5 before).Returns
      disorderedTable {} after l') ∧
    ∀ p, 1 ≤ p → p ≤ 4 → CoversWithin after p := by
  intro before after
  have houtcome : ((splitLargeWithLosses .quarter (atMostPages 2) fivePages 5 before).execute
      disorderedTable {}).1 = .ok (after, []) := by
    decide +kernel
  have hlosses := returns_of_outcome houtcome
  have hreturns := hlosses.map Prod.fst
  rw [map_fst_splitLargeWithLosses] at hreturns
  obtain ⟨lost, hlost, -, hcovers⟩ :=
    split_covers_own_pages _ _ _ _ _ _ _ _ _ 1 4 (by decide) (by decide) hreturns
  obtain rfl : lost = [] := (Prod.ext_iff.mp (hlost.unique hlosses).1).2
  exact ⟨⟨_, hreturns⟩, hcovers (by decide)⟩

/-- A session in which a chapter with a section is found, and a table of its own for the chapter. -/
def chapterWithTable : Session :=
  scripted [tableText [entryText "1" "Chapter" "1", entryText "1.1" "Section" "4"],
    appears, appears, beginsInside, beginsInside, tableText [entryText "1" "Inner" "3"], appears,
    beginsInside]

/-- **A large section gives up the pages of its subsections**: page 5 is covered no longer. -/
theorem large_section_uncovers_pages :
    let before := sectionOn "Part" 1 5 []
    let after := sectionOn "Part" 1 1 [sectionOn "Chapter" 1 3 [sectionOn "Inner" 3 4 []]]
    (∃ l', (splitLarge .quarter (atMostPages 2) fivePages 5 before).Returns
      chapterWithTable {} after l') ∧
    Covers before 5 ∧ ¬ CoversWithin after 5 := by
  intro before after
  refine ⟨⟨_, returns_of_outcome (by decide +kernel)⟩, by decide, ?_⟩
  have hnodes : nodes after = .ok (some [after,
      sectionOn "Chapter" 1 3 [sectionOn "Inner" 3 4 []], sectionOn "Inner" 3 4 []]) := by
    decide +kernel
  exact not_coversWithin_of_nodes hnodes (by decide)

end DocTree.Outline
