import DocTree.Contents.Repair
import DocTree.Proofs.Run
import DocTree.Proofs.Value

/-!
# What repair changes

The page that an attempt finds is written at the position that the last page shown has in the
excerpt. If that is the position of its entry, or no pages are shown, the attempt is **in place**.
As long as all attempts are, pages go to their own entries, and only entries that were wrong are
reported.
-/

namespace DocTree.Contents

open List

variable {e : Excerpt} {entries positions : List Value} {i : Nat} {item : Value} {a : Attempt}

/-! ### Attempts -/

/-- The position that a wrong entry names. -/
def positionOf? (item : Value) : Option Int := item.intField? "list_index"

/-- A plan is **in place**: the last page that is shown has the position of the entry in the
excerpt. -/
def Plan.InPlace (e : Excerpt) : Plan → Prop
  | .outside _ _ _ => True
  | .between listIndex _ low high =>
    ∀ first last, low.int? = some first → high.int? = some last → first ≤ last →
      listIndex.int? = some (last - e.first)

/-- What an attempt **can come to**: it is refused for a position outside the table, or made for one
inside. -/
inductive Tried (e : Excerpt) (entries positions : List Value) (item : Value) (a : Attempt) : Prop
  | outside {listIndex title page : Value}
      (hplan : plan e entries positions item = .ok (.outside listIndex title page))
      (hown : item.field? "list_index" = some listIndex)
      (hindex : a.listIndex = listIndex) (hvalid : a.isValid = false)
  | between {listIndex title low high : Value} {k first last : Int}
      (hplan : plan e entries positions item = .ok (.between listIndex title low high))
      (hown : item.field? "list_index" = some listIndex)
      (hk : listIndex.int? = some k) (hnonneg : 0 ≤ k) (hlt : k < entries.length)
      (hlow : low.int? = some first) (hhigh : high.int? = some last)
      (hindex : a.listIndex = target e listIndex first last)

/-- The plans that there are for a wrong entry. -/
theorem plan_eq_ok {p : Plan} (h : plan e entries positions item = .ok p) :
    ∃ listIndex, item.field? "list_index" = some listIndex ∧
      ((∃ title page, p = .outside listIndex title page) ∨
        ∃ k title low high, listIndex.int? = some k ∧ 0 ≤ k ∧ k < entries.length ∧
          p = .between listIndex title low high) := by
  obtain ⟨listIndex, hown, h⟩ := bind_eq_ok.mp h
  refine ⟨listIndex, Value.field_eq_ok_iff.mp hown, ?_⟩
  obtain ⟨isBefore, hbefore, h⟩ := bind_eq_ok.mp h
  obtain ⟨isInside, hinside, h⟩ := bind_eq_ok.mp h
  split at h
  · obtain ⟨title, -, h⟩ := bind_eq_ok.mp h
    obtain ⟨page, -, h⟩ := bind_eq_ok.mp h
    cases h
    exact .inl ⟨title, page, rfl⟩
  · rename_i hnot
    obtain ⟨k, hk, h⟩ := bind_eq_ok.mp h
    obtain ⟨low, -, h⟩ := bind_eq_ok.mp h
    obtain ⟨high, -, h⟩ := bind_eq_ok.mp h
    obtain ⟨title, -, h⟩ := bind_eq_ok.mp h
    cases h
    have hk : listIndex.int? = some k := Value.integer_eq_ok_iff.mp hk
    rw [Value.less_of_int? hk rfl] at hbefore hinside
    cases hbefore
    cases hinside
    simp only [Bool.or_eq_true, decide_eq_true_eq, Bool.not_eq_true', decide_eq_false_iff_not,
      not_or, Int.not_lt, Int.not_le] at hnot
    exact .inr ⟨k, title, _, _, hk, hnot.1, hnot.2, rfl⟩

open Run in
/-- **All that an attempt can come to.** -/
theorem tried_of_returns {model : Value} {session : Session} {l l' : Ledger}
    (h : (repairItem model e entries positions item).Returns session l a l') :
    Tried e entries positions item a := by
  obtain ⟨p, _, hp, h⟩ := h.of_bind
  have hplan := hp.of_lift
  obtain ⟨listIndex, hown, ⟨title, page, rfl⟩ | ⟨k, title, low, high, hk, hnonneg, hlt, rfl⟩⟩ :=
    plan_eq_ok hplan
  · cases h
    exact .outside hplan hown rfl rfl
  · obtain ⟨stop, _, hstop, h⟩ := h.of_bind
    obtain ⟨first, _, hfirst, h⟩ := h.of_bind
    obtain ⟨stop', _, hstop', h⟩ := h.of_bind
    obtain ⟨found, _, -, h⟩ := h.of_bind
    obtain ⟨changed, _, -, h⟩ := h.of_bind
    obtain ⟨verdict, _, -, h⟩ := h.of_bind
    cases h
    have hlow : low.int? = some first := Value.integer_eq_ok_iff.mp hfirst.of_lift
    have hstop := hstop.of_lift
    have hstop' := Value.integer_eq_ok_iff.mp hstop'.of_lift
    have hhigh : high.int? = some (stop' - 1) := Value.int?_of_add_eq_ok hstop hstop' rfl
    exact .between hplan hown hk hnonneg hlt hlow hhigh rfl

/-- **An attempt keeps the position of its entry exactly if its plan is in place.** -/
theorem Tried.inPlace_iff (h : Tried e entries positions item a) :
    (∀ p, plan e entries positions item = .ok p → p.InPlace e) ↔
      a.listIndex.int? = positionOf? item := by
  cases h with
  | outside hplan hown hindex hvalid =>
    refine ⟨fun _ => ?_, fun _ p hp => ?_⟩
    · rw [positionOf?, Value.intField?, hown, hindex]
      rfl
    · obtain rfl : _ = p := Except.ok.inj (hplan.symm.trans hp)
      trivial
  | @between listIndex title low high k first last hplan hown hk hnonneg hlt hlow hhigh hindex =>
    have hpos : positionOf? item = some k := by
      rw [positionOf?, Value.intField?, hown]
      exact hk
    rw [hpos, hindex, target]
    constructor
    · intro hplace
      split
      · rename_i hle
        exact (hplace _ hplan first last hlow hhigh hle).symm.trans hk
      · exact hk
    · intro hkept p hp
      obtain rfl : _ = p := Except.ok.inj (hplan.symm.trans hp)
      intro first' last' hlow' hhigh' hle
      obtain rfl : first = first' := Option.some.inj (hlow.symm.trans hlow')
      obtain rfl : last = last' := Option.some.inj (hhigh.symm.trans hhigh')
      rw [if_pos hle] at hkept
      exact hk.trans hkept.symm

/-- A page is accepted for a position inside the table only. -/
theorem Tried.position_of_isValid (h : Tried e entries positions item a)
    (hvalid : a.isValid = true) :
    ∃ k : Int, positionOf? item = some k ∧ 0 ≤ k ∧ k < entries.length := by
  cases h with
  | outside _ _ _ hnot =>
    rw [hnot] at hvalid
    cases hvalid
  | @between listIndex title low high k first last _ hown hk hnonneg hlt _ _ _ =>
    refine ⟨k, ?_, hnonneg, hlt⟩
    rw [positionOf?, Value.intField?, hown]
    exact hk

/-! ### Writing pages -/

/-- A page to be written into the entry at a position. -/
structure Fix where
  position : Int
  page : Value

/-- The entries with one page written. -/
def applyFix (entries : List Value) (f : Fix) : List Value :=
  if f.position < 0 then entries
  else
    match entries[f.position.toNat]? with
    | some (.object fields) =>
      entries.set f.position.toNat (.object (Fields.set fields "physical_index" f.page))
    | _ => entries

/-- The entries with pages written one after the other. -/
def applyFixes (entries : List Value) (fixes : List Fix) : List Value :=
  fixes.foldl applyFix entries

/-- The entry at a position is one into which a page can be written. -/
def IsNode (entries : List Value) (i : Nat) : Prop := ∃ fields, entries[i]? = some (.object fields)

/-- A fix writes the page of an entry. -/
theorem applyFix_of_isNode {f : Fix} {fields : Fields} (hi : f.position = i)
    (h : entries[i]? = some (.object fields)) :
    applyFix entries f = entries.set i (.object (Fields.set fields "physical_index" f.page)) := by
  have hnat : f.position.toNat = i := by omega
  rw [applyFix, if_neg (by omega), hnat, h]

/-- A page is written **nowhere but at its position**. -/
theorem getElem?_applyFix_of_ne (entries : List Value) {f : Fix} (h : f.position ≠ i) :
    (applyFix entries f)[i]? = entries[i]? := by
  rw [applyFix]
  split
  · rfl
  · split
    · rw [getElem?_set_ne (by omega)]
    · rfl

/-- A fix keeps entries entries. -/
theorem isNode_applyFix_iff (entries : List Value) (f : Fix) (i : Nat) :
    IsNode (applyFix entries f) i ↔ IsNode entries i := by
  by_cases hi : f.position = i
  · constructor
    · rintro ⟨fields, h⟩
      by_contra hnot
      have hsame : applyFix entries f = entries := by
        have hnat : f.position.toNat = i := by omega
        rw [applyFix, if_neg (by omega), hnat]
        split
        · rename_i fields' h'
          exact absurd ⟨fields', h'⟩ hnot
        · rfl
      exact hnot ⟨fields, hsame ▸ h⟩
    · rintro ⟨fields, h⟩
      rw [applyFix_of_isNode hi h]
      exact ⟨_, List.getElem?_set_self (List.getElem?_eq_some_iff.mp h).1⟩
  · rw [IsNode, IsNode, getElem?_applyFix_of_ne entries hi]

/-- All fixes do. -/
theorem isNode_applyFixes_iff (entries : List Value) (fixes : List Fix) (i : Nat) :
    IsNode (applyFixes entries fixes) i ↔ IsNode entries i := by
  induction fixes generalizing entries with
  | nil => rfl
  | cons f fixes ih => exact (ih _).trans (isNode_applyFix_iff entries f i)

/-- Entries without a fix stay. -/
theorem getElem?_applyFixes_of_ne (entries : List Value) {fixes : List Fix}
    (h : ∀ f ∈ fixes, f.position ≠ i) : (applyFixes entries fixes)[i]? = entries[i]? := by
  induction fixes generalizing entries with
  | nil => rfl
  | cons f fixes ih =>
    exact (ih _ fun g hg => h g (.tail _ hg)).trans
      (getElem?_applyFix_of_ne entries (h f (.head _)))

/-- The **last page** that is written at a position stays there. -/
theorem field?_applyFixes_of_last {before after : List Fix} {f : Fix} (hi : f.position = i)
    (hnode : IsNode entries i) (hlast : ∀ g ∈ after, g.position ≠ i) :
    ((applyFixes entries (before ++ f :: after))[i]?).bind (·.field? "physical_index") =
      some f.page := by
  obtain ⟨fields, hfields⟩ := (isNode_applyFixes_iff entries before i).mpr hnode
  have hlt := (List.getElem?_eq_some_iff.mp hfields).1
  rw [applyFixes, foldl_append, foldl_cons]
  change ((applyFixes (applyFix (applyFixes entries before) f) after)[i]?).bind _ = _
  rw [getElem?_applyFixes_of_ne _ hlast, applyFix_of_isNode hi hfields, getElem?_set_self hlt]
  exact Fields.get?_set_self _ _ _

/-! ### Accepting attempts -/

/-- The page that an attempt writes, at the position that the attempt carries. -/
def Attempt.fix? (a : Attempt) : Option Fix :=
  if a.isValid then a.listIndex.int?.map fun k => { position := k, page := a.page } else none

/-- What becomes of one attempt: its page is written, or the table stays as it is. -/
theorem accept?_eq_ok {r : Option (List Value)} (h : accept? entries a = .ok r) :
    r.getD entries = applyFixes entries a.fix?.toList ∧
      ∀ f ∈ a.fix?, 0 ≤ f.position → f.position < entries.length →
        IsNode entries f.position.toNat := by
  rw [accept?] at h
  cases hvalid : a.isValid with
  | false =>
    rw [hvalid] at h
    cases h
    simp [Attempt.fix?, hvalid, applyFixes]
  | true =>
    rw [hvalid] at h
    obtain ⟨k, hk, h⟩ := bind_eq_ok.mp h
    have hfix : a.fix? = some ⟨k, a.page⟩ := by
      simp [Attempt.fix?, hvalid, Value.integer_eq_ok_iff.mp hk]
    rw [hfix]
    simp only [Option.toList_some, applyFixes, foldl_cons, foldl_nil, Option.mem_def,
      Option.some.injEq, forall_eq']
    split at h
    · rename_i hneg
      cases h
      rw [applyFix, if_pos hneg]
      exact ⟨rfl, fun hnonneg => absurd hneg (by omega)⟩
    · rename_i hneg
      split at h
      · rename_i hnone
        cases h
        rw [applyFix, if_neg hneg, hnone]
        refine ⟨rfl, fun _ hlt => ?_⟩
        have := getElem?_eq_none_iff.mp hnone
        omega
      · rename_i entry hentry
        obtain ⟨changed, hchanged, h⟩ := bind_eq_ok.mp h
        cases h
        obtain ⟨fields, rfl, rfl⟩ := Value.setField_eq_ok_iff.mp hchanged
        rw [applyFix, if_neg hneg, hentry]
        exact ⟨rfl, fun _ _ => ⟨fields, hentry⟩⟩

/-- No entry is added or lost. -/
theorem length_applyFixes (entries : List Value) (fixes : List Fix) :
    (applyFixes entries fixes).length = entries.length := by
  induction fixes generalizing entries with
  | nil => rfl
  | cons f fixes ih =>
    refine (ih (applyFix entries f)).trans ?_
    rw [applyFix]
    split
    · rfl
    · split <;> simp

/-- **What becomes of all attempts**: pages are written in order. -/
theorem acceptAll_eq_ok {repaired failed : List Value} {attempts : List Attempt}
    (h : acceptAll entries attempts = .ok (repaired, failed)) :
    repaired = applyFixes entries (attempts.filterMap Attempt.fix?) ∧
      (∀ f ∈ attempts.filterMap Attempt.fix?, 0 ≤ f.position → f.position < entries.length →
        IsNode entries f.position.toNat) ∧
      ∀ w ∈ failed, ∃ a ∈ attempts, w = a.value := by
  induction attempts generalizing entries failed with
  | nil =>
    cases h
    simp [applyFixes]
  | cons a attempts ih =>
    obtain ⟨r, hr, h⟩ := bind_eq_ok.mp h
    obtain ⟨hwritten, hnode⟩ := accept?_eq_ok hr
    have hsplit : (a :: attempts).filterMap Attempt.fix? =
        a.fix?.toList ++ attempts.filterMap Attempt.fix? := by
      cases hfix : a.fix? <;> simp [hfix]
    -- both cases go on with the table that the first attempt leaves
    have hrest : ∃ failed', acceptAll (r.getD entries) attempts = .ok (repaired, failed') ∧
        ∀ w ∈ failed, w ∈ failed' ∨ w = a.value := by
      cases r with
      | some entries' => exact ⟨failed, h, fun w hw => .inl hw⟩
      | none =>
        obtain ⟨⟨repaired', failed'⟩, hrest, h⟩ := bind_eq_ok.mp h
        cases h
        refine ⟨failed', hrest, fun w hw => ?_⟩
        exact (mem_cons.mp hw).symm
    obtain ⟨failed', hrest, hfailed⟩ := hrest
    obtain ⟨hrepaired, hnodes, hvalues⟩ := ih hrest
    rw [hwritten] at hrepaired hnodes
    refine ⟨?_, ?_, ?_⟩
    · rw [hsplit, hrepaired, applyFixes, applyFixes, applyFixes, foldl_append]
    · intro f hf hnonneg hlt
      rw [hsplit] at hf
      rcases mem_append.mp hf with hf | hf
      · exact hnode f (Option.mem_toList.mp hf) hnonneg hlt
      · rw [length_applyFixes] at hnodes
        exact (isNode_applyFixes_iff _ _ _).mp (hnodes f hf hnonneg hlt)
    · intro w hw
      rcases hfailed w hw with hw | rfl
      · obtain ⟨b, hb, rfl⟩ := hvalues w hw
        exact ⟨b, .tail _ hb, rfl⟩
      · exact ⟨a, .head _, rfl⟩

/-! ### Accounts of rounds -/

/-- The **account of a round**: the entries and the wrong positions at its start, and the attempts,
each beside its wrong entry. -/
structure Round where
  entries : List Value
  positions : List Value
  tries : List (Value × Attempt)
deriving DecidableEq

/-- All attempts of a round are **in place**. -/
def Round.InPlace (e : Excerpt) (r : Round) : Prop :=
  ∀ t ∈ r.tries, ∀ p, plan e r.entries r.positions t.1 = .ok p → p.InPlace e

/-- The pages that a round accepts, at the positions of the entries for which they were found. -/
def Round.fixes (r : Round) : List Fix :=
  r.tries.filterMap fun t =>
    if t.2.isValid then (positionOf? t.1).map fun k => { position := k, page := t.2.page } else none

/-- The pages that several rounds accept. -/
def acceptedFixes (rounds : List Round) : List Fix := rounds.flatMap Round.fixes

/-- The pages that several rounds write, at the positions that the attempts carry. -/
def carriedFixes (rounds : List Round) : List Fix :=
  rounds.flatMap fun r => r.tries.filterMap (·.2.fix?)

def repairWithAccount (model : Value) (e : Excerpt) (entries wrong : List Value) :
    Run ((List Value × List Value) × List Round) := do
  Run.printLine ("start fix_incorrect_toc with " ++ Decimal.natText wrong.length ++
    " incorrect results")
  let positions ← wrongPositions wrong
  let tries ← tryAll model e entries positions wrong
  let result ← settle e entries positions wrong tries
  return (result, [{ entries := entries, positions := positions, tries := tries }])

def repairRoundsWithAccount (model : Value) (e : Excerpt) :
    (more : Nat) → (entries wrong : List Value) → Run ((List Value × List Value) × List Round)
  | more, entries, wrong => do
    if wrong.isEmpty then return ((entries, wrong), [])
    Run.printLine ("Fixing " ++ Decimal.natText wrong.length ++ " incorrect results")
    let (result, rounds) ← repairWithAccount model e entries wrong
    match more with
    | 0 =>
      Run.info (.str "Maximum fix attempts reached")
      return (result, rounds)
    | more + 1 =>
      let (result, later) ← repairRoundsWithAccount model e more result.1 result.2
      return (result, rounds ++ later)

def repairAllWithAccount (model : Value) (e : Excerpt) (attempts : Int)
    (entries wrong : List Value) : Run ((List Value × List Value) × List Round) := do
  Run.printLine "start fix_incorrect_toc"
  repairRoundsWithAccount model e (attempts - 1).toNat entries wrong

/-- Forgetting the account gives exactly the plain round. -/
theorem map_fst_repairWithAccount (model : Value) (e : Excerpt) (entries wrong : List Value) :
    Prod.fst <$> repairWithAccount model e entries wrong = repair model e entries wrong := by
  simp only [repairWithAccount, repair, map_bind, map_pure, bind_pure]

/-- Forgetting the accounts gives exactly the plain rounds. -/
theorem map_fst_repairRoundsWithAccount (model : Value) (e : Excerpt) (more : Nat)
    (entries wrong : List Value) :
    Prod.fst <$> repairRoundsWithAccount model e more entries wrong =
      repairRounds model e more entries wrong := by
  rw [repairRoundsWithAccount, repairRounds]
  split
  · rfl
  · rw [← map_fst_repairWithAccount]
    cases more with
    | zero => simp only [map_bind, map_pure, bind_map_left]
    | succ more =>
      simp only [map_bind, map_pure, bind_map_left, ← map_fst_repairRoundsWithAccount _ _ more]
      simp only [map_eq_pure_bind]

/-- Forgetting the accounts gives exactly the plain repair. -/
theorem map_fst_repairAllWithAccount (model : Value) (e : Excerpt) (attempts : Int)
    (entries wrong : List Value) :
    Prod.fst <$> repairAllWithAccount model e attempts entries wrong =
      repairAll model e attempts entries wrong := by
  simp only [repairAllWithAccount, repairAll, map_bind, map_fst_repairRoundsWithAccount]

/-! ### Chains of rounds -/

section

open Run

variable {model : Value} {e : Excerpt} {session : Session} {l l' : Ledger}
  {entries wrong entries' wrong' : List Value} {r : Round} {rounds : List Round}

/-- A round for some wrong entries **leads** to a table and to the entries that are still wrong. -/
structure Round.Leads (model : Value) (e : Excerpt) (session : Session) (r : Round)
    (wrong entries' wrong' : List Value) : Prop where
  made : ∀ t ∈ r.tries, t.1 ∈ wrong ∧
    ∃ l l', (repairItem model e r.entries r.positions t.1).Returns session l t.2 l'
  settled : acceptAll r.entries (r.tries.map Prod.snd) = .ok (entries', wrong')

/-- Rounds of which each starts where the one before it ends. -/
inductive Chain (model : Value) (e : Excerpt) (session : Session) :
    (entries wrong : List Value) → List Round → (entries' wrong' : List Value) → Prop
  | nil {entries wrong : List Value} : Chain model e session entries wrong [] entries wrong
  | cons {r : Round} {wrong entries' wrong' entries'' wrong'' : List Value} {rounds : List Round}
      (first : r.Leads model e session wrong entries' wrong')
      (rest : Chain model e session entries' wrong' rounds entries'' wrong'') :
      Chain model e session r.entries wrong (r :: rounds) entries'' wrong''

/-- Every attempt of a round was made for a wrong entry. -/
theorem exists_repairItem_of_tryAll {tries : List (Value × Attempt)}
    (h : (tryAll model e entries positions wrong).Returns session l tries l') :
    ∀ t ∈ tries, t.1 ∈ wrong ∧
      ∃ l₁ l₁', (repairItem model e entries positions t.1).Returns session l₁ t.2 l₁' := by
  obtain ⟨outcomes, _, houtcomes, h⟩ := h.of_bind
  obtain ⟨-, _, -, h⟩ := h.of_bind
  cases h
  rintro ⟨item, a⟩ ht
  obtain ⟨⟨item', outcome⟩, hzip, hsome⟩ := mem_filterMap.mp ht
  obtain ⟨l₁, l₁', houtcome⟩ := forall₂_zip houtcomes.forall₂_of_mapM hzip
  cases outcome with
  | error why => cases hsome
  | ok b =>
    cases hsome
    exact ⟨(of_mem_zip hzip).1, l₁, l₁', returns_attempt_iff.mp houtcome⟩

/-- **One round** leads to what it returns. -/
theorem exists_leads_of_returns
    (h : (repairWithAccount model e entries wrong).Returns session l
      ((entries', wrong'), rounds) l') :
    ∃ r : Round, rounds = [r] ∧ r.entries = entries ∧
      r.Leads model e session wrong entries' wrong' := by
  obtain ⟨-, _, -, h⟩ := h.of_bind
  obtain ⟨positions, _, -, h⟩ := h.of_bind
  obtain ⟨tries, _, htries, h⟩ := h.of_bind
  obtain ⟨result, _, hsettle, h⟩ := h.of_bind
  obtain ⟨heq, -⟩ := returns_pure_iff.mp h
  cases heq
  refine ⟨_, rfl, rfl, exists_repairItem_of_tryAll htries, ?_⟩
  obtain ⟨⟨repaired, failed⟩, _, haccept, hsettle⟩ := hsettle.of_bind
  obtain ⟨-, _, -, hsettle⟩ := hsettle.of_bind
  obtain ⟨-, _, -, hsettle⟩ := hsettle.of_bind
  obtain ⟨heq, -⟩ := returns_pure_iff.mp hsettle
  cases heq
  exact haccept.of_lift

/-- One round makes a chain. -/
theorem chain_of_repairWithAccount
    (h : (repairWithAccount model e entries wrong).Returns session l
      ((entries', wrong'), rounds) l') :
    Chain model e session entries wrong rounds entries' wrong' := by
  obtain ⟨r, rfl, rfl, hleads⟩ := exists_leads_of_returns h
  exact .cons hleads .nil

/-- **Several rounds** make a chain. -/
theorem chain_of_repairRoundsWithAccount {more : Nat}
    (h : (repairRoundsWithAccount model e more entries wrong).Returns session l
      ((entries', wrong'), rounds) l') :
    Chain model e session entries wrong rounds entries' wrong' := by
  induction more generalizing entries wrong l rounds with
  | zero =>
    rw [repairRoundsWithAccount] at h
    split at h
    · cases h
      exact .nil
    · obtain ⟨-, l₁, -, h⟩ := h.of_bind
      obtain ⟨⟨result, rounds'⟩, l₂, hround, h⟩ := h.of_bind
      obtain ⟨-, l₃, -, h⟩ := h.of_bind
      cases h
      exact chain_of_repairWithAccount hround
  | succ more ih =>
    rw [repairRoundsWithAccount] at h
    split at h
    · cases h
      exact .nil
    · obtain ⟨-, l₁, -, h⟩ := h.of_bind
      obtain ⟨⟨result, rounds'⟩, l₂, hround, h⟩ := h.of_bind
      obtain ⟨⟨result', later⟩, l₃, hlater, h⟩ := h.of_bind
      obtain ⟨heq, rfl⟩ := returns_pure_iff.mp h
      cases heq
      obtain ⟨r, rfl, rfl, hleads⟩ := exists_leads_of_returns hround
      exact .cons hleads (ih hlater)

/-- All rounds make a chain. -/
theorem chain_of_repairAllWithAccount {attempts : Int}
    (h : (repairAllWithAccount model e attempts entries wrong).Returns session l
      ((entries', wrong'), rounds) l') :
    Chain model e session entries wrong rounds entries' wrong' := by
  obtain ⟨-, _, -, h⟩ := h.of_bind
  exact chain_of_repairRoundsWithAccount h

/-- The tries of a chain were made. -/
theorem Chain.made (h : Chain model e session entries wrong rounds entries' wrong') :
    ∀ r ∈ rounds, ∀ t ∈ r.tries,
      ∃ l l', (repairItem model e r.entries r.positions t.1).Returns session l t.2 l' := by
  induction h with
  | nil => exact fun r hr => nomatch hr
  | cons first rest ih =>
    intro r hr
    rcases mem_cons.mp hr with rfl | hr
    · exact fun t ht => (first.made t ht).2
    · exact ih r hr

/-- The last table is the first one with all pages **at the positions that the attempts carry**. -/
theorem Chain.written (h : Chain model e session entries wrong rounds entries' wrong') :
    entries' = applyFixes entries (carriedFixes rounds) := by
  induction h with
  | nil => rfl
  | @cons r wrong entries' wrong' entries'' wrong'' rounds first rest ih =>
    have happend : carriedFixes (r :: rounds) =
        (r.tries.map Prod.snd).filterMap Attempt.fix? ++ carriedFixes rounds := by
      rw [carriedFixes, flatMap_cons, filterMap_map]
      rfl
    rw [ih, (acceptAll_eq_ok first.settled).1, happend, applyFixes, applyFixes, applyFixes,
      foldl_append]

/-! ### The frame of repair -/

/-- A chain is **faithful**: its last table is the first one with the accepted pages at their own
positions, which were wrong, and nothing else is reported as still wrong. -/
structure Faithful (entries wrong : List Value) (rounds : List Round)
    (entries' wrong' : List Value) : Prop where
  applied : entries' = applyFixes entries (acceptedFixes rounds)
  own : ∀ f ∈ acceptedFixes rounds, ∃ w ∈ wrong, positionOf? w = some f.position
  node : ∀ f ∈ acceptedFixes rounds, 0 ≤ f.position ∧ IsNode entries f.position.toNat
  reported : ∀ w ∈ wrong', ∃ v ∈ wrong, positionOf? w = positionOf? v

/-- Nothing is done faithfully. -/
theorem Faithful.refl (entries wrong : List Value) : Faithful entries wrong [] entries wrong where
  applied := rfl
  own := fun _ hf => nomatch hf
  node := fun _ hf => nomatch hf
  reported := fun w hw => ⟨w, hw, rfl⟩

/-- Faithful rounds can follow each other. -/
theorem Faithful.trans {later : List Round} {entries'' wrong'' : List Value}
    (h : Faithful entries wrong rounds entries' wrong')
    (h' : Faithful entries' wrong' later entries'' wrong'') :
    Faithful entries wrong (rounds ++ later) entries'' wrong'' := by
  have happend : acceptedFixes (rounds ++ later) = acceptedFixes rounds ++ acceptedFixes later :=
    flatMap_append
  refine ⟨?_, ?_, ?_, ?_⟩
  · rw [h'.applied, h.applied, happend, applyFixes, applyFixes, applyFixes, foldl_append]
  · intro f hf
    rw [happend] at hf
    rcases mem_append.mp hf with hf | hf
    · exact h.own f hf
    · obtain ⟨w, hw, hpos⟩ := h'.own f hf
      obtain ⟨v, hv, hsame⟩ := h.reported w hw
      exact ⟨v, hv, hsame.symm.trans hpos⟩
  · intro f hf
    rw [happend] at hf
    rcases mem_append.mp hf with hf | hf
    · exact h.node f hf
    · obtain ⟨hnonneg, hnode⟩ := h'.node f hf
      rw [h.applied, isNode_applyFixes_iff] at hnode
      exact ⟨hnonneg, hnode⟩
  · intro w hw
    obtain ⟨v, hv, hsame⟩ := h'.reported w hw
    obtain ⟨u, hu, hsame'⟩ := h.reported v hv
    exact ⟨u, hu, hsame.trans hsame'⟩

/-- The tries are for wrong entries. -/
theorem Round.Leads.tried (h : r.Leads model e session wrong entries' wrong') :
    ∀ t ∈ r.tries, t.1 ∈ wrong ∧ Tried e r.entries r.positions t.1 t.2 := by
  intro t ht
  obtain ⟨hwrong, l, l', hitem⟩ := h.made t ht
  exact ⟨hwrong, tried_of_returns hitem⟩

/-- A round in place is faithful. -/
theorem Round.Leads.faithful (h : r.Leads model e session wrong entries' wrong')
    (hplace : r.InPlace e) : Faithful r.entries wrong [r] entries' wrong' := by
  have hkept : ∀ t ∈ r.tries, t.2.listIndex.int? = positionOf? t.1 := fun t ht =>
    (h.tried t ht).2.inPlace_iff.mp (hplace t ht)
  have hfixes : (r.tries.map Prod.snd).filterMap Attempt.fix? = acceptedFixes [r] := by
    rw [filterMap_map, acceptedFixes, flatMap_singleton]
    refine filterMap_congr fun t ht => ?_
    rw [Function.comp, Attempt.fix?, hkept t ht]
  obtain ⟨happlied, hnodes, hvalues⟩ := acceptAll_eq_ok h.settled
  rw [hfixes] at happlied hnodes
  have hown : ∀ f ∈ acceptedFixes [r], (∃ w ∈ wrong, positionOf? w = some f.position) ∧
      0 ≤ f.position ∧ f.position < r.entries.length := by
    intro f hf
    rw [acceptedFixes, flatMap_singleton] at hf
    obtain ⟨t, ht, hfix⟩ := mem_filterMap.mp hf
    split at hfix
    · rename_i hvalid
      obtain ⟨k, hk, hnonneg, hlt⟩ := (h.tried t ht).2.position_of_isValid hvalid
      rw [hk] at hfix
      cases hfix
      exact ⟨⟨t.1, (h.tried t ht).1, hk⟩, hnonneg, hlt⟩
    · cases hfix
  refine ⟨happlied, fun f hf => (hown f hf).1, fun f hf => ?_, fun w hw => ?_⟩
  · obtain ⟨-, hnonneg, hlt⟩ := hown f hf
    exact ⟨hnonneg, hnodes f hf hnonneg hlt⟩
  · obtain ⟨a, ha, rfl⟩ := hvalues w hw
    obtain ⟨t, ht, rfl⟩ := mem_map.mp ha
    exact ⟨t.1, (h.tried t ht).1, hkept t ht⟩

/-- A chain in place is faithful. -/
theorem Chain.faithful (h : Chain model e session entries wrong rounds entries' wrong')
    (hplace : ∀ r ∈ rounds, r.InPlace e) : Faithful entries wrong rounds entries' wrong' := by
  induction h with
  | nil => exact .refl _ _
  | cons first rest ih =>
    exact (first.faithful (hplace _ (.head _))).trans
      (ih fun r hr => hplace r (.tail _ hr))

/-- Entries that were not wrong stay **as they are**. -/
theorem Faithful.getElem?_of_not_wrong (h : Faithful entries wrong rounds entries' wrong')
    (hi : ∀ w ∈ wrong, positionOf? w ≠ some (i : Int)) : entries'[i]? = entries[i]? := by
  rw [h.applied]
  refine getElem?_applyFixes_of_ne entries fun f hf hpos => ?_
  obtain ⟨w, hw, hown⟩ := h.own f hf
  exact hi w hw (hpos ▸ hown)

/-- The last page that is accepted for an entry is the page **of that entry**. -/
theorem Faithful.field?_of_last (h : Faithful entries wrong rounds entries' wrong')
    {before after : List Fix} {f : Fix} (hfixes : acceptedFixes rounds = before ++ f :: after)
    (hlast : ∀ g ∈ after, g.position ≠ f.position) :
    0 ≤ f.position ∧
      (entries'[f.position.toNat]?).bind (·.field? "physical_index") = some f.page := by
  obtain ⟨hnonneg, hnode⟩ := h.node f (by simp [hfixes])
  have hi : f.position = (f.position.toNat : Int) := by omega
  refine ⟨hnonneg, ?_⟩
  rw [h.applied, hfixes]
  exact field?_applyFixes_of_last hi hnode fun g hg => hi ▸ hlast g hg

/-- The **frame** of rounds of repair. Attempts are in place exactly if each carries the position of
its entry, and pages are written where the attempts carry them. If all are in place, other entries
stay as they are, the last page that is accepted for an entry becomes its page, and only positions
that were wrong are reported. -/
structure Frame (e : Excerpt) (entries wrong : List Value) (rounds : List Round)
    (entries' wrong' : List Value) : Prop where
  inPlace_iff : (∀ r ∈ rounds, r.InPlace e) ↔
    ∀ r ∈ rounds, ∀ t ∈ r.tries, t.2.listIndex.int? = positionOf? t.1
  written : entries' = applyFixes entries (carriedFixes rounds)
  others : (∀ r ∈ rounds, r.InPlace e) →
    ∀ i : Nat, (∀ w ∈ wrong, positionOf? w ≠ some (i : Int)) → entries'[i]? = entries[i]?
  accepted : (∀ r ∈ rounds, r.InPlace e) →
    ∀ before f after, acceptedFixes rounds = before ++ f :: after →
      (∀ g ∈ after, g.position ≠ f.position) → 0 ≤ f.position ∧
        (entries'[f.position.toNat]?).bind (·.field? "physical_index") = some f.page
  reported : (∀ r ∈ rounds, r.InPlace e) →
    ∀ w ∈ wrong', ∃ v ∈ wrong, positionOf? w = positionOf? v

/-- When a chain is in place. -/
theorem Chain.inPlace_iff (h : Chain model e session entries wrong rounds entries' wrong') :
    (∀ r ∈ rounds, r.InPlace e) ↔
      ∀ r ∈ rounds, ∀ t ∈ r.tries, t.2.listIndex.int? = positionOf? t.1 := by
  refine forall₂_congr fun r hr => forall₂_congr fun t ht => ?_
  obtain ⟨l, l', hitem⟩ := h.made r hr t ht
  exact (tried_of_returns hitem).inPlace_iff

/-- A chain keeps its frame. -/
theorem Chain.frame (h : Chain model e session entries wrong rounds entries' wrong') :
    Frame e entries wrong rounds entries' wrong' where
  inPlace_iff := h.inPlace_iff
  written := h.written
  others := fun hplace _ hi => (h.faithful hplace).getElem?_of_not_wrong hi
  accepted := fun hplace _ _ _ hfixes hlast => (h.faithful hplace).field?_of_last hfixes hlast
  reported := fun hplace => (h.faithful hplace).reported

end

open Run in
/-- **Repair touches only what was reported wrong**, as long as its attempts are in place, in every
run of any number of rounds. -/
theorem repair_touches_reported_only (model : Value) (e : Excerpt) (entries wrong : List Value)
    (session : Session) (l : Ledger) :
    (∀ entries' wrong' l',
      (repair model e entries wrong).Returns session l (entries', wrong') l' →
      ∃ rounds, (repairWithAccount model e entries wrong).Returns session l
          ((entries', wrong'), rounds) l' ∧
        Frame e entries wrong rounds entries' wrong') ∧
    ∀ attempts entries' wrong' l',
      (repairAll model e attempts entries wrong).Returns session l (entries', wrong') l' →
      ∃ rounds, (repairAllWithAccount model e attempts entries wrong).Returns session l
          ((entries', wrong'), rounds) l' ∧
        Frame e entries wrong rounds entries' wrong' := by
  constructor
  · intro entries' wrong' l' h
    rw [← map_fst_repairWithAccount] at h
    obtain ⟨⟨_, rounds⟩, haccount, rfl⟩ := returns_map_iff.mp h
    exact ⟨rounds, haccount, (chain_of_repairWithAccount haccount).frame⟩
  · intro attempts entries' wrong' l' h
    rw [← map_fst_repairAllWithAccount] at h
    obtain ⟨⟨_, rounds⟩, haccount, rfl⟩ := returns_map_iff.mp h
    exact ⟨rounds, haccount, (chain_of_repairAllWithAccount haccount).frame⟩

/-! ### Two runs -/

def entryOn (title : String) (page : Int) : Value :=
  .object [("title", .str title), ("physical_index", .int page)]

/-- A report of a wrong entry. -/
def wrongAt (position : Int) (title : String) (page : Int) : Value :=
  .object [("list_index", .int position), ("title", .str title), ("physical_index", .int page)]

def threePages : Excerpt := { pages := [⟨"first", 1⟩, ⟨"second", 1⟩, ⟨"third", 1⟩] }

/-- The reply that a title was found on a page. -/
def foundOn (page : String) : String :=
  "\x7b\"physical_index\": \"<physical_index_" ++ page ++ ">\"\x7d"

/-- The reply to the question whether a page is right. -/
def rightOrNot (answer : String) : String := "\x7b\"answer\": \"" ++ answer ++ "\"\x7d"

/-- A session in which the first page that is found is wrong and the second one right. -/
def secondTry : Session :=
  Run.scripted [foundOn "3", rightOrNot "no", foundOn "2", rightOrNot "yes"]

/-- The account of the two rounds in that session. -/
def secondTryRounds : List Round :=
  [{ entries := [entryOn "A" 1, entryOn "B" 3, entryOn "C" 2], positions := [.int 1],
     tries := [(wrongAt 1 "B" 3,
       { listIndex := .int 1, title := .str "B", page := .int 3, isValid := false })] },
   { entries := [entryOn "A" 1, entryOn "B" 3, entryOn "C" 2], positions := [.int 1],
     tries := [(wrongAt 1 "B" 3,
       { listIndex := .int 1, title := .str "B", page := .int 2, isValid := true })] }]

open Run in
/-- Two rounds in place: the page that the second one accepts goes into its own entry. -/
theorem two_rounds_touch_reported_only :
    ∃ l', (repairAll (.str "m") threePages 2 [entryOn "A" 1, entryOn "B" 3, entryOn "C" 2]
        [wrongAt 1 "B" 3]).Returns secondTry {}
        ([entryOn "A" 1, entryOn "B" 2, entryOn "C" 2], []) l' ∧
      (∀ r ∈ secondTryRounds, r.InPlace threePages) ∧
      Frame threePages [entryOn "A" 1, entryOn "B" 3, entryOn "C" 2] [wrongAt 1 "B" 3]
        secondTryRounds [entryOn "A" 1, entryOn "B" 2, entryOn "C" 2] [] := by
  have houtcome : ((repairAllWithAccount (.str "m") threePages 2
      [entryOn "A" 1, entryOn "B" 3, entryOn "C" 2] [wrongAt 1 "B" 3]).execute secondTry {}).1 =
      .ok (([entryOn "A" 1, entryOn "B" 2, entryOn "C" 2], []), secondTryRounds) := by
    decide +kernel
  have haccount := returns_of_outcome houtcome
  have hreturns := haccount.map Prod.fst
  rw [map_fst_repairAllWithAccount] at hreturns
  obtain ⟨rounds, hrounds, hframe⟩ :=
    (repair_touches_reported_only _ _ _ _ _ _).2 _ _ _ _ hreturns
  obtain rfl : rounds = secondTryRounds := (Prod.ext_iff.mp (hrounds.unique haccount).1).2
  exact ⟨_, hreturns, hframe.inPlace_iff.mpr (by decide), hframe⟩

open Run in
/-- **An attempt that is not in place** overwrites another entry: the page for position 0 is looked
for up to page 3 and written at position 2. -/
theorem repair_writes_elsewhere :
    (∃ l', (repair (.str "m") threePages [entryOn "A" 2, entryOn "B" 3, entryOn "C" 3]
      [wrongAt 0 "A" 2]).Returns (scripted [foundOn "1", rightOrNot "yes"]) {}
      ([entryOn "A" 2, entryOn "B" 3, entryOn "C" 1], []) l') ∧
    (∀ w ∈ [wrongAt 0 "A" 2], positionOf? w ≠ some 2) ∧ entryOn "C" 1 ≠ entryOn "C" 3 :=
  ⟨⟨_, returns_of_outcome (by decide +kernel)⟩, by decide, by decide⟩

end DocTree.Contents
