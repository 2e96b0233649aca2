import DocTree.Proofs.Failures
import DocTree.Proofs.Repair

/-!
# Trials of modes

A mode is **tried**: its table is made, verified, and then accepted, perhaps after repair, or
rejected. The trials of a run are kept here beside what it returns.
-/

namespace DocTree.Contents

open Run List

variable {counter : TokenCounter} {settings : Settings} {printed : Printed} {e : Excerpt}
  {session : Session} {l l' : Ledger} {rounds : List Round} {entries items : List Value}

/-! ### Verification with its verdicts -/

/-- The accuracy of a table of contents and the verdicts on its wrong entries, with **all
verdicts**. -/
def verifyWithVerdicts (model : Value) (e : Excerpt) (entries : Value) :
    Run ((Value × List Value) × List Verdict) := do
  Run.printLine "start verify_toc"
  let items ← entries.elements
  let last ← lastPage items
  let early ← isEarly last e.pages.length
  if early then return ((.int 0, []), [])
  let positions ← chosen items.length .null
  let asked ← positions.filterMapM fun i => noted? entries i
  let verdicts ← Run.together (asked.map (checkTitle model e))
  let right := (verdicts.filter Verdict.holds).length
  let accuracy := share right verdicts.length
  Run.printLine ("accuracy: " ++ percentage accuracy ++ "%")
  return ((accuracy, (verdicts.filter fun v => !v.holds).map Verdict.value), verdicts)

/-- Forgetting the verdicts gives exactly the plain verification. -/
theorem map_fst_verifyWithVerdicts (model : Value) (e : Excerpt) (entries : Value) :
    Prod.fst <$> verifyWithVerdicts model e entries = verify model e entries := by
  simp only [verifyWithVerdicts, verify, map_bind]
  refine bind_congr fun _ => bind_congr fun items => bind_congr fun last =>
    bind_congr fun early => ?_
  split
  · rfl
  · simp

/-- Whether an entry **names a page**. -/
def namesPage (entry : Value) : Bool := !((entry.field? "physical_index").getD .null).isNull

/-- The title check gave a **verdict** on an entry. -/
def Judged (model : Value) (e : Excerpt) (session : Session) (entry : Value) (v : Verdict) : Prop :=
  ∃ position noted l l', entry.setField "list_index" position = .ok noted ∧
    (checkTitle model e noted).Returns session l v l'

/-- What verification **can come to**: the last page is early and nothing is checked, or every entry
that names a page is judged. -/
inductive Verified (model : Value) (e : Excerpt) (session : Session) (entries : List Value) :
    (accuracy : Value) → (wrong : List Value) → (verdicts : List Verdict) → Prop
  | early {last : Value} (hlast : lastPage entries = .ok last)
      (hearly : isEarly last e.pages.length = .ok true) :
      Verified model e session entries (.int 0) [] []
  | checked {last : Value} {verdicts : List Verdict} (hlast : lastPage entries = .ok last)
      (hlate : isEarly last e.pages.length = .ok false)
      (hverdicts : Forall₂ (Judged model e session) (entries.filter namesPage) verdicts) :
      Verified model e session entries
        (share (verdicts.filter Verdict.holds).length verdicts.length)
        ((verdicts.filter fun v => !v.holds).map Verdict.value) verdicts

/-- Placed entries name a page. -/
theorem isPlaced_eq_ok {entry : Value} {b : Bool} (h : isPlaced entry = .ok b) :
    namesPage entry = b := by
  obtain ⟨page, hpage, h⟩ := bind_eq_ok.mp h
  obtain ⟨fields, rfl, rfl⟩ := Value.lookup_eq_ok_iff.mp hpage
  exact Except.ok.inj h

/-- The entry at a position is noted if it names a page. -/
theorem noted?_eq_ok {i : Nat} {o : Option Value} (hi : i < items.length)
    (h : noted? (.list items) i = .ok o) :
    (namesPage items[i] = false ∧ o = none) ∨
      (namesPage items[i] = true ∧
        ∃ noted, o = some noted ∧ items[i].setField "list_index" (.ofNat i) = .ok noted) := by
  obtain ⟨entry, hentry, h⟩ := bind_eq_ok.mp h
  have hitem : entry = items[i] := by
    rw [Value.item, Value.itemOf, Value.place?, if_pos (Int.natCast_nonneg i), Int.toNat_natCast,
      if_pos hi, Option.bind_some, getElem?_eq_getElem hi] at hentry
    exact (Except.ok.inj hentry).symm
  subst hitem
  obtain ⟨isNamed, hnamed, h⟩ := bind_eq_ok.mp h
  rw [isPlaced_eq_ok hnamed]
  cases isNamed with
  | false =>
    cases h
    exact .inl ⟨rfl, rfl⟩
  | true =>
    obtain ⟨noted, hnoted, h⟩ := bind_eq_ok.mp h
    cases h
    exact .inr ⟨rfl, noted, rfl, hnoted⟩

/-- The entries that are asked about are those that name a page, each with its position. -/
theorem forall₂_of_noted? {asked : List Value}
    (h : Returns ((List.range items.length).filterMapM fun i => liftM (noted? (.list items) i))
      session l asked l') :
    Forall₂ (fun entry noted => ∃ position, entry.setField "list_index" position = .ok noted)
      (items.filter namesPage) asked := by
  obtain ⟨options, hoptions, rfl⟩ := h.exists_of_filterMapM
  have hitems : Forall₂ (fun entry o => (namesPage entry = false ∧ o = none) ∨
      (namesPage entry = true ∧ ∃ noted, o = some noted ∧
        ∃ position, entry.setField "list_index" position = .ok noted)) items options := by
    refine forall₂_iff_get.mpr ⟨?_, fun i hi hi' => ?_⟩
    · rw [← hoptions.length_eq, length_range]
    · obtain ⟨l₁, l₁', hnoted⟩ := hoptions.get (by rwa [length_range]) hi'
      rw [get_eq_getElem, getElem_range] at hnoted
      rcases noted?_eq_ok hi hnoted.of_lift with h | ⟨hnamed, noted, ho, hset⟩
      · exact .inl h
      · exact .inr ⟨hnamed, noted, ho, _, hset⟩
  clear hoptions h
  induction hitems with
  | nil => exact .nil
  | @cons entry o items options ho hrest ih =>
    rcases ho with ⟨hnamed, rfl⟩ | ⟨hnamed, noted, rfl, hset⟩
    · rw [filter_cons_of_neg (by simp [hnamed])]
      exact ih
    · rw [filter_cons_of_pos hnamed]
      exact .cons hset ih

/-- **All that verification can come to.** -/
theorem verified_of_returns {model : Value} {accuracy : Value} {wrong : List Value}
    {verdicts : List Verdict}
    (h : (verifyWithVerdicts model e (.list items)).Returns session l
      ((accuracy, wrong), verdicts) l') :
    Verified model e session items accuracy wrong verdicts := by
  obtain ⟨-, _, -, h⟩ := h.of_bind
  obtain ⟨_, _, hitems, h⟩ := h.of_bind
  cases hitems.of_lift
  obtain ⟨last, _, hlast, h⟩ := h.of_bind
  obtain ⟨early, _, hearly, h⟩ := h.of_bind
  replace hlast := hlast.of_lift
  replace hearly := hearly.of_lift
  cases early with
  | true =>
    cases h
    exact .early hlast hearly
  | false =>
    obtain ⟨positions, _, hpositions, h⟩ := h.of_bind
    obtain ⟨asked, _, hasked, h⟩ := h.of_bind
    obtain ⟨_, _, hverdicts, h⟩ := h.of_bind
    obtain ⟨-, _, -, h⟩ := h.of_bind
    cases h
    obtain ⟨-, _, -, hpositions⟩ := hpositions.of_bind
    cases hpositions
    refine .checked hlast hearly ?_
    refine (forall₂_comp (forall₂_of_noted? hasked) hverdicts.forall₂_of_together).imp ?_
    rintro entry v ⟨noted, ⟨position, hset⟩, l₁, l₁', hcheck⟩
    exact ⟨position, noted, l₁, l₁', hset, hcheck⟩

/-! ### Trials -/

/-- A **trial** of a mode: its table without pages beyond the end, and what verification found. -/
structure Trial where
  mode : Mode
  model : Value
  entries : List Value
  accuracy : Value
  wrong : List Value
  verdicts : List Verdict

def examine (counter : TokenCounter) (settings : Settings) (printed : Printed) (e : Excerpt)
    (mode : Mode) : Run Trial := do
  Run.printLine mode.name.display
  Run.printLine ("start_index: " ++ Decimal.intText e.first)
  let made ← mode.run counter settings printed e
  let kept := Value.list (← placed made)
  let kept ← truncate kept e.pages.length e.first
  let model ← settings.get "model"
  let ((accuracy, wrong), verdicts) ← verifyWithVerdicts model e kept
  Run.info (.object [("mode", .str "process_toc_with_page_numbers"), ("accuracy", accuracy),
    ("incorrect_results", .list wrong)])
  let entries ← kept.elements
  return { mode := mode, model := model, entries := entries, accuracy := accuracy, wrong := wrong,
           verdicts := verdicts }

/-- What a trial **comes to**: an accepted table, with the account of its repair, or nothing. -/
def Trial.conclude (e : Excerpt) (t : Trial) : Run (Option (List Value × List Round)) := do
  if isPerfect t.accuracy t.wrong then return some (t.entries, [])
  let good ← goodAccuracy.less t.accuracy
  if good && !t.wrong.isEmpty then
    let (result, rounds) ← repairAllWithAccount t.model e repairLimit t.entries t.wrong
    return some (result.1, rounds)
  return none

/-- A mode is tried, and its trial concluded. -/
def tryMode (counter : TokenCounter) (settings : Settings) (printed : Printed) (e : Excerpt)
    (mode : Mode) : Run (Trial × Option (List Value × List Round)) := do
  let t ← examine counter settings printed e mode
  return (t, ← t.conclude e)

/-- How the trials of modes **end**: a trial is accepted, a mode fails, or all are rejected. -/
inductive Ending where
  | accepted (t : Trial) (rounds : List Round) (entries : List Value)
  | failed (mode : Mode) (why : Failure)
  | exhausted

namespace Ending

/-- The mode in which the trials end. -/
def mode? : Ending → Option Mode
  | .accepted t _ _ => some t.mode
  | .failed mode _ => some mode
  | .exhausted => none

/-- What the run as a whole comes to. -/
def outcome : Ending → Except Failure (List Value)
  | .accepted _ _ entries => .ok entries
  | .failed _ why => .error why
  | .exhausted => .error .processingFailed

end Ending

/-- All trials that are made: those that are **rejected**, and how they end. -/
def trials (counter : TokenCounter) (settings : Settings) (printed : Printed) (e : Excerpt) :
    List Mode → Run (List Trial × Ending)
  | [] => return ([], .exhausted)
  | mode :: rest => do
    match ← Run.attempt (tryMode counter settings printed e mode) with
    | .error why => return ([], .failed mode why)
    | .ok (t, some (entries, rounds)) => return ([], .accepted t rounds entries)
    | .ok (t, none) =>
      let (rejected, ending) ← trials counter settings printed e rest
      return (t :: rejected, ending)

/-- One mode after the other. -/
theorem tryModes_cons (mode : Mode) (rest : List Mode) :
    tryModes counter settings printed e (mode :: rest) =
      (tryMode counter settings printed e mode >>= fun r =>
        match r.2 with
        | some (entries, _) => return entries
        | none => tryModes counter settings printed e rest) := by
  simp only [tryModes, tryMode, examine, Trial.conclude, ← map_fst_verifyWithVerdicts,
    ← map_fst_repairAllWithAccount, bind_assoc, bind_map_left, pure_bind]
  refine bind_congr fun _ => bind_congr fun _ => bind_congr fun made => bind_congr fun kept =>
    bind_congr fun kept => bind_congr fun model => bind_congr fun verified =>
    bind_congr fun _ => bind_congr fun entries => ?_
  split
  · rfl
  · rw [bind_assoc]
    refine bind_congr fun good => ?_
    split
    · simp only [bind_assoc, pure_bind]
    · rfl

/-- Forgetting the trials gives **exactly the plain run**. -/
theorem tryModes_eq_trials (modes : List Mode) :
    tryModes counter settings printed e modes =
      (trials counter settings printed e modes >>= fun r => liftM r.2.outcome) := by
  induction modes with
  | nil => rfl
  | cons mode rest ih =>
    rw [tryModes_cons, trials, bind_assoc, attempt_bind]
    · refine bind_congr fun r => ?_
      obtain ⟨t, _ | ⟨entries, rounds⟩⟩ := r
      · simp only [ih, bind_assoc, pure_bind]
      · rfl
    · intro why
      rfl

/-- The trials always come to an end. -/
theorem exists_returns_trials (modes : List Mode) (l : Ledger) :
    ∃ r l', (trials counter settings printed e modes).Returns session l r l' := by
  induction modes generalizing l with
  | nil => exact ⟨_, _, rfl⟩
  | cons mode rest ih =>
    rcases hrun : (tryMode counter settings printed e mode).execute session l with
      ⟨why | ⟨t, _ | ⟨entries, rounds⟩⟩, between⟩
    · exact ⟨_, _, Returns.bind (returns_attempt_iff.mpr hrun) rfl⟩
    · obtain ⟨r, l', hrest⟩ := ih between
      refine ⟨(t :: r.1, r.2), l', ?_⟩
      refine Returns.bind (returns_attempt_iff.mpr hrun) ?_
      exact hrest.bind rfl
    · exact ⟨_, _, Returns.bind (returns_attempt_iff.mpr hrun) rfl⟩

/-- The run comes to what the trials end with. -/
theorem execute_tryModes_of_trials {modes : List Mode} {rejected : List Trial} {ending : Ending}
    (h : (trials counter settings printed e modes).Returns session l (rejected, ending)
      l') :
    (tryModes counter settings printed e modes).execute session l =
      (ending.outcome, l') := by
  rw [Returns] at h
  rw [tryModes_eq_trials, execute_bind, h]
  rfl

/-- Every run of the modes has an account, whatever it comes to. -/
theorem exists_trials_of_tryModes (counter : TokenCounter) (settings : Settings)
    (printed : Printed) (e : Excerpt) (modes : List Mode) (session : Session) (l : Ledger) :
    ∃ rejected ending l',
      (trials counter settings printed e modes).Returns session l (rejected, ending) l' ∧
        (tryModes counter settings printed e modes).execute session l =
          (ending.outcome, l') := by
  obtain ⟨⟨rejected, ending⟩, l', h⟩ := exists_returns_trials modes l
  exact ⟨rejected, ending, l', h, execute_tryModes_of_trials h⟩

/-! ### What is known of a trial -/

variable {t : Trial}

/-- Entries that were kept for naming a page have a field for it. -/
theorem exists_field?_of_placed {made : Value} {kept : List Value} (h : placed made = .ok kept) :
    ∀ entry ∈ kept, ∃ page, entry.field? "physical_index" = some page := by
  obtain ⟨items, -, h⟩ := bind_eq_ok.mp h
  intro entry hentry
  have hnamed := isPlaced_eq_ok ((mem_filterM_iff h entry).mp hentry).2
  cases hfield : entry.field? "physical_index" with
  | some page => exact ⟨page, rfl⟩
  | none =>
    rw [namesPage, hfield] at hnamed
    cases hnamed

/-- An entry without a page beyond a limit is the entry itself, or the entry without a page. -/
theorem eq_or_setField_of_truncateEntry {limit : Int} {entry : Value} {r : Value × Bool}
    (h : (truncateEntry limit entry).Returns session l r l') :
    r.1 = entry ∨ entry.setField "physical_index" .null = .ok r.1 := by
  obtain ⟨page, _, -, h⟩ := h.of_bind
  split at h
  · cases h
    exact .inl rfl
  · obtain ⟨beyond, _, -, h⟩ := h.of_bind
    split at h
    · cases h
      exact .inl rfl
    · obtain ⟨title, _, -, h⟩ := h.of_bind
      obtain ⟨-, _, -, h⟩ := h.of_bind
      obtain ⟨changed, _, hset, h⟩ := h.of_bind
      cases h
      exact .inr hset.of_lift

/-- Every entry without pages beyond the end comes from an entry. -/
theorem exists_of_truncate {count first : Int} {kept : Value}
    (h : (truncate (.list items) count first).Returns session l kept l') :
    ∃ items', kept = .list items' ∧ ∀ entry' ∈ items', ∃ entry ∈ items,
      entry' = entry ∨ entry.setField "physical_index" .null = .ok entry' := by
  rw [truncate] at h
  split at h
  · cases h
    exact ⟨items, rfl, fun entry hentry => ⟨entry, hentry, .inl rfl⟩⟩
  · obtain ⟨_, _, hitems, h⟩ := h.of_bind
    cases hitems.of_lift
    obtain ⟨marked, _, hmarked, h⟩ := h.of_bind
    have hkept : kept = .list (marked.map Prod.fst) := by
      by_cases hremoved : (marked.filter Prod.snd).length ≠ 0
      · simp only [if_pos hremoved] at h
        obtain ⟨-, l₃, -, h⟩ := h.of_bind
        obtain ⟨-, _, -, h⟩ := h.of_bind
        obtain ⟨-, _, -, h⟩ := h.of_bind
        exact (returns_pure_iff.mp h).1
      · simp only [if_neg hremoved] at h
        obtain ⟨-, l₃, -, h⟩ := h.of_bind
        exact (returns_pure_iff.mp h).1
    refine ⟨_, hkept, fun entry' hentry' => ?_⟩
    obtain ⟨r, hr, rfl⟩ := mem_map.mp hentry'
    obtain ⟨entry, hentry, l₁, l₁', hrun⟩ := exists_left_of_forall₂ hmarked.forall₂_of_mapM r hr
    exact ⟨entry, hentry, eq_or_setField_of_truncateEntry hrun⟩

/-- What is known of a **trial**: its entries have a field for the page, and they were verified. -/
structure Trial.Sound (e : Excerpt) (session : Session) (t : Trial) : Prop where
  known : ∀ entry ∈ t.entries, ∃ page, entry.field? "physical_index" = some page
  verified : Verified t.model e session t.entries t.accuracy t.wrong t.verdicts

/-- A trial that is made is sound. -/
theorem sound_of_examine {mode : Mode}
    (h : (examine counter settings printed e mode).Returns session l t l') :
    t.mode = mode ∧ t.Sound e session := by
  obtain ⟨-, _, -, h⟩ := h.of_bind
  obtain ⟨-, _, -, h⟩ := h.of_bind
  obtain ⟨made, _, -, h⟩ := h.of_bind
  obtain ⟨items, _, hplaced, h⟩ := h.of_bind
  obtain ⟨kept, _, hkept, h⟩ := h.of_bind
  obtain ⟨model, _, -, h⟩ := h.of_bind
  obtain ⟨⟨⟨accuracy, wrong⟩, verdicts⟩, l₇, hverify, h⟩ := h.of_bind
  obtain ⟨-, _, -, h⟩ := h.of_bind
  obtain ⟨entries, _, hentries, h⟩ := h.of_bind
  cases h
  obtain ⟨items', rfl, hcome⟩ := exists_of_truncate hkept
  cases hentries.of_lift
  refine ⟨rfl, fun entry' hentry' => ?_, verified_of_returns hverify⟩
  obtain ⟨entry, hentry, rfl | hset⟩ := hcome entry' hentry'
  · exact exists_field?_of_placed hplaced.of_lift entry' hentry
  · obtain ⟨fields, -, rfl⟩ := Value.setField_eq_ok_iff.mp hset
    exact ⟨.null, Fields.get?_set_self fields _ _⟩

/-- How a trial comes to be **accepted**: it is perfect, or it is good enough and repaired. -/
inductive Trial.Accepted (e : Excerpt) (session : Session) (t : Trial) :
    (rounds : List Round) → (entries : List Value) → Prop
  | perfect (h : isPerfect t.accuracy t.wrong = true) : Accepted e session t [] t.entries
  | repaired {rounds : List Round} {entries wrong : List Value} {l l' : Ledger}
      (hgood : goodAccuracy.less t.accuracy = .ok true)
      (h : (repairAllWithAccount t.model e repairLimit t.entries t.wrong).Returns session l
        ((entries, wrong), rounds) l') : Accepted e session t rounds entries

/-- A trial is **rejected**: it is not perfect, and it is not good or has no wrong entries. -/
def Trial.Rejected (t : Trial) : Prop :=
  isPerfect t.accuracy t.wrong = false ∧
    (goodAccuracy.less t.accuracy = .ok false ∨ t.wrong = [])

/-- A trial that is accepted. -/
theorem Trial.accepted_of_conclude
    (h : (t.conclude e).Returns session l (some (entries, rounds)) l') :
    t.Accepted e session rounds entries := by
  rw [conclude] at h
  split at h
  · rename_i hperfect
    cases h
    exact .perfect hperfect
  · obtain ⟨good, _, hgood, h⟩ := h.of_bind
    split at h
    · rename_i hand
      obtain ⟨⟨⟨entries', wrong'⟩, rounds'⟩, l₂, hrepair, h⟩ := h.of_bind
      cases h
      obtain ⟨rfl, -⟩ := Bool.and_eq_true_iff.mp hand
      exact .repaired hgood.of_lift hrepair
    · cases h

/-- A trial that is rejected. -/
theorem Trial.rejected_of_conclude (h : (t.conclude e).Returns session l none l') :
    t.Rejected := by
  rw [conclude] at h
  split at h
  · cases h
  · rename_i hperfect
    refine ⟨Bool.eq_false_iff.mpr hperfect, ?_⟩
    obtain ⟨good, _, hgood, h⟩ := h.of_bind
    split at h
    · obtain ⟨result, _, -, h⟩ := h.of_bind
      cases h
    · rename_i hnot
      cases good with
      | false => exact .inl hgood.of_lift
      | true => exact .inr (by simpa using hnot)

/-- An accuracy of zero is not accepted. -/
theorem Trial.Accepted.accuracy_ne (h : t.Accepted e session rounds entries) :
    t.accuracy ≠ .int 0 := by
  intro hzero
  cases h with
  | perfect hperfect =>
    rw [hzero, isPerfect] at hperfect
    exact absurd (Bool.and_eq_true_iff.mp hperfect).1 (by decide)
  | repaired hgood =>
    rw [hzero] at hgood
    exact absurd hgood (by decide)

/-- An accepted trial was **checked**: its last page is late, and its entries were judged. -/
theorem Trial.Accepted.checked (h : t.Accepted e session rounds entries)
    (hsound : t.Sound e session) :
    (∃ last, lastPage t.entries = .ok last ∧ isEarly last e.pages.length = .ok false) ∧
      Forall₂ (Judged t.model e session) (t.entries.filter namesPage) t.verdicts ∧
      t.accuracy = share (t.verdicts.filter Verdict.holds).length t.verdicts.length ∧
      t.wrong = (t.verdicts.filter fun v => !v.holds).map Verdict.value := by
  have hne := h.accuracy_ne
  have hverified := hsound.verified
  generalize t.accuracy = accuracy at hne hverified ⊢
  generalize t.wrong = wrong at hverified ⊢
  generalize t.verdicts = verdicts at hverified ⊢
  cases hverified with
  | early => exact absurd rfl hne
  | checked hlast hlate hverdicts => exact ⟨⟨_, hlast, hlate⟩, hverdicts, rfl, rfl⟩

/-- A mode that is tried gives a trial of its own. -/
theorem exists_of_tryMode {mode : Mode} {result : Option (List Value × List Round)}
    (h : (tryMode counter settings printed e mode).Returns session l (t, result) l') :
    t.mode = mode ∧ t.Sound e session ∧
      ∃ l₀, (t.conclude e).Returns session l₀ result l' := by
  obtain ⟨t', l₁, hexamine, h⟩ := h.of_bind
  obtain ⟨result', _, hconclude, h⟩ := h.of_bind
  obtain ⟨heq, rfl⟩ := returns_pure_iff.mp h
  cases heq
  obtain ⟨hmode, hsound⟩ := sound_of_examine hexamine
  exact ⟨hmode, hsound, l₁, hconclude⟩

/-! ### Accounts of trials -/

/-- Trying a mode is ordinary. -/
theorem ordinary_tryMode (counter : TokenCounter) (settings : Settings) (printed : Printed)
    (e : Excerpt) (mode : Mode) :
    (tryMode counter settings printed e mode).Ordinary := by
  have hverify : ∀ model entries, (verifyWithVerdicts model e entries).Ordinary := by
    intro model entries
    rw [← Run.ordinary_map_iff (f := Prod.fst), map_fst_verifyWithVerdicts]
    exact (composed_verify model e entries .null).ordinary
  have hrepair : ∀ model entries wrong,
      (repairAllWithAccount model e repairLimit entries wrong).Ordinary := by
    intro model entries wrong
    rw [← Run.ordinary_map_iff (f := Prod.fst), map_fst_repairAllWithAccount]
    exact (composed_repairAll model e repairLimit entries wrong).ordinary
  have hexamine : (examine counter settings printed e mode).Ordinary := by
    unfold examine
    refine Run.ordinary_bind (by grind) fun _ => Run.ordinary_bind (by grind) fun _ =>
      Run.ordinary_bind (by grind) fun made => Run.ordinary_bind (by grind) fun kept =>
      Run.ordinary_bind (by grind) fun kept => Run.ordinary_bind (by grind) fun model =>
      Run.ordinary_bind (hverify model kept) fun verified => ?_
    grind
  have hconclude : ∀ t : Trial, (t.conclude e).Ordinary := by
    grind [Trial.conclude]
  exact Run.ordinary_bind hexamine fun t =>
    Run.ordinary_bind (hconclude t) fun _ => Run.ordinary_pure _

/-- The **account** of some modes: trials that are rejected, one after the other, and the ending. -/
inductive Account (e : Excerpt) (session : Session) : List Mode → List Trial → Ending → Prop
  | exhausted : Account e session [] [] .exhausted
  | failed {mode : Mode} {rest : List Mode} {why : Failure} (hwhy : why ≠ .processingFailed) :
      Account e session (mode :: rest) [] (.failed mode why)
  | accepted {rest : List Mode} {t : Trial} {rounds : List Round} {entries : List Value}
      (hsound : t.Sound e session) (haccepted : t.Accepted e session rounds entries) :
      Account e session (t.mode :: rest) [] (.accepted t rounds entries)
  | rejected {rest : List Mode} {t : Trial} {ts : List Trial} {ending : Ending}
      (hsound : t.Sound e session) (hrejected : t.Rejected)
      (hrest : Account e session rest ts ending) :
      Account e session (t.mode :: rest) (t :: ts) ending

/-- **The trials have an account.** -/
theorem account_of_trials {modes : List Mode} {rejected : List Trial} {ending : Ending}
    (h : (trials counter settings printed e modes).Returns session l (rejected, ending)
      l') : Account e session modes rejected ending := by
  induction modes generalizing l rejected with
  | nil =>
    cases h
    exact .exhausted
  | cons mode rest ih =>
    obtain ⟨outcome, _, hrun, h⟩ := h.of_bind
    have hrun := returns_attempt_iff.mp hrun
    rcases outcome with why | ⟨t, _ | ⟨entries, rounds⟩⟩
    · cases h
      have hordinary := ordinary_tryMode counter settings printed e mode session l
      rw [hrun] at hordinary
      exact .failed (ordinary_error_iff.mp hordinary)
    · obtain ⟨r, _, hrest, h⟩ := h.of_bind
      obtain ⟨heq, rfl⟩ := returns_pure_iff.mp h
      cases heq
      obtain ⟨rfl, hsound, l₁, hconclude⟩ := exists_of_tryMode hrun
      exact .rejected hsound (Trial.rejected_of_conclude hconclude) (ih hrest)
    · cases h
      obtain ⟨rfl, hsound, l₁, hconclude⟩ := exists_of_tryMode hrun
      exact .accepted hsound (Trial.accepted_of_conclude hconclude)

namespace Account

variable {modes : List Mode} {rejected : List Trial} {ending : Ending}

/-- The modes that are tried are the **first ones**. -/
theorem isPrefix (h : Account e session modes rejected ending) :
    rejected.map Trial.mode ++ ending.mode?.toList <+: modes := by
  induction h with
  | exhausted => exact prefix_rfl
  | failed => exact ⟨_, rfl⟩
  | accepted => exact ⟨_, rfl⟩
  | rejected _ _ _ ih => exact cons_prefix_cons.mpr ⟨rfl, ih⟩

/-- The trials before the end were rejected. -/
theorem rejected_of_mem (h : Account e session modes rejected ending) :
    ∀ t ∈ rejected, t.Sound e session ∧ t.Rejected := by
  induction h with
  | exhausted => exact fun t ht => nomatch ht
  | failed => exact fun t ht => nomatch ht
  | accepted => exact fun t ht => nomatch ht
  | rejected hsound hrejected _ ih => exact forall_mem_cons.mpr ⟨⟨hsound, hrejected⟩, ih⟩

/-- What is returned comes from an accepted trial. -/
theorem exists_of_ok (h : Account e session modes rejected ending)
    (hok : ending.outcome = .ok entries) :
    ∃ t rounds, ending = .accepted t rounds entries ∧ t.Sound e session ∧
      t.Accepted e session rounds entries := by
  induction h with
  | exhausted => cases hok
  | failed => cases hok
  | accepted hsound haccepted =>
    cases hok
    exact ⟨_, _, rfl, hsound, haccepted⟩
  | rejected _ _ _ ih => exact ih hok

/-- Processing fails only if **all modes are rejected**. -/
theorem exhausted_of_processingFailed (h : Account e session modes rejected ending)
    (herror : ending.outcome = .error .processingFailed) :
    ending = .exhausted ∧ rejected.map Trial.mode = modes := by
  induction h with
  | exhausted => exact ⟨rfl, rfl⟩
  | failed hwhy =>
    cases herror
    exact absurd rfl hwhy
  | accepted => cases herror
  | rejected _ _ _ ih =>
    obtain ⟨hending, hmodes⟩ := ih herror
    exact ⟨hending, congrArg _ hmodes⟩

end Account

end DocTree.Contents
