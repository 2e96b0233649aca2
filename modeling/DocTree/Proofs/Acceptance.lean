import DocTree.Proofs.Bounds
import DocTree.Proofs.Rounding

/-!
# Acceptance of modes

Accuracies are rounded quotients. Since rounding keeps the order of quotients, an accuracy above the
rounded three fifths is one of **more than three fifths** of the entries that name a page.
-/

namespace DocTree

open List

/-- The **exact value** of a number. -/
def Value.ratio? : Value → Option ℚ
  | .float x => x.toRat?
  | v => v.int?.map fun n => (n : ℚ)

/-- Fractions with exact values are ordered as those. -/
theorem Value.less_float_of_toRat? {x y : Double} {a b : ℚ} (hx : x.toRat? = some a)
    (hy : y.toRat? = some b) : (Value.float x).less (.float y) = .ok (decide (a < b)) := by
  have hcompare : Value.compare? (.float x) (.float y) = .ok (some (compare a b)) := by
    rw [compare?, Double.compare?_of_toRat? hx hy]
  rw [less, hcompare]
  change Except.ok _ = Except.ok _
  rw [Except.ok.injEq, Bool.eq_iff_iff, beq_iff_eq, Option.some.injEq, compare_lt_iff_lt,
    decide_eq_true_iff]

/-- Fractions are the same if they compare so. -/
theorem Value.same_float (x y : Double) :
    (Value.float x).same (.float y) = (x.compare? y == some .eq) := by
  simp [same, sameNumber?]

namespace Contents

open Run

/-! ### Accuracy -/

/-- Three fifths, rounded. -/
theorem goodAccuracy_eq : goodAccuracy = .float (Double.ofRatio false 6 10) := by
  decide

/-- The rounded three fifths lie below three fifths. -/
theorem nearest_six_tenths_le : Double.nearest 6 10 ≤ 3 / 5 := by
  have hmantissa : Double.mantissa 6 10 = 5404319552844595 := by decide
  have hquantum : Double.quantum 6 10 = -53 := by decide
  rw [Double.nearest, hmantissa, hquantum]
  norm_num

/-- One is its own nearest number. -/
theorem nearest_one : Double.nearest 1 1 = 1 := by
  rw [Double.nearest_eq_of_dvd one_pos (by decide), Nat.cast_one, div_one]

section

variable {right total : Nat}

/-- A share of something. -/
theorem share_of_pos (htotal : 0 < total) :
    share right total = .float (Double.ofRatio false right total) := by
  rw [share, if_neg (by omega)]

/-- An accuracy is **good** exactly if its rounded value lies above the rounded three fifths. -/
theorem less_goodAccuracy (htotal : 0 < total) (h : right ≤ total) :
    goodAccuracy.less (share right total) =
      .ok (decide (Double.nearest 6 10 < Double.nearest right total)) := by
  rw [goodAccuracy_eq, share_of_pos htotal]
  exact Value.less_float_of_toRat? (Double.toRat?_ofRatio_of_le (by decide) (by decide))
    (Double.toRat?_ofRatio_of_le htotal h)

/-- A good accuracy is one of **more than three fifths**. -/
theorem lt_of_less_goodAccuracy (htotal : 0 < total) (h : right ≤ total)
    (hgood : goodAccuracy.less (share right total) = .ok true) : 3 * total < 5 * right := by
  rw [less_goodAccuracy htotal h, Except.ok.injEq, decide_eq_true_iff] at hgood
  by_contra hnot
  -- rounding keeps the order, so a quotient of at most three fifths is not above them when rounded
  refine absurd hgood (not_lt.mpr (Double.nearest_le_nearest htotal (by decide) ?_))
  exact (Double.div_le_div_iff_nat htotal (by decide)).mpr (by omega)

/-- All of something. -/
theorem nearest_self (htotal : 0 < total) : Double.nearest total total = 1 := by
  rw [← nearest_one]
  refine Double.nearest_congr htotal one_pos ?_
  rw [div_self (by exact_mod_cast htotal.ne'), Nat.cast_one, div_one]

/-- If all are right, the accuracy is one. -/
theorem isPerfect_share_self (htotal : 0 < total) : isPerfect (share total total) [] = true := by
  have hone : (Double.ofInt 1).toRat? = some 1 := by
    rw [← nearest_one]
    exact Double.toRat?_ofRatio_of_le one_pos le_rfl
  have hcompare : (Double.ofRatio false total total).compare? (Double.ofInt 1) = some .eq := by
    rw [Double.compare?_of_toRat? (Double.toRat?_ofRatio_of_le htotal le_rfl) hone,
      nearest_self htotal]
    simp
  rw [share_of_pos htotal, isPerfect, Value.same_float, hcompare]
  rfl

/-- The exact value of a share. -/
theorem ratio?_share (h : right ≤ total) :
    (share right total).ratio? = some (if total = 0 then 0 else Double.nearest right total) := by
  rw [share]
  split
  · rfl
  · exact Double.toRat?_ofRatio_of_le (by omega) h

/-- The share of all is one. -/
theorem ratio?_share_self (htotal : 0 < total) : (share total total).ratio? = some 1 := by
  rw [ratio?_share le_rfl, if_neg htotal.ne', nearest_self htotal]

end

/-! ### The last page -/

variable {page : Value}

/-- The first page that is named is the page of the first entry that names one. -/
theorem exists_of_namedPage {entries : List Value} (h : namedPage entries = .ok page)
    (hnull : page.isNull = false) :
    ∃ before entry after, entries = before ++ entry :: after ∧
      entry.field? "physical_index" = some page ∧ ∀ x ∈ before, namesPage x = false := by
  induction entries with
  | nil =>
    cases h
    cases hnull
  | cons entry rest ih =>
    obtain ⟨here, hposition, hrest⟩ := bind_eq_ok.mp h
    obtain ⟨fields, rfl, hhere⟩ := Value.lookup_eq_ok_iff.mp hposition
    split at hrest
    · rename_i hnone
      obtain ⟨before, entry, after, rfl, hpage, hbefore⟩ := ih hrest
      refine ⟨.object fields :: before, entry, after, rfl, hpage, ?_⟩
      refine forall_mem_cons.mpr ⟨?_, hbefore⟩
      rw [namesPage, Value.field?_object, hhere, hnone]
      rfl
    · cases hrest
      refine ⟨[], .object fields, rest, rfl, ?_, forall_mem_nil _⟩
      rw [Value.field?_object]
      cases hget : Fields.get? fields "physical_index" with
      | some found =>
        rw [hget] at hhere
        exact congrArg some hhere
      | none =>
        rw [hget] at hhere
        rw [← hhere] at hnull
        cases hnull

/-- The last page is the page of the **last entry that names one**. -/
theorem exists_of_lastPage {entries : List Value} (h : lastPage entries = .ok page)
    (hnull : page.isNull = false) :
    ∃ before entry after, entries = before ++ entry :: after ∧
      entry.field? "physical_index" = some page ∧ ∀ x ∈ after, namesPage x = false := by
  obtain ⟨before, entry, after, hsplit, hpage, hbefore⟩ := exists_of_namedPage h hnull
  refine ⟨after.reverse, entry, before.reverse, ?_, hpage, ?_⟩
  · rw [← reverse_reverse entries, hsplit]
    simp
  · exact fun x hx => hbefore x (mem_reverse.mp hx)

/-- A late page is there. -/
theorem isNull_of_late {count : Nat} (h : isEarly page count = .ok false) :
    page.isNull = false := by
  cases hnull : page.isNull with
  | false => rfl
  | true =>
    rw [isEarly, if_pos hnull] at h
    cases h

/-- Whether a whole number is early: it is compared with half the number of pages. -/
theorem isEarly_of_int? {n : Int} (hn : page.int? = some n) (count : Nat) :
    isEarly page count =
      .ok (((Double.ofRatio false count 2).compareInt? n).map Ordering.swap == some .lt) := by
  have hcompare : Value.compare? page (.float (Double.ofRatio false count 2)) =
      .ok (((Double.ofRatio false count 2).compareInt? n).map Ordering.swap) := by
    obtain rfl | ⟨b, rfl, rfl⟩ := Value.int?_eq_some_iff.mp hn <;>
      simp [Value.compare?, Value.int?]
  rw [isEarly, Value.isNull_of_int? hn, if_neg (by decide), Value.less, hcompare]
  rfl

/-- A whole number is early if it is **less than the half**, where the half is finite. -/
theorem isEarly_of_toRat? {n : Int} {count : Nat} {half : ℚ} (hn : page.int? = some n)
    (hhalf : (Double.ofRatio false count 2).toRat? = some half) :
    isEarly page count = .ok (decide ((n : ℚ) < half)) := by
  rw [isEarly_of_int? hn, Double.compareInt?_of_toRat? hhalf, Except.ok.injEq, Bool.eq_iff_iff,
    beq_iff_eq, Option.map_some, Option.some.injEq, Ordering.swap_eq_lt, compare_gt_iff_gt,
    decide_eq_true_iff]

/-- A whole number that is not early is at least the **rounded half** of the number of pages. -/
theorem nearest_le_of_isEarly {n : Int} {count : Nat} (hn : page.int? = some n)
    (h : isEarly page count = .ok false) : Double.nearest count 2 ≤ n := by
  rcases Double.toRat?_ofRatio count 2 with hinfinite | hfinite
  · rw [isEarly_of_int? hn, hinfinite] at h
    cases h
  · rw [isEarly_of_toRat? hn hfinite, Except.ok.injEq, decide_eq_false_iff_not, not_lt] at h
    exact h

/-! ### Rejected and accepted trials -/

/-- The last page that a table names is **late**: it is at least half the number of pages, up to
rounding. -/
def Trial.Late (e : Excerpt) (t : Trial) : Prop :=
  ∃ (before : List Value) (entry : Value) (after : List Value) (n : Int),
    t.entries = before ++ entry :: after ∧
    entry.intField? "physical_index" = some n ∧ (∀ x ∈ after, namesPage x = false) ∧
    Double.nearest e.pages.length 2 ≤ n ∧ (e.pages.length ≤ 2 ^ 53 → e.pages.length ≤ 2 * n)

/-- A table is **mostly right**: more than three fifths of the entries that name a page were found
right. -/
structure Trial.MostlyRight (e : Excerpt) (session : Session) (t : Trial) : Prop where
  named : 1 ≤ (t.entries.filter namesPage).length
  judged : Forall₂ (Judged t.model e session) (t.entries.filter namesPage) t.verdicts
  most : 3 * (t.entries.filter namesPage).length < 5 * (t.verdicts.filter Verdict.holds).length

section

variable {e : Excerpt} {session : Session} {t : Trial} {rounds : List Round} {entries : List Value}

/-- If nothing is wrong, all verdicts hold. -/
theorem length_filter_holds {verdicts : List Verdict}
    (h : (verdicts.filter fun v => !v.holds).map Verdict.value = []) :
    (verdicts.filter Verdict.holds).length = verdicts.length := by
  rw [map_eq_nil_iff, filter_eq_nil_iff] at h
  rw [length_filter_eq_length_iff]
  intro v hv
  simpa using h v hv

/-- A rejected trial has an accuracy of **at most three fifths**. -/
theorem Trial.Rejected.accuracy_le (h : t.Rejected) (hsound : t.Sound e session) :
    ∃ q, t.accuracy.ratio? = some q ∧ q ≤ 3 / 5 := by
  obtain ⟨hperfect, hbad⟩ := h
  have hverified := hsound.verified
  generalize t.accuracy = accuracy at *
  generalize t.wrong = wrong at *
  generalize t.verdicts = verdicts at *
  cases hverified with
  | early => exact ⟨0, rfl, by norm_num⟩
  | checked =>
    have hle := length_filter_le Verdict.holds verdicts
    refine ⟨_, ratio?_share hle, ?_⟩
    split
    · norm_num
    · have htotal : 0 < verdicts.length := by omega
      rcases hbad with hbad | hnone
      · rw [less_goodAccuracy htotal hle, Except.ok.injEq, decide_eq_false_iff_not, not_lt] at hbad
        exact hbad.trans nearest_six_tenths_le
      · -- with all entries right the trial would be perfect
        rw [hnone, length_filter_holds hnone, isPerfect_share_self htotal] at hperfect
        cases hperfect

/-- An accepted trial is **mostly right**. -/
theorem Trial.Accepted.mostlyRight (h : t.Accepted e session rounds entries)
    (hsound : t.Sound e session) : t.MostlyRight e session := by
  obtain ⟨-, hjudged, haccuracy, hwrong⟩ := h.checked hsound
  have hlength : (t.entries.filter namesPage).length = t.verdicts.length := hjudged.length_eq
  have htotal : 0 < t.verdicts.length := by
    refine Nat.pos_of_ne_zero fun hzero => h.accuracy_ne ?_
    rw [haccuracy, share, if_pos hzero]
  refine ⟨by omega, hjudged, ?_⟩
  rw [hlength]
  cases h with
  | perfect hperfect =>
    have hnone : t.wrong = [] := isEmpty_iff.mp (Bool.and_eq_true_iff.mp hperfect).2
    rw [hwrong] at hnone
    rw [length_filter_holds hnone]
    omega
  | repaired hgood =>
    rw [haccuracy] at hgood
    exact lt_of_less_goodAccuracy htotal (length_filter_le _ _) hgood

/-- The table of an accepted trial is **late**. -/
theorem Trial.Accepted.late (h : t.Accepted e session rounds entries)
    (hsound : t.Sound e session) : t.Late e := by
  obtain ⟨⟨last, hlast, hlate⟩, -, -, -⟩ := h.checked hsound
  have hnull := isNull_of_late hlate
  obtain ⟨before, entry, after, hsplit, hpage, hafter⟩ := exists_of_lastPage hlast hnull
  obtain ⟨page, hpage', rfl | hreads⟩ := h.pageRead hsound entry (by simp [hsplit])
  · rw [hpage] at hpage'
    cases hpage'
    cases hnull
  · obtain rfl : last = page := Option.some.inj (hpage.symm.trans hpage')
    obtain ⟨n, hn, -, -⟩ := Excerpt.reads_iff.mp hreads
    have hhalf := nearest_le_of_isEarly hn hlate
    refine ⟨before, entry, after, n, hsplit, Value.intField?_eq_some_iff.mpr ⟨last, hpage, hn⟩,
      hafter, hhalf, fun hsize => ?_⟩
    rw [Double.nearest_half hsize, div_le_iff₀ two_pos] at hhalf
    have : ((e.pages.length : Int) : ℚ) ≤ ((n * 2 : Int) : ℚ) := by
      push_cast
      exact hhalf
    have := Int.cast_le.mp this
    omega

end

/-! ### The rule -/

/-- A mode and those after it are the last ones of the three. -/
theorem exists_fallbacks_isSuffix (mode : Mode) :
    ∃ name before, mode.fallbacks <:+ [.numbers, .titles, .pages name] ∧
      mode.fallbacks = before ++ [.pages name] := by
  cases mode with
  | numbers => exact ⟨_, [.numbers, .titles], suffix_rfl, rfl⟩
  | titles => exact ⟨_, [.titles], ⟨[.numbers], rfl⟩, rfl⟩
  | pages name => exact ⟨name, [], ⟨[.numbers, .titles], rfl⟩, rfl⟩

/-- The given mode is tried first. -/
theorem Account.head?_tried {e : Excerpt} {session : Session} {mode : Mode}
    {rejected : List Trial} {ending : Ending}
    (h : Account e session mode.fallbacks rejected ending) :
    (rejected.map Trial.mode ++ ending.mode?.toList).head? = some mode := by
  obtain ⟨rest, hrest⟩ : ∃ rest, mode.fallbacks = mode :: rest := by
    cases mode <;> exact ⟨_, rfl⟩
  rw [hrest] at h
  cases h <;> rfl

/-- **Modes are tried until one is accepted.** Whatever the model replies, they are tried in order,
none twice, and one is left only with an accuracy of at most three fifths. What is returned comes
from a trial that is late and mostly right, and processing fails only when the pages alone have been
rejected. -/
theorem modes_tried_until_accepted (counter : TokenCounter) (settings : Settings)
    (printed : Printed) (e : Excerpt) (mode : Mode) (session : Session) (l : Ledger) :
    ∃ rejected ending l',
      (trials counter settings printed e mode.fallbacks).Returns session l (rejected, ending)
        l' ∧
      (build counter settings printed e mode).execute session l = (ending.outcome, l') ∧
      (rejected.map Trial.mode ++ ending.mode?.toList).head? = some mode ∧
      (∃ name, rejected.map Trial.mode ++ ending.mode?.toList <:+:
        [.numbers, .titles, .pages name]) ∧
      (∀ t ∈ rejected, Verified t.model e session t.entries t.accuracy t.wrong t.verdicts ∧
        ∃ q, t.accuracy.ratio? = some q ∧ q ≤ 3 / 5) ∧
      (∀ entries, ending.outcome = .ok entries → ∃ t rounds,
        ending = .accepted t rounds entries ∧ t.Late e ∧ t.MostlyRight e session) ∧
      (ending.outcome = .error .processingFailed →
        ∃ before t name, rejected = before ++ [t] ∧ t.mode = .pages name) := by
  obtain ⟨rejected, ending, l', htrials, hrun⟩ :=
    exists_trials_of_tryModes counter settings printed e mode.fallbacks session l
  have haccount := account_of_trials htrials
  obtain ⟨name, before, hsuffix, hlast⟩ := exists_fallbacks_isSuffix mode
  refine ⟨rejected, ending, l', htrials, hrun, haccount.head?_tried, ⟨name, ?_⟩, ?_, ?_, ?_⟩
  · exact haccount.isPrefix.isInfix.trans hsuffix.isInfix
  · intro t ht
    obtain ⟨hsound, hrejected⟩ := haccount.rejected_of_mem t ht
    exact ⟨hsound.verified, hrejected.accuracy_le hsound⟩
  · intro entries hok
    obtain ⟨t, rounds, hending, hsound, haccepted⟩ := haccount.exists_of_ok hok
    exact ⟨t, rounds, hending, haccepted.late hsound, haccepted.mostlyRight hsound⟩
  · intro herror
    obtain ⟨-, hmodes⟩ := haccount.exhausted_of_processingFailed herror
    rw [hlast] at hmodes
    obtain ⟨ts, rest, rfl, -, hrest⟩ := map_eq_append_iff.mp hmodes
    obtain ⟨t, rfl, ht⟩ := map_eq_singleton_iff.mp hrest
    exact ⟨ts, t, name, rfl, ht⟩

/-- A session in which a printed table is found wrong, and one made from the pages is right. -/
def secondModeRight : Session :=
  scripted ["\x7b\"table_of_contents\": [\x7b\"title\": \"A\"\x7d]\x7d",
    "\x7b\"completed\": \"yes\"\x7d", proposal [("A", 3)], rightOrNot "no", proposal [("B", 2)],
    rightOrNot "yes"]

/-- In that session one mode is rejected, and the next one is accepted. -/
theorem second_mode_is_accepted :
    ∃ rejected t rounds l',
      (trials .words withModel { content := .str "A" } threePages Mode.titles.fallbacks).Returns
        secondModeRight {} (rejected, .accepted t rounds [entryOn "B" 2]) l' ∧
      rejected.map (fun t => t.mode.name) = [.str "process_toc_no_page_numbers"] ∧
      (∀ t ∈ rejected, ∃ q, t.accuracy.ratio? = some q ∧ q ≤ 3 / 5) ∧
      t.Late threePages ∧ t.MostlyRight threePages secondModeRight := by
  have hnames : ((trials .words withModel { content := .str "A" } threePages
      Mode.titles.fallbacks).execute secondModeRight {}).1.map
        (fun r => (r.1.map fun t => t.mode.name, r.2.outcome)) =
      .ok ([.str "process_toc_no_page_numbers"], .ok [entryOn "B" 2]) := by
    decide +kernel
  obtain ⟨⟨rejected, ending⟩, l', htrials, hknown⟩ := returns_of_map_outcome hnames
  obtain ⟨hrejected, houtcome⟩ := Prod.ext_iff.mp hknown
  obtain ⟨rejected', ending', l₁, htrials', -, -, -, haccuracy, haccepted, -⟩ :=
    modes_tried_until_accepted .words withModel { content := .str "A" } threePages .titles
      secondModeRight {}
  obtain ⟨⟨⟩, -⟩ := htrials'.unique htrials
  obtain ⟨t, rounds, rfl, hlate, hright⟩ := haccepted _ houtcome
  exact ⟨rejected, t, rounds, l', htrials, hrejected, fun t ht => (haccuracy t ht).2, hlate,
    hright⟩

end Contents

end DocTree
