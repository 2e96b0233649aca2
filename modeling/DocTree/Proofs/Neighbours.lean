import DocTree.Contents.Repair
import DocTree.Contents.Unnumbered
import DocTree.Proofs.Run
import DocTree.Proofs.Value

/-!
# Where entries are looked for

An entry without a page and a wrong entry are looked for between the pages of their neighbours.
Without a neighbour **after** it, a wrong entry is looked for up to the last page, but an entry
without a page is shown no page at all.
-/

namespace DocTree

open Value List

variable {e : Excerpt} {after before : List Value} {entry : Value}

/-- The numbers of an excerpt begin with its first one. -/
theorem Excerpt.first_le_of_mem_numbered {x : Int × Page} (h : x ∈ e.numbered) : e.first ≤ x.1 := by
  obtain ⟨y, -, rfl⟩ := mem_map.mp h
  exact Int.le_add_of_nonneg_right (Int.natCast_nonneg _)

/-- A window depends only on which numbers from the first one on lie in it. -/
theorem Excerpt.window_congr {low high low' high' : Int}
    (h : ∀ n, e.first ≤ n → (low ≤ n ∧ n ≤ high ↔ low' ≤ n ∧ n ≤ high')) :
    e.window low high = e.window low' high' := by
  refine congrArg _ (filter_congr fun x hx => ?_)
  rw [Bool.eq_iff_iff]
  simpa using h x.1 (first_le_of_mem_numbered hx)

/-- A window that ends before the first page is empty. -/
theorem Excerpt.window_eq_nil {high : Int} (h : high < e.first) (low : Int) :
    e.window low high = [] := by
  refine map_eq_nil_iff.mpr (filter_eq_nil_iff.mpr fun x hx => ?_)
  have := first_le_of_mem_numbered hx
  simp only [Bool.and_eq_true, decide_eq_true_eq]
  omega

namespace Contents

/-! ### Neighbours -/

/-- The page of the **nearest** of some entries that has one, or nothing if none of them has. -/
inductive IsNearest : List Value → Option Value → Prop
  | nil : IsNearest [] none
  | skip {entry : Value} {rest : List Value} {page? : Option Value}
      (hnull : position entry = .ok .null) (hrest : IsNearest rest page?) :
      IsNearest (entry :: rest) page?
  | here {entry page : Value} {rest : List Value}
      (hpage : position entry = .ok page) (hnot : page.isNull = false) :
      IsNearest (entry :: rest) (some page)

/-- The nearest page, or another one. -/
theorem firstPage_eq_ok_iff {other page : Value} {entries : List Value} :
    firstPage other entries = .ok page ↔
      ∃ page?, IsNearest entries page? ∧ page = page?.getD other := by
  constructor
  · intro h
    induction entries with
    | nil => exact ⟨none, .nil, (Except.ok.inj h).symm⟩
    | cons entry rest ih =>
      obtain ⟨found, hfound, h⟩ := bind_eq_ok.mp h
      split at h
      · rename_i hnull
        obtain rfl := eq_null_of_isNull hnull
        obtain ⟨page?, hnearest, hpage⟩ := ih h
        exact ⟨page?, .skip hfound hnearest, hpage⟩
      · rename_i hnot
        cases h
        exact ⟨some page, .here hfound (Bool.eq_false_iff.mpr hnot), rfl⟩
  · rintro ⟨page?, hnearest, rfl⟩
    induction hnearest with
    | nil => rfl
    | skip hnull _ ih => exact bind_ok hnull ih
    | here hpage hnot => exact bind_ok hpage (if_neg (by simp [hnot]))

/-- Only the entry itself is wrong. -/
theorem isWrong_of_ne {k i : Nat} (h : k ≠ i) : isWrong [.int k] i = false := by
  rw [isWrong, any_cons, any_nil, Bool.or_false, same_int]
  exact beq_false_of_ne (by omega)

/-- The nearest right page. -/
theorem rightPage_of_isNearest {wrong : List Value} {numbered : List (Value × Nat)}
    {page? : Option Value} (hright : ∀ x ∈ numbered, isWrong wrong x.2 = false)
    (h : IsNearest (numbered.map Prod.fst) page?) : rightPage wrong numbered = .ok page? := by
  induction numbered with
  | nil =>
    cases h
    rfl
  | cons x rest ih =>
    obtain ⟨hx, hrest⟩ := forall_mem_cons.mp hright
    rw [rightPage, if_neg (by simp [hx])]
    cases h with
    | skip hnull h => exact bind_ok hnull (ih hrest h)
    | here hpage hnot => exact bind_ok hpage (if_neg (by simp [hnot]))

/-! ### Between which pages -/

/-- The pages between which an entry without a page is looked for, and the entry as it is shown. -/
def neighbours (before : List Value) (entry : Value) (after : List Value) :
    Except Failure (Int × Int × Value) := do
  let low ← pageBefore before
  let high ← pageAfter after
  let stop ← high.add (.int 1)
  let first ← low.integer
  let stop ← stop.integer
  return (first, stop - 1, ← entry.removeField "page")

/-- The reply of the model written into an entry. -/
def written (entry reply : Value) : Run Value := do
  let label ← (← reply.item 0).field "physical_index"
  match ← labelled? label with
  | some page => (← entry.setField "physical_index" (.int page)).removeField "page"
  | none => return entry

/-- An entry without a page **is sought** from the page of the nearest entry before it to that of
the nearest entry after it. -/
structure Sought (before : List Value) (entry : Value) (after : List Value)
    (low? high? : Option Value) (first last : Int) (asked : Value) : Prop where
  before : IsNearest before.reverse low?
  after : IsNearest after high?
  first : (low?.getD (.int 0)).int? = some first
  last : (high?.getD (.int (-1))).int? = some last
  asked : entry.removeField "page" = .ok asked

/-- Placing asks between the neighbours. -/
theorem placeEntry_eq (model : Value) (e : Excerpt) (before : List Value) (entry : Value)
    (after : List Value) :
    placeEntry model e before entry after =
      (liftM (neighbours before entry after) : Run (Int × Int × Value)) >>= fun found =>
        fillIn model (.ofTexts (e.window found.1 found.2.1)) found.2.2 >>= written entry := by
  simp only [placeEntry, neighbours, Run.lift_bind, bind_assoc]
  rfl

/-- Where an entry is sought. -/
theorem neighbours_eq_ok_iff {asked : Value} {first last : Int} :
    neighbours before entry after = .ok (first, last, asked) ↔
      ∃ low? high?, Sought before entry after low? high? first last asked := by
  constructor
  · intro h
    obtain ⟨low, hlow, h⟩ := bind_eq_ok.mp h
    obtain ⟨high, hhigh, h⟩ := bind_eq_ok.mp h
    obtain ⟨stop, hstop, h⟩ := bind_eq_ok.mp h
    obtain ⟨first', hfirst, h⟩ := bind_eq_ok.mp h
    obtain ⟨stop', hstop', h⟩ := bind_eq_ok.mp h
    obtain ⟨asked', hasked, h⟩ := bind_eq_ok.mp h
    cases h
    obtain ⟨low?, hbefore, rfl⟩ := firstPage_eq_ok_iff.mp hlow
    obtain ⟨high?, hafter, rfl⟩ := firstPage_eq_ok_iff.mp hhigh
    exact ⟨low?, high?, hbefore, hafter, integer_eq_ok_iff.mp hfirst,
      int?_of_add_eq_ok hstop (integer_eq_ok_iff.mp hstop') rfl, hasked⟩
  · rintro ⟨low?, high?, hbefore, hafter, hfirst, hlast, hasked⟩
    have hlow : pageBefore before = .ok _ := firstPage_eq_ok_iff.mpr ⟨low?, hbefore, rfl⟩
    have hhigh : pageAfter after = .ok _ := firstPage_eq_ok_iff.mpr ⟨high?, hafter, rfl⟩
    have hstop := add_of_int? hlast (b := .int 1) rfl
    refine bind_ok hlow (bind_ok hhigh (bind_ok hstop
      (bind_ok (integer_eq_ok_iff.mpr hfirst) (bind_ok rfl (bind_ok hasked ?_)))))
    rw [Int.add_sub_cancel]
    rfl

/-- Between which pages a **wrong entry** is looked for, if it is the only wrong one. -/
theorem plan_of_isNearest {item title : Value} {low? high? : Option Value}
    (hindex : item.field? "list_index" = some (.int before.length))
    (htitle : item.field? "title" = some title) (hbefore : IsNearest before.reverse low?)
    (hafter : IsNearest after high?) :
    plan e (before ++ entry :: after) [.int before.length] item =
      .ok (.between (.int before.length) title (low?.getD (.int (e.first - 1)))
        (high?.getD (.int e.last))) := by
  have hbefore : rightPage [.int before.length] before.zipIdx.reverse = .ok low? := by
    refine rightPage_of_isNearest (fun x hx => ?_) (by simpa [map_reverse] using hbefore)
    exact isWrong_of_ne (Nat.ne_of_gt (snd_lt_of_mem_zipIdx (mem_reverse.mp hx)))
  have hafter : rightPage [.int before.length] (after.zipIdx (before.length + 1)) = .ok high? := by
    refine rightPage_of_isNearest (fun x hx => ?_) (by simpa using hafter)
    exact isWrong_of_ne (Nat.ne_of_lt (le_snd_of_mem_zipIdx hx))
  have hnonneg : (Value.int before.length).less (.int 0) = .ok false := by
    rw [less_of_int? rfl rfl, decide_eq_false (by omega)]
  have hinside : (Value.int before.length).less (.ofNat (before ++ entry :: after).length) =
      .ok true := by
    rw [Value.ofNat, less_of_int? rfl rfl, length_append, length_cons,
      decide_eq_true (by omega)]
  refine bind_ok (field_eq_ok_iff.mpr hindex) (bind_ok hnonneg (bind_ok hinside
    (bind_ok rfl (bind_ok ?_ (bind_ok ?_ (bind_ok (field_eq_ok_iff.mpr htitle) rfl))))))
  · simpa [zipIdx_append] using hbefore
  · simpa [zipIdx_append, drop_append, drop_eq_nil_of_le] using hafter

/-! ### One entry after the other -/

/-- The entries after `before`, with **the first** `k` of the entries that follow placed. -/
def placeFirst (model : Value) (e : Excerpt) : (k : Nat) → (before rest : List Value) →
    Run (List Value)
  | k + 1, before, entry :: rest => do
    let known ← entry.mentions "physical_index"
    let entry ← if known then pure entry else placeEntry model e before entry rest
    placeFirst model e k (before ++ [entry]) rest
  | _, before, _ => return before

/-- Placing all entries is placing the first ones, and then the others. -/
theorem bind_placeFirst (model : Value) (e : Excerpt) (k : Nat) (before rest : List Value) :
    (before ++ ·) <$> placeRest model e before rest =
      placeFirst model e k before rest >>= fun placed =>
        (placed ++ ·) <$> placeRest model e placed (rest.drop k) := by
  induction k generalizing before rest with
  | zero => cases rest <;> simp [placeFirst]
  | succ k ih =>
    cases rest with
    | nil => simp [placeFirst]
    | cons entry rest =>
      have hnext (x : Value) :
          (fun r => before ++ x :: r) <$> placeRest model e (before ++ [x]) rest =
            placeFirst model e k (before ++ [x]) rest >>= fun placed =>
              (placed ++ ·) <$> placeRest model e placed (rest.drop k) := by
        simp [← ih]
      simp only [placeFirst, placeRest, drop_succ_cons, bind_assoc, map_bind]
      refine bind_congr fun known => ?_
      cases known <;> simp [← hnext]

/-- The work on an entry that is reached is what is left of the whole. -/
theorem execute_placeAll_of_reached {model : Value} {items : List Value} {k : Nat}
    {session : Session} {l l₁ : Ledger} (hentry : items.drop k = entry :: after)
    (hreached : (placeFirst model e k [] items).Returns session l before l₁)
    (hnone : entry.mentions "physical_index" = .ok false) :
    (placeAll model e (.list items)).execute session l =
      (placeEntry model e before entry after >>= fun found =>
        (fun rest => .list (before ++ found :: rest)) <$>
          placeRest model e (before ++ [found]) after).execute session l₁ := by
  have hall : placeAll model e (.list items) = placeFirst model e k [] items >>= fun placed =>
      (fun rest => .list (placed ++ rest)) <$> placeRest model e placed (items.drop k) := by
    calc placeAll model e (.list items)
        = Value.list <$> (([] ++ ·) <$> placeRest model e [] items) := by simp [placeAll]
      _ = _ := by
        rw [bind_placeFirst model e k]
        simp
  rw [hall, Run.execute_bind_of_returns hreached, hentry, placeRest, hnone]
  simp [Run.lift_ok_bind]

/-! ### The pages that are shown -/

/-- For an entry between the same neighbours, **repair shows** the pages between two numbers. -/
def RepairShows (e : Excerpt) (before : List Value) (entry : Value) (after : List Value)
    (first last : Int) : Prop :=
  ∀ item title, item.field? "list_index" = some (.int before.length) →
    item.field? "title" = some title →
    ∃ low high, low.int? = some first ∧ high.int? = some last ∧
      plan e (before ++ entry :: after) [.int before.length] item =
        .ok (.between (.int before.length) title low high)

/-- What repair shows in its place. -/
theorem Sought.repairShows {asked : Value} {low? high? : Option Value} {first last : Int}
    (h : Sought before entry after low? high? first last asked) (e : Excerpt) :
    RepairShows e before entry after (if low? = none then e.first - 1 else first)
      (if high? = none then e.last else last) := by
  intro item title hindex htitle
  refine ⟨_, _, ?_, ?_, plan_of_isNearest hindex htitle h.before h.after⟩
  · cases low? with
    | none => rfl
    | some low => exact h.first
  · cases high? with
    | none => rfl
    | some high => exact h.last

/-- **Which pages are shown for an entry without a page.** With the entries before it placed, the
model is asked about the pages from that of the nearest entry before it to that of the nearest entry
after it, and the work fails unasked if these are no integers. They are those that repair shows if a
page follows, and none at all otherwise. -/
theorem unnumbered_entries_need_a_next_page (model : Value) (e : Excerpt)
    {items before after : List Value} {entry : Value} {k : Nat} {session : Session}
    {l l₁ : Ledger} (hentry : items.drop k = entry :: after)
    (hreached : (placeFirst model e k [] items).Returns session l before l₁)
    (hnone : entry.mentions "physical_index" = .ok false) :
    (placeAll model e (.list items)).execute session l =
      (placeEntry model e before entry after >>= fun found =>
        (fun rest => .list (before ++ found :: rest)) <$>
          placeRest model e (before ++ [found]) after).execute session l₁ ∧
    ((¬ ∃ low? high? first last asked, Sought before entry after low? high? first last asked) →
      ∃ why, placeEntry model e before entry after = Run.fail why) ∧
    ∀ low? high? first last asked, Sought before entry after low? high? first last asked →
      placeEntry model e before entry after =
        fillIn model (.ofTexts (e.window first last)) asked >>= written entry ∧
      ∃ first' last', RepairShows e before entry after first' last' ∧
        (0 ≤ e.first →
          (high? ≠ none → e.window first last = e.window first' last') ∧
          (high? = none → last' = e.last ∧ e.window first last = [])) := by
  refine ⟨execute_placeAll_of_reached hentry hreached hnone, fun hnot => ?_,
    fun low? high? first last asked hsought => ⟨?_, _, _, hsought.repairShows e, fun hfirst =>
      ⟨fun hhigh => ?_, fun hhigh => ⟨if_pos hhigh, ?_⟩⟩⟩⟩
  · cases hfound : neighbours before entry after with
    | error why =>
      refine ⟨why, ?_⟩
      rw [placeEntry_eq, hfound, Run.lift_error_bind]
    | ok found =>
      obtain ⟨low?, high?, hsought⟩ := neighbours_eq_ok_iff.mp hfound
      exact absurd ⟨low?, high?, _, _, _, hsought⟩ hnot
  · rw [placeEntry_eq, neighbours_eq_ok_iff.mpr ⟨low?, high?, hsought⟩, Run.lift_ok_bind]
  · rw [if_neg hhigh]
    cases low? with
    | none =>
      obtain rfl : 0 = first := Option.some.inj hsought.first
      exact Excerpt.window_congr fun n hn => by
        rw [if_pos rfl]
        omega
    | some low => rfl
  · subst hhigh
    obtain rfl : -1 = last := Option.some.inj hsought.last
    exact Excerpt.window_eq_nil (by omega) first

def shortExcerpt : Excerpt := { pages := [⟨"a", 1⟩, ⟨"b", 1⟩, ⟨"c", 1⟩] }

/-- An entry with the page on which it begins. -/
def placedOn (page : Int) : Value := .object [("title", .str "A"), ("physical_index", .int page)]

/-- An entry without a page. -/
def unplaced : Value := .object [("title", .str "B"), ("page", .null)]

/-- The unplaced entry as it is shown to the model. -/
def unplacedAsked : Value := .object [("title", .str "B")]

/-- **An entry between two others** is looked for between their pages. -/
theorem middle_entry_sees_three_pages :
    (placeFirst .null shortExcerpt 1 [] [placedOn 1, unplaced, placedOn 3]).Returns
      (Run.scripted []) {} [placedOn 1] {} ∧
    Sought [placedOn 1] unplaced [placedOn 3] (some (.int 1)) (some (.int 3)) 1 3 unplacedAsked ∧
    placeEntry .null shortExcerpt [placedOn 1] unplaced [placedOn 3] =
      fillIn .null (.ofTexts (shortExcerpt.window 1 3)) unplacedAsked >>= written unplaced ∧
    (shortExcerpt.window 1 3).length = 3 := by
  have hsought : Sought [placedOn 1] unplaced [placedOn 3] (some (.int 1)) (some (.int 3)) 1 3
      unplacedAsked := ⟨.here rfl rfl, .here rfl rfl, rfl, rfl, rfl⟩
  have hreached : (placeFirst .null shortExcerpt 1 [] [placedOn 1, unplaced, placedOn 3]).Returns
      (Run.scripted []) {} [placedOn 1] {} := rfl
  obtain ⟨-, -, hshown⟩ := unnumbered_entries_need_a_next_page .null shortExcerpt rfl hreached rfl
  exact ⟨hreached, hsought, (hshown _ _ _ _ _ hsought).1, rfl⟩

/-- **The last entry of a table sees no page**, where repair shows all pages from the one before it
to the last. -/
theorem last_entry_sees_no_page :
    placeEntry .null shortExcerpt [placedOn 1] unplaced [] =
      fillIn .null (.ofTexts []) unplacedAsked >>= written unplaced ∧
    RepairShows shortExcerpt [placedOn 1] unplaced [] 1 3 ∧
    (shortExcerpt.window 1 3).length = 3 := by
  have hsought : Sought [placedOn 1] unplaced [] (some (.int 1)) none 1 (-1) unplacedAsked :=
    ⟨.here rfl rfl, .nil, rfl, rfl, rfl⟩
  refine ⟨?_, hsought.repairShows shortExcerpt, rfl⟩
  rw [placeEntry_eq, neighbours_eq_ok_iff.mpr ⟨_, _, hsought⟩, Run.lift_ok_bind]
  rfl

end Contents

end DocTree
