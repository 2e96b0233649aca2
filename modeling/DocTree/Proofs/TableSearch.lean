import DocTree.Contents.Search
import DocTree.Page.Group
import DocTree.Proofs.Excerpt
import DocTree.Proofs.Run

/-!
# The table of contents that is found

The pages on which the model sees a table of contents form maximal runs. The search goes from run to
run and takes the first one with page numbers, or else the first one, as a whole.
-/

namespace DocTree.Contents

open Run List

/-! ### Runs -/

/-- The positions from `R.1` up to, but not including, `R.2` are a **maximal run** of listed
positions below `n`. -/
structure IsRun (isListed : Nat → Bool) (n : Nat) (R : Nat × Nat) : Prop where
  nonempty : R.1 < R.2
  within : R.2 ≤ n
  listed : ∀ i, R.1 ≤ i → i < R.2 → isListed i = true
  before : 0 < R.1 → isListed (R.1 - 1) = false
  after : R.2 < n → isListed R.2 = false

section

variable {isListed : Nat → Bool} {n : Nat} {R S : Nat × Nat}

/-- A run does not go on past the end of another one. -/
theorem IsRun.end_le (hR : IsRun isListed n R) (hS : IsRun isListed n S) (h : S.1 ≤ R.2) :
    S.2 ≤ R.2 := by
  by_contra hlt
  have hwithin := hS.within
  have hafter := hR.after (by omega)
  rw [hS.listed R.2 h (by omega)] at hafter
  cases hafter

/-- Of two runs, the second is the first one or begins after it. -/
theorem IsRun.eq_or_le (hR : IsRun isListed n R) (hS : IsRun isListed n S) (h : R.1 ≤ S.1) :
    S = R ∨ R.2 ≤ S.1 := by
  rcases Nat.lt_or_ge S.1 R.2 with hlt | hge
  swap
  · exact .inr hge
  have hnonempty := hS.nonempty
  have hfirst : S.1 = R.1 := by
    by_contra hne
    have hbefore := hS.before (by omega)
    rw [hR.listed (S.1 - 1) (by omega) (by omega)] at hbefore
    cases hbefore
  exact .inl (Prod.ext hfirst (Nat.le_antisymm (hR.end_le hS (by omega)) (hS.end_le hR (by omega))))

end

def positions (R : Nat × Nat) : List Int := (List.range' R.1 (R.2 - R.1)).map Int.ofNat

/-- An empty run has no positions. -/
theorem positions_self (a : Nat) : positions (a, a) = [] := by simp [positions]

/-- The first position of a run. -/
theorem positions_cons {a b : Nat} (h : a < b) :
    positions (a, b) = (a : Int) :: positions (a + 1, b) := by
  obtain ⟨k, rfl⟩ := Nat.exists_eq_add_of_lt h
  simp [positions, show a + k + 1 - a = k + 1 by omega, show a + k + 1 - (a + 1) = k by omega,
    range'_succ]

/-- The last position of a run. -/
theorem getLast?_positions {R : Nat × Nat} (h : R.1 < R.2) :
    (positions R).getLast? = some ((R.2 : Int) - 1) := by
  rw [positions, getLast?_map, getLast?_range', if_neg (by omega), Option.map_some,
    Option.some.injEq, Int.ofNat_eq_natCast]
  omega

/-! ### Answers -/

def yesNo (b : Bool) : Value := .str (if b then "yes" else "no")

/-- A session without a log. -/
def quiet (session : Session) : Session := { session with logging := false }

/-- In a session the model **answers** whether a page is listed, always the same, and whether a
table shows page numbers. -/
structure Answers (session : Session) (name : Value) (pages : List Page)
    (isListed : Nat → Bool) : Prop where
  page : ∀ {i : Nat} {page : Page}, pages[i]? = some page → ∀ l,
    ∃ l', (detect name (.str page.text)).Returns (quiet session) l (yesNo (isListed i)) l'
  numbers : ∀ content l, ∃ b l', (detectNumbers name (.str content)).Returns session l (yesNo b) l'

/-- The settings of a search: the model, and how many pages are looked at. -/
structure Looks (settings : Settings) (name : Value) (limit : Int) : Prop where
  name : settings.get "model" = .ok name
  limit : settings.get "toc_check_page_num" = .ok (.int limit)

variable {settings : Settings} {name : Value} {limit : Int} {session : Session}
  {pages : List Page} {isListed : Nat → Bool}

/-- What lies beyond the pages that are looked at. -/
theorem isBeyond_eq (h : Looks settings name limit) (i : Int) :
    isBeyond settings i = .ok (decide (limit ≤ i)) := by
  rw [isBeyond, h.limit]
  exact Value.atMost_of_int? (a := .int limit) (b := .int i) rfl rfl

/-- The text of a page that is there. -/
theorem textAt_eq {i : Nat} {page : Page} (h : pages[i]? = some page) :
    Page.textAt pages i = .ok page.text := by
  obtain ⟨hi, rfl⟩ := List.getElem?_eq_some_iff.mp h
  rw [Page.textAt, Value.itemOf_of_place? (Value.place?_eq_some_iff.mpr (.inl (by omega))) hi]
  rfl

/-! ### Looking at pages -/

section

variable (hlooks : Looks settings name limit) (h : Answers session name pages isListed)
include hlooks h

/-- **Looking at one page**: nothing is asked beyond the pages that are looked at, except in an open
run. -/
theorem execute_scanPages_succ (count : Nat) {i : Nat} (hi : i < pages.length)
    (isOpen : Bool) (l : Ledger) :
    ∃ l₁, (scanPages settings pages (count + 1) i isOpen).execute (quiet session) l =
      if limit ≤ i ∧ isOpen = false then (.ok [], l)
      else if isListed i then
        (List.cons (i : Int) <$> scanPages settings pages count (i + 1) true).execute
          (quiet session) l₁
      else if isOpen then (.ok [], l₁)
      else (scanPages settings pages count (i + 1) false).execute (quiet session) l₁ := by
  obtain ⟨l₁, hanswer⟩ := h.page (getElem?_eq_getElem hi) l
  refine ⟨l₁, ?_⟩
  rw [scanPages, isBeyond_eq hlooks, lift_ok_bind]
  by_cases hbeyond : limit ≤ i ∧ isOpen = false
  · rw [if_pos hbeyond, if_pos (by simp [hbeyond])]
    rfl
  rw [if_neg hbeyond, if_neg (by simpa using hbeyond), textAt_eq (getElem?_eq_getElem hi),
    lift_ok_bind, hlooks.name, lift_ok_bind, execute_bind_of_returns hanswer]
  cases isListed i <;> cases isOpen <;> rfl

/-- An **open run** goes on up to the first page that is not listed. -/
theorem exists_returns_scanPages_true (count i : Nat) (hcount : i + count = pages.length)
    (l : Ledger) : ∃ b l', (scanPages settings pages count i true).Returns (quiet session) l
        (positions (i, b)) l' ∧ i ≤ b ∧ b ≤ pages.length ∧
      (∀ k, i ≤ k → k < b → isListed k = true) ∧ (b < pages.length → isListed b = false) := by
  induction count generalizing i l with
  | zero => exact ⟨i, l, by rw [positions_self]; rfl, by omega, by omega, by omega, by omega⟩
  | succ count ih =>
    obtain ⟨l₁, hstep⟩ := execute_scanPages_succ hlooks h count (i := i) (by omega) true l
    rw [if_neg (by simp)] at hstep
    by_cases hlisted : isListed i = true
    · obtain ⟨b, l', hreturns, hib, hb, hall, hafter⟩ := ih (i + 1) (by omega) l₁
      rw [if_pos hlisted] at hstep
      refine ⟨b, l', ?_, by omega, hb, fun k hik hkb => ?_, hafter⟩
      · rw [positions_cons (by omega)]
        exact hstep.trans (hreturns.map _)
      · rcases Nat.eq_or_lt_of_le hik with rfl | hlt
        · exact hlisted
        · exact hall k hlt hkb
    · rw [if_neg hlisted] at hstep
      refine ⟨i, l₁, by rw [positions_self]; exact hstep, by omega, by omega, by omega, fun _ => ?_⟩
      simpa using hlisted

/-- The **first run** at or after a position, if it begins among the pages that are looked at. -/
theorem exists_returns_scanPages_false (count i : Nat) (hcount : i + count = pages.length)
    (hstart : 0 < i → i < pages.length → isListed i = true → isListed (i - 1) = false)
    (l : Ledger) : ∃ found l', (scanPages settings pages count i false).Returns (quiet session) l
        found l' ∧
      ((found = [] ∧ ∀ S, IsRun isListed pages.length S → i ≤ S.1 → ¬ (S.1 : Int) < limit) ∨
        ∃ R, found = positions R ∧ IsRun isListed pages.length R ∧ i ≤ R.1 ∧ (R.1 : Int) < limit ∧
          ∀ S, IsRun isListed pages.length S → i ≤ S.1 → R.1 ≤ S.1) := by
  induction count generalizing i l with
  | zero =>
    refine ⟨[], l, rfl, .inl ⟨rfl, fun S hS hi => ?_⟩⟩
    have := hS.nonempty
    have := hS.within
    omega
  | succ count ih =>
    obtain ⟨l₁, hstep⟩ := execute_scanPages_succ hlooks h count (i := i) (by omega) false l
    by_cases hbeyond : limit ≤ i
    · rw [if_pos ⟨hbeyond, rfl⟩] at hstep
      exact ⟨[], l, hstep, .inl ⟨rfl, fun S _ hi => by omega⟩⟩
    rw [if_neg fun h => hbeyond h.1] at hstep
    by_cases hlisted : isListed i = true
    · -- the run begins here
      obtain ⟨b, l', hreturns, hib, hb, hall, hafter⟩ :=
        exists_returns_scanPages_true hlooks h count (i + 1) (by omega) l₁
      rw [if_pos hlisted] at hstep
      refine ⟨_, l', hstep.trans (hreturns.map _), .inr ⟨(i, b), (positions_cons (by omega)).symm,
        ⟨by omega, hb, fun k hik hkb => ?_, fun hi => hstart hi (by omega) hlisted, hafter⟩,
        by omega, by omega, fun S _ hi => hi⟩⟩
      rcases Nat.eq_or_lt_of_le hik with rfl | hlt
      · exact hlisted
      · exact hall k hlt hkb
    · -- no run begins here
      obtain ⟨found, l', hreturns, hfound⟩ := ih (i + 1) (by omega)
        (fun _ _ _ => by simpa using hlisted) l₁
      have hnext : ∀ S, IsRun isListed pages.length S → i ≤ S.1 → i + 1 ≤ S.1 := by
        intro S hS hi
        rcases Nat.eq_or_lt_of_le hi with heq | hlt
        · exact absurd (heq ▸ hS.listed S.1 (Nat.le_refl _) hS.nonempty) hlisted
        · exact hlt
      rw [if_neg hlisted] at hstep
      refine ⟨found, l', hstep.trans hreturns, hfound.imp ?_ ?_⟩
      · exact fun hnone => ⟨hnone.1, fun S hS hi => hnone.2 S hS (hnext S hS hi)⟩
      · rintro ⟨R, hR, hrun, hi, hlimit, hfirst⟩
        exact ⟨R, hR, hrun, by omega, hlimit, fun S hS hi => hfirst S hS (hnext S hS hi)⟩

end

/-! ### Requests of a search -/

/-- Some work **only adds** requests to those that were made before it. -/
def OnlyAdds {α : Type} (work : Run α) : Prop :=
  ∀ session l, l.requests <+: (work.execute session l).2.requests

section

variable {α β : Type}

/-- Pure values add nothing. -/
@[grind ←] theorem onlyAdds_pure (a : α) : OnlyAdds (pure a) := fun _ _ => prefix_refl _

/-- Pure results add nothing. -/
@[grind ←] theorem onlyAdds_lift (result : Except Failure α) :
    OnlyAdds (liftM result : Run α) := fun _ _ => prefix_refl _

/-- Work that only adds, one after the other. -/
@[grind ←] theorem onlyAdds_bind {work : Run α} {next : α → Run β} (h : OnlyAdds work)
    (hnext : ∀ a, OnlyAdds (next a)) : OnlyAdds (work >>= next) := by
  intro session l
  have hfirst := h session l
  rw [execute_bind]
  split
  · rename_i a l₁ hwork
    rw [hwork] at hfirst
    exact hfirst.trans (hnext a session l₁)
  · rename_i why l₁ hwork
    rw [hwork] at hfirst
    exact hfirst

/-- Requests stay, and others may follow. -/
theorem OnlyAdds.of_returns {work : Run α} {a : α} {l l' : Ledger} (h : OnlyAdds work)
    (hreturns : work.Returns session l a l') : l.requests <+: l'.requests := by
  have hadds := h session l
  rwa [hreturns] at hadds

/-- Printing adds no request. -/
@[grind ←] theorem onlyAdds_printLine_bind (text : String) {next : Unit → Run β}
    (h : OnlyAdds (next ())) : OnlyAdds (printLine text >>= next) :=
  onlyAdds_bind (fun _ _ => prefix_refl _) fun _ => h

/-- Logging adds no request. -/
@[grind ←] theorem onlyAdds_infoIfLogging (message : Value) : OnlyAdds (infoIfLogging message) := by
  rintro ⟨model, nesting, logging, patience⟩ l
  cases logging <;> exact prefix_refl _

/-- Attempts only add requests. -/
theorem onlyAdds_attempts (n : Nat) (r : Request) : OnlyAdds (Ask.attempts n r) := by
  induction n with
  | zero => exact onlyAdds_pure none
  | succ n ih =>
    refine onlyAdds_bind (fun _ _ => prefix_append _ _) fun reply => ?_
    cases reply <;> grind

/-- So does asking for a content. -/
theorem onlyAdds_content (model : Value) (prompt : String) (history : List Message) :
    OnlyAdds (Ask.content model prompt history) :=
  onlyAdds_bind (onlyAdds_attempts _ _) fun _ => onlyAdds_pure _

/-- Reading data adds none. -/
theorem onlyAdds_data (reply : Value) : OnlyAdds (Ask.data reply) :=
  fun _ _ => prefix_refl _

/-- Looking at a text only adds requests. -/
@[grind ←] theorem onlyAdds_detect (content : Value) : OnlyAdds (detect name content) :=
  onlyAdds_bind (onlyAdds_content _ _ _) fun _ => onlyAdds_bind (onlyAdds_data _) fun _ =>
    onlyAdds_lift _

/-- So does scanning pages. -/
@[grind ←] theorem onlyAdds_scanPages (count : Nat) (i : Int) (isOpen : Bool) :
    OnlyAdds (scanPages settings pages count i isOpen) := by
  induction count generalizing i isOpen with
  | zero => exact onlyAdds_pure []
  | succ count ih => grind [scanPages]

/-- So does finding pages. -/
theorem onlyAdds_findPages (i : Int) : OnlyAdds (findPages settings pages i) := by
  grind [findPages]

end

/-! ### Runs that are found -/

/-- What is found when a search looks for a run at or after a position where none is cut. -/
theorem exists_run_of_findPages (hlooks : Looks settings name limit)
    (h : Answers session name pages isListed) {i : Nat} (hi : i ≤ pages.length)
    (hstart : 0 < i → i < pages.length → isListed i = false) (l : Ledger) :
    ∃ found l', (quietly (findPages settings pages i)).Returns session l found l' ∧
      l.requests <+: l'.requests ∧
      ((found = [] ∧ ∀ S, IsRun isListed pages.length S → i ≤ S.1 → ¬ (S.1 : Int) < limit) ∨
        ∃ R, found = positions R ∧ IsRun isListed pages.length R ∧ i ≤ R.1 ∧ (R.1 : Int) < limit ∧
          ∀ S, IsRun isListed pages.length S → i ≤ S.1 → R.1 ≤ S.1) := by
  obtain ⟨found, l', hreturns, hfound⟩ := exists_returns_scanPages_false hlooks h
    (pages.length - i) i (by omega) (fun hpos hlt hlisted => by simp [hstart hpos hlt] at hlisted)
    { l with printed := l.printed ++ "start find_toc_pages" ++ "\n" }
  have hcount : ((pages.length : Int) - i).toNat = pages.length - i := by omega
  have hfind : (findPages settings pages i).Returns (quiet session) l found l' := by
    rw [findPages, hcount]
    refine Returns.bind rfl (hreturns.bind ?_)
    cases found <;> rfl
  exact ⟨found, l', hfind, (onlyAdds_findPages i).of_returns hfind, hfound⟩

/-- The text of a run, with short leaders. -/
def runText (pages : List Page) (R : Nat × Nat) : String :=
  Text.collapseLeaders (Page.intervalText (pages.map Page.text) R)

/-- Between two ledgers the model has **judged runs** in turn: each in requests of its own, behind
those of the runs before it. -/
inductive JudgedInTurn (session : Session) (name : Value) (pages : List Page) :
    Ledger → Ledger → List ((Nat × Nat) × Bool) → Prop
  | done {l l' : Ledger} : l.requests <+: l'.requests → JudgedInTurn session name pages l l' []
  | next {l l₁ l₂ l' : Ledger} {R : Nat × Nat} {b : Bool} {rest : List ((Nat × Nat) × Bool)} :
      l.requests <+: l₁.requests →
      (detectNumbers name (.str (runText pages R))).Returns session l₁ (yesNo b) l₂ →
      (∀ later ∈ rest, R.2 ≤ later.1.1) → JudgedInTurn session name pages l₂ l' rest →
      JudgedInTurn session name pages l l' ((R, b) :: rest)

/-- Later requests change no judgement. -/
theorem JudgedInTurn.mono {l l' k' : Ledger} {verdicts : List ((Nat × Nat) × Bool)}
    (h : JudgedInTurn session name pages l l' verdicts) (hk : l'.requests <+: k'.requests) :
    JudgedInTurn session name pages l k' verdicts := by
  induction h with
  | done hl => exact .done (hl.trans hk)
  | next hl hreturns hlater _ ih => exact .next hl hreturns hlater (ih hk)

/-- The texts of a run of pages. -/
theorem mapM_textAt (a b : Nat) (hb : b ≤ pages.length) :
    (positions (a, b)).mapM (fun i => (liftM (Page.textAt pages i) : Run String)) =
      pure (((pages.map Page.text).take b).drop a) := by
  induction hk : b - a generalizing a with
  | zero =>
    rw [positions, hk, drop_eq_nil_of_le (by rw [length_take]; omega)]
    rfl
  | succ k ih =>
    have ha : a < pages.length := by omega
    have htake : a < ((pages.map Page.text).take b).length := by simp; omega
    rw [positions_cons (by omega), mapM_cons, textAt_eq (getElem?_eq_getElem ha),
      lift_ok_bind, ih (a + 1) (by omega), pure_bind, drop_eq_getElem_cons htake]
    simp

/-- Gathering a run makes its text, and the model judges it. -/
theorem exists_returns_gather (h : Answers session name pages isListed) {R : Nat × Nat}
    (hR : IsRun isListed pages.length R) (l : Ledger) :
    ∃ b l', (gather name pages (positions R)).Returns session l (runText pages R, yesNo b) l' ∧
      (detectNumbers name (.str (runText pages R))).Returns session l (yesNo b) l' := by
  obtain ⟨b, l', hreturns⟩ := h.numbers (runText pages R) l
  refine ⟨b, l', ?_, hreturns⟩
  rw [gather, mapM_textAt R.1 R.2 hR.within, pure_bind]
  exact hreturns.bind rfl

def listingOf (pages : List Page) (R : Nat × Nat) (numbered : Bool) : Listing where
  content? := some (runText pages R)
  pages := positions R
  numbered := numbered

/-- The first run from a position on that is judged to show page numbers, among those that begin
below the limit. -/
def FindsFrom (limit : Int) (pages : List Page) (isRun : Nat × Nat → Prop)
    (verdicts : List ((Nat × Nat) × Bool)) (i : Nat) : Option Listing → Prop
  | none => ∀ S, isRun S → i ≤ S.1 → (S.1 : Int) < limit → (S, false) ∈ verdicts
  | some found => ∃ R, found = listingOf pages R true ∧ isRun R ∧ i ≤ R.1 ∧ (R.1 : Int) < limit ∧
      (R, true) ∈ verdicts ∧ ∀ S, isRun S → i ≤ S.1 → S.1 < R.1 → (S, false) ∈ verdicts

/-- A run without page numbers is passed over. -/
theorem FindsFrom.extend {verdicts : List ((Nat × Nat) × Bool)} {n i : Nat} {R : Nat × Nat}
    {found? : Option Listing} (hR : IsRun isListed n R) (hiR : i ≤ R.1)
    (hfirst : ∀ S, IsRun isListed n S → i ≤ S.1 → R.1 ≤ S.1)
    (h : FindsFrom limit pages (IsRun isListed n) verdicts R.2 found?) :
    FindsFrom limit pages (IsRun isListed n) ((R, false) :: verdicts) i found? := by
  have hnonempty := hR.nonempty
  have hsplit : ∀ S, IsRun isListed n S → i ≤ S.1 → S = R ∨ R.2 ≤ S.1 := fun S hS hiS =>
    hR.eq_or_le hS (hfirst S hS hiS)
  cases found? with
  | none =>
    intro S hS hiS hlimit
    rcases hsplit S hS hiS with rfl | hlater
    · exact mem_cons_self
    · exact mem_cons_of_mem _ (h S hS hlater hlimit)
  | some found =>
    obtain ⟨R', hfound, hR', hle, hlimit, hnumbered, hothers⟩ := h
    refine ⟨R', hfound, hR', by omega, hlimit, mem_cons_of_mem _ hnumbered,
      fun S hS hiS hlt => ?_⟩
    rcases hsplit S hS hiS with rfl | hlater
    · exact mem_cons_self
    · exact mem_cons_of_mem _ (hothers S hS hlater hlt)

/-- The search goes **from run to run**, to the first one that is judged to show page numbers. -/
theorem exists_returns_searchNumbered (hlooks : Looks settings name limit)
    (h : Answers session name pages isListed) (rounds i : Nat) (hi : i ≤ pages.length)
    (hrounds : pages.length ≤ i + rounds) (hstart : i < pages.length → isListed i = false)
    (l : Ledger) :
    ∃ found? l' verdicts, (searchNumbered settings pages rounds i).Returns session l found? l' ∧
      JudgedInTurn session name pages l l' verdicts ∧ (∀ judged ∈ verdicts, i ≤ judged.1.1) ∧
      FindsFrom limit pages (IsRun isListed pages.length) verdicts i found? := by
  have hlt : ∀ S, IsRun isListed pages.length S → S.1 < pages.length := fun S hS =>
    Nat.lt_of_lt_of_le hS.nonempty hS.within
  have hnil : ∀ judged ∈ ([] : List ((Nat × Nat) × Bool)), i ≤ judged.1.1 := forall_mem_nil _
  induction rounds generalizing i l with
  | zero =>
    exact ⟨none, l, [], rfl, .done (prefix_refl _), hnil,
      fun S hS hiS _ => absurd (hlt S hS) (by omega)⟩
  | succ rounds ih =>
    rw [searchNumbered, isBeyond_eq hlooks]
    split
    · exact ⟨none, l, [], rfl, .done (prefix_refl _), hnil,
        fun S hS hiS _ => absurd (hlt S hS) (by omega)⟩
    rw [lift_ok_bind]
    split
    · rename_i hbeyond
      have := of_decide_eq_true hbeyond
      exact ⟨none, l, [], rfl, .done (prefix_refl _), hnil, fun S hS hiS _ => by omega⟩
    obtain ⟨found, l₁, hfound, hl₁, ⟨rfl, hnone⟩ | ⟨R, rfl, hR, hiR, hlimit, hfirst⟩⟩ :=
      exists_run_of_findPages hlooks h hi (fun _ => hstart) l
    · exact ⟨none, l₁, [], hfound.bind rfl, .done hl₁, hnil, fun S hS hiS hlt =>
        absurd hlt (hnone S hS hiS)⟩
    have hnonempty := hR.nonempty
    obtain ⟨b, l₂, hgather, hjudged⟩ := exists_returns_gather h hR l₁
    cases b with
    | true =>
      refine ⟨some (listingOf pages R true),
        { l₂ with printed := l₂.printed ++ "index found" ++ "\n" }, [(R, true)], hfound.bind ?_,
        .next hl₁ hjudged (forall_mem_nil _) (.done (prefix_refl _)),
        forall_mem_singleton.mpr hiR, R, rfl, hR, hiR, hlimit, mem_singleton_self _,
        fun S hS hiS hlt => absurd (hfirst S hS hiS) (by omega)⟩
      rw [getLast?_positions hnonempty, hlooks.name]
      exact Returns.bind rfl (hgather.bind rfl)
    | false =>
      obtain ⟨found?, l', verdicts, hreturns, hverdicts, hlater, hrest⟩ :=
        ih R.2 hR.within (by omega) hR.after l₂ (forall_mem_nil _)
      refine ⟨found?, l', (R, false) :: verdicts, hfound.bind ?_,
        .next hl₁ hjudged hlater hverdicts, forall_mem_cons.mpr ⟨hiR, fun judged hmem => ?_⟩,
        hrest.extend hR hiR hfirst⟩
      · rw [getLast?_positions hnonempty, hlooks.name]
        rw [← Int.sub_add_cancel (R.2 : Int) 1] at hreturns
        exact Returns.bind rfl (hgather.bind hreturns)
      · have := hlater judged hmem
        omega

/-- What a search should **find** after these verdicts: the first run that is judged to show page
numbers, or else the first run, or nothing. -/
inductive Finds (limit : Int) (pages : List Page) (isRun : Nat × Nat → Prop)
    (verdicts : List ((Nat × Nat) × Bool)) : Listing → Prop
  | numbered {R} : isRun R → (R.1 : Int) < limit → (R, true) ∈ verdicts →
      (∀ S, isRun S → S.1 < R.1 → (S, false) ∈ verdicts) →
      Finds limit pages isRun verdicts (listingOf pages R true)
  | unnumbered {R} : isRun R → (R.1 : Int) < limit →
      (∀ S, isRun S → (S.1 : Int) < limit → R.1 ≤ S.1 ∧ (S, false) ∈ verdicts) →
      Finds limit pages isRun verdicts (listingOf pages R false)
  | nothing : (∀ S, isRun S → ¬ (S.1 : Int) < limit) → Finds limit pages isRun verdicts {}

/-- **The table of contents that is found** is the first maximal run of listed pages that is judged
to show page numbers, or else the first one, of those that begin among the pages that are looked at.
The runs are judged in turn, each for itself. -/
theorem search_finds_first_numbered_run (settings : Settings) (name : Value) (limit : Int)
    (session : Session) (pages : List Page) (isListed : Nat → Bool)
    (hlooks : Looks settings name limit) (h : Answers session name pages isListed)
    (l : Ledger) :
    ∃ found l' verdicts, (search settings pages).Returns session l found l' ∧
      JudgedInTurn session name pages l l' verdicts ∧
      Finds limit pages (IsRun isListed pages.length) verdicts found := by
  obtain ⟨found, l₁, hfound, hl₁, ⟨rfl, hnone⟩ | ⟨R, rfl, hR, -, hlimit, hfirst⟩⟩ :=
    exists_run_of_findPages (i := 0) hlooks h (Nat.zero_le _) (by omega) l
  · exact ⟨{}, _, [], hfound.bind rfl, .done hl₁,
      .nothing fun S hS => hnone S hS (Nat.zero_le _)⟩
  have hnonempty := hR.nonempty
  set shown : Ledger := { l₁ with printed := l₁.printed ++ "toc found" ++ "\n" }
  obtain ⟨b, l₂, hgather, hjudged⟩ := exists_returns_gather h hR shown
  have hl₁ : l.requests <+: shown.requests := hl₁
  rw [search]
  cases b with
  | true =>
    refine ⟨_, { l₂ with printed := l₂.printed ++ "index found" ++ "\n" }, [(R, true)],
      hfound.bind ?_,
      .next hl₁ hjudged (forall_mem_nil _) (.done (prefix_refl _)),
      .numbered hR hlimit (mem_singleton_self _) fun S hS hlt =>
        absurd (hfirst S hS (Nat.zero_le _)) (by omega)⟩
    rw [getLast?_positions hnonempty, hlooks.name]
    exact Returns.bind rfl (Returns.bind rfl (hgather.bind rfl))
  | false =>
    obtain ⟨found?, l₃, verdicts, hreturns, hverdicts, hlater, hrest⟩ :=
      exists_returns_searchNumbered hlooks h pages.length R.2 hR.within (by omega) hR.after l₂
    have hall := hrest.extend hR (Nat.zero_le _) hfirst
    rw [← Int.sub_add_cancel (R.2 : Int) 1] at hreturns
    cases found? with
    | none =>
      refine ⟨_, { l₃ with printed := l₃.printed ++ "index not found" ++ "\n" },
        (R, false) :: verdicts, hfound.bind ?_,
        .next hl₁ hjudged hlater (hverdicts.mono (prefix_refl _)),
        .unnumbered hR hlimit fun S hS hlt => ⟨hfirst S hS (Nat.zero_le _),
          hall S hS (Nat.zero_le _) hlt⟩⟩
      rw [getLast?_positions hnonempty, hlooks.name]
      exact Returns.bind rfl (Returns.bind rfl (hgather.bind (hreturns.bind rfl)))
    | some found =>
      obtain ⟨R', rfl, hR', -, hlimit', hnumbered, hothers⟩ := hall
      refine ⟨_, l₃, (R, false) :: verdicts, hfound.bind ?_,
        .next hl₁ hjudged hlater hverdicts,
        .numbered hR' hlimit' hnumbered fun S hS => hothers S hS (Nat.zero_le _)⟩
      rw [getLast?_positions hnonempty, hlooks.name]
      exact Returns.bind rfl (Returns.bind rfl (hgather.bind (hreturns.bind rfl)))

/-- The reply that a page is listed, and that a table shows no page numbers. -/
def listedReply : String :=
  "\x7b\"toc_detected\": \"yes\", \"page_index_given_in_toc\": \"no\"\x7d"

/-- A session in which the model gives this reply to everything. -/
def allListed : Session where
  model := fun _ => .answer (.str listedReply) (.str "stop")
  nesting := 9

/-- **A table on three pages** is found as a whole, also if only the first page is looked at. -/
theorem three_listed_pages_are_one_run :
    Looks [("model", .null), ("toc_check_page_num", .int 1)] .null 1 ∧
    Answers allListed .null [⟨"a", 1⟩, ⟨"b", 1⟩, ⟨"c", 1⟩] (fun _ => true) ∧
    IsRun (fun _ => true) 3 (0, 3) ∧
    ∃ found l' verdicts, (search [("model", .null), ("toc_check_page_num", .int 1)]
        [⟨"a", 1⟩, ⟨"b", 1⟩, ⟨"c", 1⟩]).Returns allListed {} found l' ∧
      JudgedInTurn allListed .null [⟨"a", 1⟩, ⟨"b", 1⟩, ⟨"c", 1⟩] {} l' verdicts ∧
      Finds 1 [⟨"a", 1⟩, ⟨"b", 1⟩, ⟨"c", 1⟩] (IsRun (fun _ => true) 3) verdicts found := by
  have hlisted : (Reply.extract 9 (.str listedReply)).field "toc_detected" = .ok (yesNo true) := by
    decide +kernel
  have hnumbers : (Reply.extract 9 (.str listedReply)).field "page_index_given_in_toc" =
      .ok (yesNo false) := by
    decide +kernel
  have hcontent (logging : Bool) (prompt : String) (l₁ : Ledger) :
      ∃ l₁', (Ask.content .null prompt).Returns { allListed with logging := logging } l₁
        (.str listedReply) l₁' := ⟨_, rfl⟩
  have hlooks : Looks [("model", .null), ("toc_check_page_num", .int 1)] .null 1 := ⟨rfl, rfl⟩
  have hanswers : Answers allListed .null [⟨"a", 1⟩, ⟨"b", 1⟩, ⟨"c", 1⟩] (fun _ => true) := by
    refine ⟨fun {i page} _ l₁ => ?_, fun content l₁ => ⟨false, ?_⟩⟩
    · obtain ⟨l₁', hreturns⟩ := hcontent false (detectPrompt page.text) l₁
      exact ⟨l₁', hreturns.bind (Returns.bind rfl (returns_lift hlisted))⟩
    · obtain ⟨l₁', hreturns⟩ := hcontent true (numbersPrompt content)
        { l₁ with printed := l₁.printed ++ "start detect_page_index" ++ "\n" }
      exact ⟨l₁', Returns.bind rfl (hreturns.bind (Returns.bind rfl (returns_lift hnumbers)))⟩
  exact ⟨hlooks, hanswers, ⟨by decide, by decide, fun _ _ _ => rfl, by decide, by decide⟩,
    search_finds_first_numbered_run _ _ _ _ _ _ hlooks hanswers {}⟩

end DocTree.Contents
