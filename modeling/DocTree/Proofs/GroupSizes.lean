import DocTree.Proofs.Groups
import DocTree.Proofs.TokenCounts

/-!
# Sizes of groups

A group is closed before the page that would make it too long, but the pages that it takes over and
its first own page are not looked at. The first group can be closed before it has any page.
-/

namespace DocTree.Page

open List

variable {texts : List String} {lengths : List Int} {limit greatest overlap : Int}

/-! ### Long groups -/

/-- One more page. -/
theorem lengthOf_succ {rest : List Int} {n : Int} {low i : Nat} (hlow : low ≤ i)
    (h : lengths.drop i = n :: rest) :
    lengthOf lengths low (i + 1) = lengthOf lengths low i + n := by
  have hi : lengths[i]? = some n := by rw [← head?_drop, h, head?_cons]
  obtain ⟨hlt, -⟩ := List.getElem?_eq_some_iff.mp hi
  have hlength : low ≤ (lengths.take i).length := by
    rw [length_take]
    omega
  change ((lengths.take (i + 1)).drop low).sum = ((lengths.take i).drop low).sum + n
  rw [take_add_one, hi, drop_append_of_le_length hlength, sum_append]
  simp

/-- **An interval is short or has few pages**: at most one more than it takes over. -/
theorem size_intervalsFrom (hoverlap : 0 ≤ overlap) (limit : Int) (lengths rest : List Int)
    (i low : Nat) (hrest : lengths.drop i = rest) (hlow : low ≤ i)
    (hopen : lengthOf lengths low i ≤ limit ∨ (i : Int) - low ≤ overlap + 1) :
    ∀ I ∈ intervalsFrom limit overlap lengths rest i low (lengthOf lengths low i),
      lengthOf lengths I.1 I.2 ≤ limit ∨ (I.2 : Int) - I.1 ≤ overlap + 1 := by
  induction rest generalizing i low with
  | nil =>
    rw [intervalsFrom]
    split
    · exact forall_mem_singleton.mpr hopen
    · exact forall_mem_nil _
  | cons n rest ih =>
    have hnext : lengths.drop (i + 1) = rest := by
      rw [← drop_drop, hrest, drop_one, tail_cons]
    have hstart : overlapStart overlap i ≤ i := min_le_right _ _
    rw [intervalsFrom, ← lengthOf_succ hlow hrest]
    split
    · -- what the next group takes over, and this page
      dsimp only
      rw [← lengthOf_succ hstart hrest]
      refine forall_mem_cons.mpr ⟨hopen, ih _ _ hnext (by omega) (.inr ?_)⟩
      rw [overlapStart]
      omega
    · exact ih _ _ hnext (by omega) (.inl (by omega))

/-- Where a group is closed if all divisions are **exact**. -/
def exactLimit (total greatest : Int) : Except Failure Int :=
  .ok ⌈((total : ℚ) / ⌈(total : ℚ) / greatest⌉ + greatest) / 2⌉

/-- The average length is at most the greatest, and so is what is halfway between. -/
theorem exists_exactLimit {total : Int} (hgreatest : 0 < greatest) (htotal : greatest < total) :
    ∃ limit, exactLimit total greatest = .ok limit ∧ limit ≤ greatest := by
  refine ⟨_, rfl, Int.ceil_le.mpr ?_⟩
  have hg : (0 : ℚ) < greatest := by exact_mod_cast hgreatest
  have ht : (0 : ℚ) < total := by exact_mod_cast hgreatest.trans htotal
  have hparts : (0 : ℚ) < ⌈(total : ℚ) / greatest⌉ := by
    exact_mod_cast Int.ceil_pos.mpr (div_pos ht hg)
  have hmean : (total : ℚ) / ⌈(total : ℚ) / greatest⌉ ≤ greatest := by
    rw [div_le_iff₀ hparts, mul_comm, ← div_le_iff₀ hg]
    exact Int.le_ceil _
  linarith

/-- The groups of pages, with any **rule** for where a group is closed. -/
def groupsBy (rule : Int → Int → Except Failure Int) (texts : List String) (lengths : List Int)
    (greatest overlap : Int) : Run (List String) := do
  let whole := total lengths
  if whole ≤ greatest then return [Text.join "" texts]
  let limit ← rule whole greatest
  let found := (intervals limit overlap (lengths.take texts.length)).map (intervalText texts)
  Run.printLine ("divide page_list to groups " ++ Decimal.natText found.length)
  return found

/-- Groups with the limit that is found. -/
theorem groupsBy_groupLimit : groupsBy groupLimit texts lengths greatest overlap =
    groups texts lengths greatest overlap := rfl

section

variable {rule : Int → Int → Except Failure Int} (hlengths : lengths.length = texts.length)
  (hgreatest : 0 < greatest) (hoverlap : 0 ≤ overlap)
include hlengths hgreatest hoverlap

/-- The groups by a rule are the texts of **intervals that cover** the pages. -/
theorem exists_returns_groupsBy {p : Int → Prop}
    (hrule : greatest < total lengths →
      ∃ limit, rule (total lengths) greatest = .ok limit ∧ p limit)
    (session : Session) (l : Ledger) :
    ∃ found l', (groupsBy rule texts lengths greatest overlap).Returns session l
        (found.map (intervalText texts)) l' ∧ Covers overlap 0 texts.length found ∧
      (total lengths ≤ greatest ∧ found = [(0, texts.length)] ∨
        greatest < total lengths ∧ ∃ limit, p limit ∧ found = intervals limit overlap lengths) := by
  rw [groupsBy]
  rcases le_or_gt (total lengths) greatest with hle | hlt
  · refine ⟨[(0, texts.length)], l, ?_, covers_singleton (Nat.zero_le _), .inl ⟨hle, rfl⟩⟩
    rw [if_pos hle, Run.returns_pure_iff]
    simp [intervalText]
  · have hne : lengths ≠ [] := by
      rintro rfl
      exact absurd hlt (not_lt.mpr hgreatest.le)
    obtain ⟨limit, hlimit, hp⟩ := hrule hlt
    rw [if_neg (not_le.mpr hlt), hlimit, ← hlengths, take_length]
    exact ⟨_, _, rfl, covers_intervals hoverlap limit hne, .inr ⟨hlt, limit, hp, rfl⟩⟩

/-- Some work returns **groups with few pages**: texts of intervals that cover the document, where
one that is too long has at most one page more than it takes over. -/
def GivesFewPages (work : Run (List String)) (texts : List String) (lengths : List Int)
    (greatest overlap : Int) (session : Session) (l : Ledger) : Prop :=
  ∃ found l', work.Returns session l (found.map (intervalText texts)) l' ∧
    Covers overlap 0 texts.length found ∧
    ∀ I ∈ found, greatest < lengthOf lengths I.1 I.2 → (I.2 : Int) - I.1 ≤ overlap + 1

/-- Groups that are closed at the greatest length or before it have few pages. -/
theorem givesFewPages_groupsBy
    (hrule : greatest < total lengths →
      ∃ limit, rule (total lengths) greatest = .ok limit ∧ limit ≤ greatest)
    (session : Session) (l : Ledger) :
    GivesFewPages (groupsBy rule texts lengths greatest overlap) texts lengths greatest overlap
      session l := by
  obtain ⟨found, l', hreturns, hcovers, hfound⟩ :=
    exists_returns_groupsBy hlengths hgreatest hoverlap hrule session l
  refine ⟨found, l', hreturns, hcovers, fun I hI hlong => ?_⟩
  rcases hfound with ⟨hle, rfl⟩ | ⟨-, limit, hlimit, rfl⟩
  · obtain rfl := mem_singleton.mp hI
    rw [lengthOf, ← hlengths, take_length, drop_zero] at hlong
    omega
  · have hsize := size_intervalsFrom hoverlap limit lengths lengths 0 0 rfl le_rfl
      (.inr (by omega)) I hI
    omega

end

/-- **Long groups have few pages**, if divisions are exact, and as they are made, up to 51 bits. -/
theorem long_groups_have_few_pages (texts : List String) (lengths : List Int)
    (greatest overlap : Int) (hlengths : lengths.length = texts.length) (hgreatest : 0 < greatest)
    (hoverlap : 0 ≤ overlap) (session : Session) (l : Ledger) :
    GivesFewPages (groupsBy exactLimit texts lengths greatest overlap) texts lengths greatest
        overlap session l ∧
      (total lengths ≤ 2 ^ 51 →
        GivesFewPages (groups texts lengths greatest overlap) texts lengths greatest overlap
          session l) := by
  refine ⟨givesFewPages_groupsBy hlengths hgreatest hoverlap (exists_exactLimit hgreatest)
    session l, fun hshort => ?_⟩
  rw [← groupsBy_groupLimit]
  refine givesFewPages_groupsBy hlengths hgreatest hoverlap (fun htotal => ?_) session l
  rcases groupLimit_cases hgreatest htotal with ⟨limit, hlimit, hle⟩ | ⟨hlarge, -⟩
  · exact ⟨limit, hlimit, hle hshort⟩
  · have : (2 : Int) ^ 51 < Double.safeBound := by decide +kernel
    omega

/-- The third of these groups has two pages of together more than a hundred tokens. -/
theorem two_long_pages_in_a_group :
    total [50, 60, 1] ≤ 2 ^ 51 ∧
      GivesFewPages (groups ["a", "b", "c"] [50, 60, 1] 20 1) ["a", "b", "c"] [50, 60, 1] 20 1
        (Run.scripted []) {} ∧
      ((groups ["a", "b", "c"] [50, 60, 1] 20 1).execute (Run.scripted []) {}).1 =
        .ok ["", "a", "ab", "bc"] :=
  ⟨by decide, (long_groups_have_few_pages ["a", "b", "c"] [50, 60, 1] 20 1 rfl (by decide)
    (by decide) (Run.scripted []) {}).2 (by decide), by decide +kernel⟩

/-! ### Empty groups -/

/-- Only empty texts join to the empty one. -/
theorem join_eq_empty_iff (pieces : List String) :
    Text.join "" pieces = "" ↔ ∀ piece ∈ pieces, piece = "" := by
  induction pieces with
  | nil => simp [Text.join]
  | cons piece rest ih =>
    cases rest with
    | nil => simp [Text.join]
    | cons next rest => simp [Text.join, ih]

/-- The text of an interval of pages with texts is empty only if the interval is. -/
theorem intervalText_eq_empty_iff {I : Nat × Nat} (htexts : ∀ text ∈ texts, text ≠ "")
    (hordered : I.1 ≤ I.2) (hend : I.2 ≤ texts.length) :
    intervalText texts I = "" ↔ I.1 = I.2 := by
  rw [intervalText, join_eq_empty_iff]
  constructor
  · intro hall
    have hnil : (texts.take I.2).drop I.1 = [] := by
      refine eq_nil_iff_forall_not_mem.mpr fun text htext => ?_
      exact htexts text (mem_of_mem_take (mem_of_mem_drop htext)) (hall text htext)
    rw [drop_eq_nil_iff, length_take] at hnil
    omega
  · intro h
    rw [h, drop_eq_nil_of_le (by rw [length_take]; omega)]
    exact forall_mem_nil _

/-- **Only the first** of the intervals that cover a document can be empty. -/
theorem Covers.lt_of_mem_tail {low n : Nat} {found : List (Nat × Nat)} (hoverlap : 0 ≤ overlap)
    (h : Covers overlap low n found) : (∀ I ∈ found, I.2 ≤ n) ∧ ∀ I ∈ found.tail, I.1 < I.2 := by
  induction found generalizing low with
  | nil => cases h.first
  | cons I rest ih =>
    obtain ⟨hfirst, hlast, hordered, hnext⟩ := h
    cases rest with
    | nil =>
      cases hlast
      exact ⟨forall_mem_singleton.mpr le_rfl, forall_mem_nil _⟩
    | cons J rest =>
      obtain ⟨⟨hlt, hstart⟩, hnext⟩ := isChain_cons_cons.mp hnext
      rw [getLast?_cons_cons] at hlast
      obtain ⟨hends, htail⟩ := ih ⟨rfl, hlast, (forall_mem_cons.mp hordered).2, hnext⟩
      have hJ := hends J (.head _)
      exact ⟨forall_mem_cons.mpr ⟨by omega, hends⟩, forall_mem_cons.mpr ⟨by omega, htail⟩⟩

/-- The first group is closed before the first page if this is too long. -/
theorem head_intervals (hoverlap : 0 ≤ overlap) (limit n : Int) (rest : List Int) :
    ∃ b found, intervals limit overlap (n :: rest) = (0, b) :: found ∧ (b = 0 ↔ limit < n) := by
  rw [intervals, intervalsFrom, Int.zero_add, Nat.zero_add]
  by_cases hlong : limit < n
  · rw [if_pos hlong]
    exact ⟨0, _, rfl, by omega⟩
  · obtain ⟨hcovers, hends⟩ := covers_intervalsFrom hoverlap limit (n :: rest) rest 1 0 n
      (by omega) (by omega)
    rw [if_neg hlong]
    cases hfound : intervalsFrom limit overlap (n :: rest) rest 1 0 n with
    | nil =>
      rw [hfound] at hcovers
      cases hcovers.first
    | cons I found =>
      rw [hfound] at hcovers hends
      obtain ⟨a, b⟩ := I
      cases hcovers.first
      have := hends _ (.head _)
      exact ⟨b, found, rfl, by omega⟩

/-- The first page is **too long**: groups have to be made, and the first is closed before it. -/
def StartsTooLong (lengths : List Int) (greatest : Int) : Prop :=
  greatest < total lengths ∧ ∃ limit n, groupLimit (total lengths) greatest = .ok limit ∧
    lengths.head? = some n ∧ limit < n

/-- Of some groups **only the first can be empty**, and it is if the first page is too long. -/
def OnlyFirstEmpty (lengths : List Int) (greatest : Int) (found : List String) : Prop :=
  ∃ first rest, found = first :: rest ∧ "" ∉ rest ∧ (first = "" ↔ StartsTooLong lengths greatest)

/-- Groups that are made have this form. -/
theorem onlyFirstEmpty_of_returns (hlengths : lengths.length = texts.length) (hne : texts ≠ [])
    (htexts : ∀ text ∈ texts, text ≠ "") (hgreatest : 0 < greatest) (hoverlap : 0 ≤ overlap)
    {session : Session} {l l' : Ledger} {found : List String}
    (h : (groups texts lengths greatest overlap).Returns session l found l') :
    OnlyFirstEmpty lengths greatest found := by
  have hrule : greatest < total lengths → ∃ limit, groupLimit (total lengths) greatest = .ok limit ∧
      groupLimit (total lengths) greatest = .ok limit := by
    intro htotal
    cases hlimit : groupLimit (total lengths) greatest with
    | ok limit => exact ⟨limit, rfl, rfl⟩
    | error why =>
      rw [groups, if_neg (not_le.mpr htotal), hlimit] at h
      cases h
  obtain ⟨intervals, l₁, hreturns, hcovers, hfound⟩ :=
    exists_returns_groupsBy hlengths hgreatest hoverlap hrule session l
  obtain ⟨rfl, -⟩ := h.unique hreturns
  obtain ⟨hends, htail⟩ := hcovers.lt_of_mem_tail hoverlap
  have hempty : ∀ I ∈ intervals, (intervalText texts I = "" ↔ I.1 = I.2) := fun I hI =>
    intervalText_eq_empty_iff htexts (hcovers.ordered I hI) (hends I hI)
  obtain ⟨I, rest, rfl, hfirst⟩ : ∃ I rest, intervals = I :: rest ∧
      (I.1 = I.2 ↔ StartsTooLong lengths greatest) := by
    rcases hfound with ⟨hle, rfl⟩ | ⟨hlt, limit, hlimit, rfl⟩
    · refine ⟨_, [], rfl, fun h => ?_, fun h => absurd h.1 (not_lt.mpr hle)⟩
      exact absurd (eq_nil_of_length_eq_zero h.symm) hne
    · cases lengths with
      | nil => exact absurd hlt (not_lt.mpr hgreatest.le)
      | cons n lengths =>
        obtain ⟨b, rest, hhead, hb⟩ := head_intervals hoverlap limit n lengths
        refine ⟨(0, b), rest, hhead, ?_⟩
        rw [eq_comm, hb, StartsTooLong, hlimit]
        simp [hlt]
  refine ⟨_, _, rfl, fun hmem => ?_, (hempty I (.head _)).trans hfirst⟩
  obtain ⟨J, hJ, hJempty⟩ := mem_map.mp hmem
  exact absurd ((hempty J (mem_cons_of_mem I hJ)).mp hJempty) (htail J hJ).ne

end DocTree.Page

namespace DocTree.Contents

open Page Run

/-- The lengths of the pages of an excerpt, as they are counted for its groups. -/
def pageLengths (counter : TokenCounter) (model : Value) (e : Excerpt) : List Int :=
  e.texts.map fun text => counter.ofText (!model.isNull) text

/-- Groups are made and counted. -/
theorem groupTexts_eq (counter : TokenCounter) (model : Value) (e : Excerpt) :
    groupTexts counter model e = groups e.texts (pageLengths counter model e) >>= fun found =>
      Run.info (.str ("len(group_texts): " ++ Decimal.natText found.length)) >>= fun _ =>
        pure found := by
  have hlengths : (e.texts.mapM fun text => do
      return ((← counter.count model (.str text)) : Int)) =
        (pure (pageLengths counter model e) : Run (List Int)) := by
    simp only [TokenCounter.count_str, lift_ok_bind]
    exact List.mapM_pure
  rw [groupTexts, hlengths, pure_bind]

/-- **Only the first group can be empty**, and it is if the first page alone is too long. A table is
then begun with the empty text. -/
theorem only_first_group_can_be_empty (session : Session) (l l' : Ledger) :
    (∀ texts lengths greatest overlap found, lengths.length = texts.length → texts ≠ [] →
      (∀ text ∈ texts, text ≠ "") → 0 < greatest → 0 ≤ overlap →
      (groups texts lengths greatest overlap).Returns session l found l' →
      OnlyFirstEmpty lengths greatest found) ∧
    ∀ counter model e made, e.pages ≠ [] →
      (fromPages counter model e).Returns session l made l' →
      ∃ first rest l₁ start l₂,
        (groupTexts counter model e).Returns session l (first :: rest) l₁ ∧
        (generate model (.str first)).Returns session l₁ start l₂ ∧
        OnlyFirstEmpty (pageLengths counter model e) greatestLength (first :: rest) := by
  refine ⟨fun texts lengths greatest overlap found hlengths hne htexts hgreatest hoverlap =>
    onlyFirstEmpty_of_returns hlengths hne htexts hgreatest hoverlap,
    fun counter model e made hpages h => ?_⟩
  obtain ⟨found, l₁, hfound, h⟩ := returns_bind_iff.mp h
  have hgroups := hfound
  rw [groupTexts_eq] at hgroups
  obtain ⟨found', l₂, hgroups, hpure⟩ := returns_bind_iff.mp hgroups
  obtain ⟨-, l₃, -, hpure⟩ := returns_bind_iff.mp hpure
  obtain ⟨rfl, -⟩ := returns_pure_iff.mp hpure
  have htexts : ∀ text ∈ e.texts, text ≠ "" := by
    intro text htext
    obtain ⟨page, -, rfl⟩ := List.mem_map.mp htext
    simp [Excerpt.labelled, Page.labelled]
  have honly := onlyFirstEmpty_of_returns (List.length_map _)
    (by simpa [Excerpt.texts, Excerpt.numbered] using hpages) htexts (by decide) zero_le_one hgroups
  obtain ⟨first, rest, rfl, hparts⟩ := honly
  obtain ⟨start, l₄, hstart, -⟩ := returns_bind_iff.mp h
  exact ⟨first, rest, l₁, start, l₄, hfound, hstart, first, rest, rfl, hparts⟩

def longText (n : Nat) : String := String.ofList (List.replicate n 'x')

/-- A long text. -/
theorem length_longText (n : Nat) : (longText n).length = n := by simp [longText]

/-- Three pages of nine thousand characters, which are too long for one group. -/
def longPages : Excerpt where
  pages := [⟨longText 9000, 9000⟩, ⟨longText 9000, 9000⟩, ⟨longText 9000, 9000⟩]

/-- A session in which the model finds no sections. -/
def noSections : Session where
  model := fun _ => .answer (.str "[]") (.str "stop")
  nesting := 1

/-- The lengths of the long pages. -/
theorem pageLengths_longPages :
    pageLengths .characters (.str "m") longPages = [9040, 9040, 9040] := by
  have hlabels : (Page.label 1).length = 18 ∧ (Page.label 2).length = 18 ∧
      (Page.label 3).length = 18 := by decide +kernel
  have hline : "\n".length = 1 := rfl
  simp [pageLengths, longPages, Excerpt.texts, Excerpt.numbered, Excerpt.labelled, Page.labelled,
    TokenCounter.ofText, hlabels, length_longText, hline]

/-- Where their groups are closed. -/
theorem groupLimit_longPages : groupLimit 27120 greatestLength = .ok 16780 := by decide +kernel

/-- There are no sections. -/
theorem exists_returns_finished (prompt : String) (l : Ledger) :
    ∃ l', (Ask.withFinish (.str "m") prompt >>= finished).Returns noSections l (.list []) l' := by
  have hextract : Reply.extract 1 (.str "[]") = .list [] := by decide +kernel
  have hreply : ∃ l', (Ask.withFinish (.str "m") prompt).Returns noSections l
      (.str "[]", .finished) l' := ⟨_, rfl⟩
  obtain ⟨l', hreply⟩ := hreply
  refine ⟨l', hreply.bind ?_⟩
  change (Except.ok (Reply.extract 1 (.str "[]")), l') = _
  rw [hextract]

/-- Each of the pages closes the group before it, and nothing is found in any group. -/
theorem exists_returns_fromPages_longPages : ∃ l',
    (fromPages .characters (.str "m") longPages).Returns noSections {} (.list []) l' := by
  have hgenerate (text : String) (l : Ledger) :
      ∃ l', (generate (.str "m") (.str text)).Returns noSections l (.list []) l' :=
    exists_returns_bind rfl (exists_returns_bind rfl (exists_returns_finished _ _))
  have hmore (text : String) (l : Ledger) :
      ∃ l', (generateOn (.str "m") (.list []) (.str text)).Returns noSections l (.list []) l' :=
    exists_returns_bind rfl (exists_returns_bind rfl (exists_returns_finished _ _))
  have hgroups : ∃ l, (groupTexts .characters (.str "m") longPages).Returns noSections {}
      ([(0, 1), (0, 2), (1, 3)].map (intervalText longPages.texts)) l := by
    rw [groupTexts_eq, pageLengths_longPages]
    exact exists_returns_bind (Returns.bind (returns_lift groupLimit_longPages) rfl) ⟨_, rfl⟩
  obtain ⟨l₁, hgroups⟩ := hgroups
  obtain ⟨l₂, hfirst⟩ := hgenerate (intervalText longPages.texts (0, 1)) l₁
  obtain ⟨l₃, hsecond⟩ := hmore (intervalText longPages.texts (0, 2)) l₂
  obtain ⟨l₄, hthird⟩ := hmore (intervalText longPages.texts (1, 3)) l₃
  have hfold : (([(0, 2), (1, 3)].map (intervalText longPages.texts)).foldlM
      (fun entries text => do extend entries (← generateOn (.str "m") entries (.str text)))
      (.list [])).Returns noSections l₂ (.list []) l₄ :=
    Returns.bind (hsecond.bind rfl) (Returns.bind (hthird.bind rfl) rfl)
  exact ⟨_, hgroups.bind (hfirst.bind (hfold.bind rfl))⟩

/-- **Three pages that are too long together**: no group is empty, and a table is begun with the
first. -/
theorem long_pages_fill_groups :
    greatestLength < total (pageLengths .characters (.str "m") longPages) ∧
      ∃ first rest l₁ start l₂,
        (groupTexts .characters (.str "m") longPages).Returns noSections {} (first :: rest) l₁ ∧
        (generate (.str "m") (.str first)).Returns noSections l₁ start l₂ ∧
        first ≠ "" ∧ "" ∉ rest := by
  obtain ⟨l', hrun⟩ := exists_returns_fromPages_longPages
  obtain ⟨first, rest, l₁, start, l₂, hgroups, hstart, _, _, heq, hrest, hfirst⟩ :=
    (only_first_group_can_be_empty noSections {} l').2 _ _ _ _ (by decide) hrun
  cases heq
  rw [pageLengths_longPages] at hfirst ⊢
  refine ⟨by decide, first, rest, l₁, start, l₂, hgroups, hstart, fun h => ?_, hrest⟩
  obtain ⟨-, limit, n, hlimit, ⟨⟩, hlt⟩ := hfirst.mp h
  cases groupLimit_longPages.symm.trans hlimit
  exact absurd hlt (by decide)

/-- The first group is **empty** before a page that is too long. -/
theorem long_page_follows_empty_group :
    ∃ l', (groups ["a"] [30] 20 1).Returns (scripted []) {} ["", "a"] l' :=
  ⟨_, returns_of_outcome (by decide +kernel)⟩

end DocTree.Contents
