import DocTree.Contents.Offset
import DocTree.Proofs.Value
import Mathlib.Data.List.Induction
import Mathlib.Data.List.Nodup

/-!
# The offset of printed and physical pages is recovered

If all physical pages of a reply are the printed ones moved by one offset, that offset wins the
vote, also when titles repeat: a candidate above it has fewer votes, and one below it gets its first
vote later.
-/

namespace DocTree.Contents

open Value List

variable {start : Int} {entries : List Value} {p : Value}

/-! ### The table of votes -/

/-- Counting a vote among candidates without repetition. -/
theorem countVote_map (v : Int) (count : Int → Nat) (candidates : List Int)
    (hnodup : candidates.Nodup) :
    countVote (.int v) (candidates.map fun c => (.int c, count c)) =
      (candidates.map fun c => (.int c, if c = v then count c + 1 else count c)) ++
        if v ∈ candidates then [] else [(.int v, 1)] := by
  induction candidates with
  | nil => simp [countVote]
  | cons c rest ih =>
    obtain ⟨hc, hrest⟩ := nodup_cons.mp hnodup
    by_cases hcv : c = v
    · subst hcv
      have hsame : (rest.map fun d => ((.int d : Value), if d = c then count d + 1 else count d)) =
          rest.map fun d => (.int d, count d) := by
        refine map_congr_left fun d hd => ?_
        rw [if_neg (ne_of_mem_of_not_mem hd hc)]
      simp [countVote, hsame]
    · have hvc : v ≠ c := fun h => hcv h.symm
      simp [countVote, hcv, hvc, ih hrest]

/-- One more vote adds its candidate at the end, unless there is one already. -/
theorem eraseDups_concat (votes : List Int) (v : Int) :
    (votes ++ [v]).eraseDups = votes.eraseDups ++ if v ∈ votes then [] else [v] := by
  rw [eraseDups_append]
  by_cases hv : v ∈ votes
  · simp [List.removeAll, hv]
  · simp [List.removeAll, hv, eraseDups_cons]

/-- Candidates are listed once. -/
theorem nodup_eraseDups (votes : List Int) : votes.eraseDups.Nodup := by
  induction votes using List.reverseRecOn with
  | nil => exact nodup_nil
  | append_singleton votes v ih =>
    rw [eraseDups_concat]
    by_cases hv : v ∈ votes
    · simpa [hv] using ih
    · rw [if_neg hv, nodup_append]
      refine ⟨ih, nodup_singleton v, ?_⟩
      intro c hc d hd hcd
      obtain rfl := mem_singleton.mp hd
      exact hv (hcd ▸ mem_eraseDups.mp hc)

/-- **The table of votes** lists candidates in the order of first votes, with their numbers. -/
theorem foldl_countVote (votes : List Int) :
    (votes.map Value.int).foldl (fun table vote => countVote vote table) [] =
      votes.eraseDups.map fun c => (.int c, votes.count c) := by
  induction votes using List.reverseRecOn with
  | nil => rfl
  | append_singleton votes v ih =>
    rw [map_append, foldl_append, ih, map_singleton, foldl_cons, foldl_nil,
      countVote_map v _ _ (nodup_eraseDups votes), eraseDups_concat, map_append]
    congr 1
    · refine map_congr_left fun c _ => ?_
      by_cases hcv : c = v
      · simp [hcv]
      · simp [hcv, count_append, Ne.symm hcv]
    · by_cases hv : v ∈ votes
      · simp [hv]
      · simp [hv, count_append, count_eq_zero.mpr hv]

/-- The winner is a candidate. -/
theorem winner?_mem {table : List (Value × Nat)} {c : Value × Nat} (h : winner? table = some c) :
    c ∈ table := by
  induction table generalizing c with
  | nil => cases h
  | cons d rest ih =>
    rw [winner?] at h
    split at h
    · cases h
      exact .head _
    · rename_i e he
      split at h
      · cases h
        exact .tail _ (ih he)
      · cases h
        exact .head _

/-- A candidate with more votes than those before and not fewer than those after wins. -/
theorem winner?_append_cons {before after : List (Value × Nat)} {c : Value × Nat}
    (hbefore : ∀ d ∈ before, d.2 < c.2) (hafter : ∀ d ∈ after, d.2 ≤ c.2) :
    winner? (before ++ c :: after) = some c := by
  induction before with
  | nil =>
    rw [nil_append, winner?]
    split
    · rfl
    · rename_i d hd
      rw [if_neg (Nat.not_lt.mpr (hafter d (winner?_mem hd)))]
  | cons d before ih =>
    rw [cons_append, winner?, ih fun e he => hbefore e (.tail _ he)]
    exact if_pos (hbefore d (.head _))

/-! ### Titles and pages -/

structure TitledPage where
  title : String
  page : Int
deriving DecidableEq

/-- The same title, `k` pages later. -/
def TitledPage.moved (k : Int) (t : TitledPage) : TitledPage := { t with page := t.page + k }

/-- An entry **prints** a title with a page number. -/
def Prints (entry : Value) (t : TitledPage) : Prop :=
  entry.field? "title" = some (.str t.title) ∧ entry.intField? "page" = some t.page

/-- An entry **places** a title on a physical page. -/
def Places (entry : Value) (t : TitledPage) : Prop :=
  entry.field? "title" = some (.str t.title) ∧ entry.intField? "physical_index" = some t.page

/-- A pair of pages **votes** for a difference. -/
def VotesFor (pair : Value) (d : Int) : Prop := vote? pair = .ok (some (.int d))

/-- The votes of a placed title: one for every printed entry with that title. -/
def votesOf (toc : List TitledPage) (placed : TitledPage) : List Int :=
  (toc.filter fun t => t.title = placed.title).map fun t => placed.page - t.page

def votes (toc placed : List TitledPage) : List Int := placed.flatMap (votesOf toc)

/-- Entries with different titles are no pair. -/
theorem pair?_of_title_ne {q : Value} {t f : TitledPage} (hq : Prints q t) (hp : Places p f)
    (hne : t.title ≠ f.title) : pair? (.int start) q p = .ok none := by
  have hf : f.title ≠ t.title := fun h => hne h.symm
  rw [pair?, lookup_of_field? hp.1, lookup_of_field? hq.1]
  simp [bind, Except.bind, pure, Except.pure, hf]

/-- Entries with equal titles are a pair, which votes for the difference of their pages. -/
theorem pair?_of_title_eq {q : Value} {t f : TitledPage} (hq : Prints q t) (hp : Places p f)
    (heq : t.title = f.title) (hstart : start ≤ f.page) :
    ∃ pair, pair? (.int start) q p = .ok (some pair) ∧ VotesFor pair (f.page - t.page) := by
  obtain ⟨page, hpage, hint⟩ := intField?_eq_some_iff.mp hp.2
  obtain ⟨number, hnumber, hnint⟩ := intField?_eq_some_iff.mp hq.2
  have hatMost : (Value.int start).atMost (.int f.page) = .ok true := by
    rw [atMost_of_int? rfl rfl, decide_eq_true hstart]
  refine ⟨.object [("title", .str f.title), ("page", number), ("physical_index", page)], ?_, ?_⟩
  · rw [pair?, lookup_of_field? hp.1, lookup_of_field? hq.1]
    simp [bind, Except.bind, pure, Except.pure, heq, lookup_of_field? hpage,
      lookup_of_field? hnumber, isNull_of_int? hint, toInteger_of_int? hint,
      hatMost]
  · simp [VotesFor, vote?, Value.field, Fields.get?, bind, Except.bind,
      sub_of_int? hint hnint]

/-- The votes of one placed title. -/
theorem exists_filterMapM_pair? {toc : List TitledPage} {f : TitledPage}
    (hentries : Forall₂ Prints entries toc) (hp : Places p f) (hstart : start ≤ f.page) :
    ∃ found, entries.filterMapM (fun q => pair? (.int start) q p) = .ok found ∧
      Forall₂ VotesFor found (votesOf toc f) := by
  induction hentries with
  | nil => exact ⟨[], rfl, .nil⟩
  | @cons q t entries toc hq _ ih =>
    obtain ⟨found, hfound, hvotes⟩ := ih
    by_cases heq : t.title = f.title
    · obtain ⟨pair, hpair, hvote⟩ := pair?_of_title_eq hq hp heq hstart
      refine ⟨pair :: found, ?_, ?_⟩
      · rw [filterMapM_cons, hpair, hfound]
        rfl
      · simp only [votesOf, heq, decide_true, filter_cons_of_pos, map_cons]
        exact .cons hvote hvotes
    · refine ⟨found, ?_, ?_⟩
      · rw [filterMapM_cons, pair?_of_title_ne hq hp heq]
        exact hfound
      · simpa [votesOf, heq] using hvotes

/-- All pairs, in the order of the placed titles. -/
theorem exists_pairs {reply : List Value} {toc placed : List TitledPage}
    (hentries : Forall₂ Prints entries toc) (hreply : Forall₂ Places reply placed)
    (hstart : ∀ f ∈ placed, start ≤ f.page) :
    ∃ found, pairs (.list entries) (.list reply) (.int start) = .ok found ∧
      Forall₂ VotesFor found (votes toc placed) := by
  have hlists : ∃ lists : List (List Value),
      reply.mapM (fun p => entries.filterMapM fun q => pair? (.int start) q p) = .ok lists ∧
        Forall₂ VotesFor lists.flatten (votes toc placed) := by
    induction hreply with
    | nil => exact ⟨[], rfl, .nil⟩
    | @cons p f reply placed hp _ ih =>
      obtain ⟨lists, hlists, hvotes⟩ := ih fun g hg => hstart g (.tail _ hg)
      obtain ⟨found, hfound, hvote⟩ :=
        exists_filterMapM_pair? hentries hp (hstart f (.head _))
      refine ⟨found :: lists, ?_, rel_append hvote hvotes⟩
      rw [mapM_cons, hfound, hlists]
      rfl
  obtain ⟨lists, hlists, hvotes⟩ := hlists
  refine ⟨lists.flatten, ?_, hvotes⟩
  exact bind_ok rfl (bind_ok hlists rfl)

/-- The offset is the winner of the votes. -/
theorem offset_of_votesFor {found : List Value} {ds : List Int}
    (hfound : Forall₂ VotesFor found ds) :
    offset (.list found) =
      .ok (.ofOption
        ((winner? (ds.eraseDups.map fun c => (.int c, ds.count c))).map Prod.fst)) := by
  have hvotes : found.filterMapM vote? = .ok (ds.map .int) := by
    induction hfound with
    | nil => rfl
    | cons hvote _ ih =>
      rw [filterMapM_cons, hvote, ih]
      rfl
  refine bind_ok rfl (bind_ok hvotes ?_)
  rw [foldl_countVote]
  rfl

/-! ### Counting -/

/-- A candidate gets **one vote from every placed title** that is printed on its page moved back. -/
theorem count_votes {toc : List TitledPage} (hnodup : toc.Nodup) (placed : List TitledPage)
    (d : Int) :
    (votes toc placed).count d = placed.countP fun f => f.moved (-d) ∈ toc := by
  have hblock : ∀ f : TitledPage,
      (votesOf toc f).count d = if f.moved (-d) ∈ toc then 1 else 0 := by
    intro f
    have hcount : (votesOf toc f).count d = toc.count (f.moved (-d)) := by
      rw [votesOf, count_eq_countP, countP_map, countP_filter, count_eq_countP]
      refine countP_congr fun t _ => ?_
      obtain ⟨title, page⟩ := t
      simp only [Function.comp, TitledPage.moved, Bool.and_eq_true, beq_iff_eq, decide_eq_true_eq,
        TitledPage.mk.injEq]
      constructor
      · rintro ⟨h, rfl⟩
        exact ⟨rfl, by omega⟩
      · rintro ⟨rfl, h⟩
        exact ⟨by omega, rfl⟩
    rw [hcount, hnodup.count]
  induction placed with
  | nil => rfl
  | cons f placed ih =>
    rw [votes, flatMap_cons, count_append, hblock, countP_cons, ← ih, Nat.add_comm]
    simp [votes]

/-! ### The true offset -/

/-- Moving back. -/
@[simp] theorem TitledPage.moved_moved_neg (k : Int) (t : TitledPage) :
    (t.moved k).moved (-k) = t := by
  obtain ⟨title, page⟩ := t
  simp only [moved, TitledPage.mk.injEq, true_and]
  omega

/-- A **consistent placement**: the printed titles stand in the order of their pages, and those up
to a page `bound` are placed, in any order, `k` pages later than printed. -/
structure Placement (toc placed : List TitledPage) (k bound : Int) : Prop where
  sorted : toc.Pairwise fun a b => a.page ≤ b.page
  distinct : toc.Nodup
  exists_le : ∃ t ∈ toc, t.page ≤ bound
  perm : placed.Perm ((toc.filter fun t => t.page ≤ bound).map (·.moved k))

section

variable {toc placed : List TitledPage} {k bound : Int}

/-- What is placed. -/
theorem Placement.mem_placed_iff (h : Placement toc placed k bound) {f : TitledPage} :
    f ∈ placed ↔ ∃ t ∈ toc, t.page ≤ bound ∧ t.moved k = f := by
  simp [h.perm.mem_iff, and_assoc]

/-- Every placed title votes for the true offset. -/
theorem Placement.count_votes_self (h : Placement toc placed k bound) :
    (votes toc placed).count k = placed.length := by
  rw [count_votes h.distinct, countP_eq_length]
  intro f hf
  obtain ⟨t, ht, -, rfl⟩ := h.mem_placed_iff.mp hf
  simpa using ht

/-- No offset has more votes than there are places. -/
theorem Placement.count_votes_le (h : Placement toc placed k bound) (d : Int) :
    (votes toc placed).count d ≤ placed.length := by
  rw [count_votes h.distinct]
  exact countP_le_length

/-- A greater candidate misses the vote of the first printed title. -/
theorem Placement.count_votes_lt (h : Placement toc placed k bound) {d : Int} (hd : k < d) :
    (votes toc placed).count d < placed.length := by
  refine Nat.lt_of_le_of_ne (h.count_votes_le d) fun heq => ?_
  rw [count_votes h.distinct, countP_eq_length] at heq
  obtain ⟨t, ht, htb⟩ := h.exists_le
  cases toc with
  | nil => cases ht
  | cons first toc =>
    have hfirst : ∀ u ∈ first :: toc, first.page ≤ u.page := by
      intro u hu
      rcases mem_cons.mp hu with rfl | hu
      · exact Int.le_refl _
      · exact (pairwise_cons.mp h.sorted).1 u hu
    have hplace : first.moved k ∈ placed :=
      h.mem_placed_iff.mpr ⟨first, .head _, Int.le_trans (hfirst t ht) htb, rfl⟩
    have hback := hfirst _ (of_decide_eq_true (heq _ hplace))
    simp only [TitledPage.moved] at hback
    omega

/-- The votes before the first one for the true offset are for greater candidates. -/
theorem Placement.exists_votes_eq (h : Placement toc placed k bound) :
    ∃ early late, votes toc placed = early ++ k :: late ∧ ∀ d ∈ early, k < d := by
  obtain ⟨f, rest, rfl⟩ : ∃ f rest, placed = f :: rest := by
    obtain ⟨t, ht, htb⟩ := h.exists_le
    exact exists_cons_of_ne_nil
      (ne_nil_of_mem (h.mem_placed_iff.mpr ⟨t, ht, htb, rfl⟩))
  obtain ⟨t, ht, -, rfl⟩ := h.mem_placed_iff.mp (.head _)
  obtain ⟨before, after, rfl⟩ := append_of_mem ht
  refine ⟨votesOf before (t.moved k),
    votesOf after (t.moved k) ++ votes (before ++ t :: after) rest, ?_, ?_⟩
  · have hself : (t.moved k).page - t.page = k := by
      simp only [TitledPage.moved]
      omega
    simp [votes, votesOf, filter_append, show (t.moved k).title = t.title from rfl, hself]
  · intro d hd
    obtain ⟨a, ha, rfl⟩ := mem_map.mp hd
    obtain ⟨ha, htitle⟩ := mem_filter.mp ha
    have hle : a.page ≤ t.page :=
      (pairwise_append.mp h.sorted).2.2 a ha t (.head _)
    have hne : a ≠ t := (nodup_append.mp h.distinct).2.2 a ha t (.head _)
    have hpage : a.page ≠ t.page := by
      intro hpage
      apply hne
      have htitle : a.title = t.title := of_decide_eq_true htitle
      cases a
      cases t
      exact congrArg₂ TitledPage.mk htitle hpage
    simp only [TitledPage.moved]
    omega

/-- **The true offset wins.** A greater candidate has fewer votes; a smaller one comes later. -/
theorem Placement.winner?_votes (h : Placement toc placed k bound) :
    winner? ((votes toc placed).eraseDups.map fun c => (.int c, (votes toc placed).count c)) =
      some (.int k, placed.length) := by
  obtain ⟨early, late, hvotes, hearly⟩ := h.exists_votes_eq
  have hnot : k ∉ early := fun hk => Int.lt_irrefl k (hearly k hk)
  have hcandidates : (votes toc placed).eraseDups =
      early.eraseDups ++ k :: ((late.removeAll early).filter fun d => !d == k).eraseDups := by
    rw [hvotes, eraseDups_append, List.removeAll,
      filter_cons_of_pos (by simpa using hnot), eraseDups_cons]
    rfl
  rw [hcandidates, map_append, map_cons, h.count_votes_self]
  refine winner?_append_cons ?_ ?_
  · intro c hc
    obtain ⟨d, hd, rfl⟩ := mem_map.mp hc
    exact h.count_votes_lt (hearly d (mem_eraseDups.mp hd))
  · intro c hc
    obtain ⟨d, -, rfl⟩ := mem_map.mp hc
    exact h.count_votes_le d

end

/-! ### Physical pages -/

/-- An entry **renumbered** by an offset: its physical page stands in place of the printed one, and
everything else is as before. -/
structure Renumbered (k : Int) (before after : Value) : Prop where
  physical : ∃ p, before.intField? "page" = some p ∧
    after.field? "physical_index" = some (.int (p + k))
  printed : after.field? "page" = none
  others : ∀ key, key ≠ "physical_index" → key ≠ "page" → after.field? key = before.field? key

/-- The offset is applied to an entry. -/
theorem exists_applyOffsetTo {entry : Value} {t : TitledPage} (h : Prints entry t) (k : Int) :
    ∃ after, applyOffsetTo (.int k) entry = .ok after ∧ Renumbered k entry after := by
  obtain ⟨page, hpage, hint⟩ := intField?_eq_some_iff.mp h.2
  obtain ⟨fields, rfl, hget⟩ := exists_object_of_field? hpage
  have hkept : ((Fields.set fields "physical_index" (.int (t.page + k))).has "page") = true := by
    rw [Fields.has, Fields.get?_set_of_ne _ _ (by decide), hget]
    rfl
  refine ⟨.object ((Fields.set fields "physical_index" (.int (t.page + k))).erase "page"), ?_, ?_⟩
  · simp [applyOffsetTo, lookup_of_field? hpage, Value.isInt, hint, Value.setField,
      add_of_int? hint (show (Value.int k).int? = some k from rfl), Value.removeField, hkept,
      bind, Except.bind]
  · refine ⟨⟨t.page, h.2, ?_⟩, ?_, ?_⟩
    · rw [field?_object, Fields.get?_erase_of_ne _ (by decide), Fields.get?_set_self]
    · exact Fields.get?_erase_self _ _
    · intro key hphysical hprinted
      rw [field?_object, field?_object, Fields.get?_erase_of_ne _ (Ne.symm hprinted),
        Fields.get?_set_of_ne _ _ (Ne.symm hphysical)]

/-- Every entry that prints a page is renumbered. -/
theorem exists_applyOffset {toc : List TitledPage} (hentries : Forall₂ Prints entries toc)
    (k : Int) :
    ∃ moved, applyOffset (.list entries) (.int k) = .ok (.list moved) ∧
      Forall₂ (Renumbered k) entries moved := by
  have hmoved : ∃ moved, entries.mapM (applyOffsetTo (.int k)) = .ok moved ∧
      Forall₂ (Renumbered k) entries moved := by
    induction hentries with
    | nil => exact ⟨[], rfl, .nil⟩
    | cons h _ ih =>
      obtain ⟨after, hafter, hrenumbered⟩ := exists_applyOffsetTo h k
      obtain ⟨moved, hmoved, hrest⟩ := ih
      refine ⟨after :: moved, ?_, .cons hrenumbered hrest⟩
      rw [mapM_cons, hafter, hmoved]
      rfl
  obtain ⟨moved, hmoved, hrenumbered⟩ := hmoved
  exact ⟨moved, bind_ok hmoved rfl, hrenumbered⟩

/-- **The offset is recovered.** If a reply places the printed titles up to some page, in any order
and all of them `k` pages later than printed, then `k` wins the vote, and every entry of the table
gets its printed page moved by `k` as its physical page. -/
theorem offset_recovered {entries reply : List Value} {toc placed : List TitledPage}
    {k bound start : Int} (hentries : Forall₂ Prints entries toc)
    (hreply : Forall₂ Places reply placed) (hplacement : Placement toc placed k bound)
    (hstart : ∀ f ∈ placed, start ≤ f.page) :
    ∃ found moved, pairs (.list entries) (.list reply) (.int start) = .ok found ∧
      offset (.list found) = .ok (.int k) ∧
      applyOffset (.list entries) (.int k) = .ok (.list moved) ∧
      Forall₂ (Renumbered k) entries moved := by
  obtain ⟨found, hpairs, hvotes⟩ := exists_pairs hentries hreply hstart
  obtain ⟨moved, hmoved, hrenumbered⟩ := exists_applyOffset hentries k
  refine ⟨found, moved, hpairs, ?_, hmoved, hrenumbered⟩
  rw [offset_of_votesFor hvotes, hplacement.winner?_votes]
  rfl

/-- A title printed twice and placed once: the true offset `-2` and the false `-4` have one vote
each. -/
theorem offset_recovered_of_tie :
    ∃ found moved,
      pairs (.list [.object [("title", .str "Notes"), ("page", .int 3)],
          .object [("title", .str "Notes"), ("page", .int 5)]])
        (.list [.object [("title", .str "Notes"), ("physical_index", .int 1)]]) (.int 1) =
          .ok found ∧
      offset (.list found) = .ok (.int (-2)) ∧
      applyOffset (.list [.object [("title", .str "Notes"), ("page", .int 3)],
          .object [("title", .str "Notes"), ("page", .int 5)]]) (.int (-2)) = .ok (.list moved) ∧
      Forall₂ (Renumbered (-2)) [.object [("title", .str "Notes"), ("page", .int 3)],
          .object [("title", .str "Notes"), ("page", .int 5)]] moved :=
  @offset_recovered _ _ [⟨"Notes", 3⟩, ⟨"Notes", 5⟩] [⟨"Notes", 1⟩] (-2) 3 1
    (.cons ⟨rfl, rfl⟩ (.cons ⟨rfl, rfl⟩ .nil)) (.cons ⟨rfl, rfl⟩ .nil)
    ⟨by decide, by decide, by decide, by decide⟩ (by decide)

end DocTree.Contents
