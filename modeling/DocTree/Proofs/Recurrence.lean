import DocTree.Proofs.Settling
import Mathlib.Data.Int.Interval
import Mathlib.Data.Set.Finite.Lattice

/-!
# When splitting comes to an end

With a model that keeps nothing in mind, the sections of a large node depend on its title and its
pages only, so finitely many nodes can come up. Splitting goes on for ever exactly if one of them
comes up again below itself.
-/

namespace DocTree.Outline

open Run List

variable {counter : TokenCounter} {settings : Settings} {pages : List Page} {session : Session}
  {v w c d r stop first page : Value} {entries rs : List Value} {l l' : Ledger}

/-! ### Nodes within a node -/

/-- Children are smaller. -/
theorem sizeOf_lt_of_mem_children (h : c ∈ children v) : sizeOf c < sizeOf v := by
  obtain ⟨fs, rfl, hget⟩ := Value.exists_object_of_field? (field?_nodes_of_mem_children h)
  have hitem := sizeOf_lt_of_mem h
  have hfield := sizeOf_lt_of_mem (mem_of_get? hget)
  simp only [Prod.mk.sizeOf_spec, Value.list.sizeOf_spec] at hfield
  simp only [Value.object.sizeOf_spec]
  omega

/-- Finitely many nodes within finitely many. -/
theorem finite_within_of_forall {items : List Value} (h : ∀ c ∈ items, {d | Within d c}.Finite) :
    {d | ∃ c ∈ items, Within d c}.Finite := by
  refine ((finite_toSet items).biUnion h).subset ?_
  rintro d ⟨c, hc, hd⟩
  exact Set.mem_biUnion hc hd

/-- There are **finitely many nodes** within a node. -/
theorem finite_within (v : Value) : {d | Within d v}.Finite :=
  ((finite_within_of_forall fun c _ => finite_within c).insert v).subset fun _ hd => hd.eq_or_below
termination_by sizeOf v
decreasing_by exact sizeOf_lt_of_mem_children ‹_›

/-- Finitely many nodes lie within a list. -/
theorem finite_withinAny (items : List Value) : {d | ∃ c ∈ items, Within d c}.Finite :=
  finite_within_of_forall fun c _ => finite_within c

/-- Children lie within. -/
theorem Within.of_mem_children (h : Within d v) (hc : c ∈ children d) :
    Within c v := by
  induction h with
  | self => exact .child hc .self
  | child hmem _ ih => exact .child hmem ih

/-! ### Pages that can be read -/

/-- The numbers of a **fixed range**, which holds all pages that can be read, from the front or from
the back. -/
def pagesUpTo (count : Nat) : Set Value :=
  {page | ∃ x : Int, page.int? = some x ∧ -count ≤ x ∧ x ≤ count}

/-- Finitely many pages. -/
theorem finite_pagesUpTo (count : Nat) : (pagesUpTo count).Finite := by
  have hints : (Value.int '' Set.Icc (-count) count).Finite := (Set.finite_Icc _ _).image _
  have hbools : (Set.range Value.bool).Finite := Set.finite_range _
  refine (hints.union hbools).subset ?_
  rintro page ⟨x, hint, hle, hge⟩
  obtain rfl | ⟨b, rfl, -⟩ := Value.int?_eq_some_iff.mp hint
  · exact .inl ⟨x, ⟨hle, hge⟩, rfl⟩
  · exact .inr ⟨b, rfl⟩

/-- Entries of a section have pages that can be read. -/
theorem reads_of_sectionEntries
    (h : (sectionEntries counter settings pages first stop).Returns session l entries
      l') :
    ∀ entry ∈ entries, ∃ page, entry.field? "physical_index" = some page ∧
      Excerpt.Reads { pages := pages } page := by
  obtain ⟨own, _, -, h₁⟩ := h.of_bind
  obtain ⟨start, _, -, h₂⟩ := h₁.of_bind
  obtain ⟨found, _, -, h₃⟩ := h₂.of_bind
  obtain ⟨model, _, -, h₄⟩ := h₃.of_bind
  obtain ⟨marked, _, hmarked, hplaced⟩ := h₄.of_bind
  exact reads_of_placed hmarked hplaced.of_lift

/-- Pages that are read are bounded. -/
theorem bounds_of_reads (h : Excerpt.Reads { pages := pages } page) :
    ∃ x, page.int? = some x ∧ -pages.length < x ∧ x ≤ pages.length := by
  obtain ⟨x, hx, hge, hle⟩ := Excerpt.reads_iff.mp h
  simp only [Excerpt.last] at hge hle
  exact ⟨x, hx, by omega, by omega⟩

/-- **The pages of a new section** can be read, but for the end of the last one. -/
theorem pages_of_withRanges (h : withRanges stop entries = .ok rs)
    (hreads : ∀ entry ∈ entries, ∃ page, entry.field? "physical_index" = some page ∧
      Excerpt.Reads { pages := pages } page) (hr : r ∈ rs) :
    ∃ start last, r.field? "start_index" = some start ∧ r.field? "end_index" = some last ∧
      start ∈ pagesUpTo pages.length ∧ (last = stop ∨ last ∈ pagesUpTo pages.length) := by
  obtain ⟨entry, hentry, last, hrange, hlast⟩ := exists_withRange_of_withRanges h hr
  obtain ⟨start, hstart, hread⟩ := hreads entry hentry
  obtain ⟨x, hx, hgt, hle⟩ := bounds_of_reads hread
  obtain ⟨hfirst, hend⟩ := field?_of_withRange hrange hstart
  refine ⟨start, last, hfirst, hend, ⟨x, hx, by omega, hle⟩, hlast.imp_right ?_⟩
  rintro ⟨next, hnext, hbefore⟩
  obtain ⟨page, hpage, hread⟩ := hreads next hnext
  obtain ⟨y, hy, hgt, hle⟩ := bounds_of_reads hread
  obtain ⟨z, hz, hyz, hzy⟩ :=
    int?_of_endBefore hbefore (Value.intField?_eq_some_iff.mpr ⟨page, hpage, hy⟩)
  exact ⟨z, hz, by omega, by omega⟩

/-! ### Nodes that come up -/

/-- The sections among which the pages up to one are divided. -/
def sectionsFor (stop : Value) (entries : List Value) : List Value :=
  match withSections (.object [("end_index", stop)]) entries with
  | .ok w => children w
  | .error _ => []

section

variable (counter settings pages session)

/-- The nodes that are **fresh** when a large node with given pages is split. -/
def fresh (first stop : Value) : Set Value :=
  {d | ∃ entries own l l',
    (sectionEntries counter settings pages first stop).Returns session l entries l' ∧
    (own = entries ∨ own = entries.tail) ∧ ∃ c ∈ sectionsFor stop own, Within d c}

/-- The pages of all nodes that can come up when a node is split. -/
def pagesFrom (v : Value) : Set Value :=
  {page | ∃ d, Within d v ∧
    (d.field? "start_index" = some page ∨ d.field? "end_index" = some page)} ∪
  pagesUpTo pages.length

/-- The nodes that **can come up** when a node is split to any depth. -/
def nodesFrom (v : Value) : Set Value :=
  {d | Within d v} ∪ ⋃ first ∈ pagesFrom pages v, ⋃ stop ∈ pagesFrom pages v,
    fresh counter settings pages session first stop

end

/-- The sections are the children. -/
theorem children_eq_sectionsFor (h : withSections v entries = .ok w)
    (hstop : v.field? "end_index" = some stop) : children w = sectionsFor stop entries := by
  have hend : (Value.object [("end_index", stop)]).field? "end_index" = v.field? "end_index" :=
    hstop.symm
  obtain ⟨w', hw', hchildren⟩ := exists_withSections_of_same_end h hend
  rw [sectionsFor, hw']
  exact hchildren.symm

/-- **Splitting a large node** goes on with fresh nodes. -/
theorem mem_fresh_of_next (hlarge : IsLarge settings pages v)
    (hnext : Next counter settings pages session v c) :
    ∃ first stop, v.field? "start_index" = some first ∧ v.field? "end_index" = some stop ∧
      c ∈ fresh counter settings pages session first stop := by
  obtain ⟨l, w, l', hw, hc⟩ := hnext
  obtain ⟨title, first, stop, entries, own, between, -, hfirst, hstop, -, hentries, hown,
    hsections⟩ := exists_entries_of_isLarge hlarge hw
  refine ⟨first, stop, hfirst, hstop, entries, own, between, l', hentries,
    eq_or_eq_tail_of_withoutOwn hown, c, ?_, .self⟩
  rw [← children_eq_sectionsFor hsections hstop]
  exact hc

/-- The pages of a fresh node can be read, or are those up to which the section of it goes. -/
theorem pages_of_mem_fresh (hd : d ∈ fresh counter settings pages session first stop)
    (hpage : d.field? "start_index" = some page ∨ d.field? "end_index" = some page) :
    page = stop ∨ page ∈ pagesUpTo pages.length := by
  obtain ⟨entries, own, l, l', hentries, hown, c, hc, hd⟩ := hd
  have hreads : ∀ entry ∈ own, ∃ page, entry.field? "physical_index" = some page ∧
      Excerpt.Reads { pages := pages } page := by
    intro entry hentry
    refine reads_of_sectionEntries hentries entry ?_
    rcases hown with rfl | rfl
    · exact hentry
    · exact mem_of_mem_tail hentry
  unfold sectionsFor at hc
  split at hc
  · rename_i w hw
    obtain ⟨stop', rs, roots, hstop, hrs, hnest, hroots⟩ := exists_roots_of_withSections hw
    cases hstop
    rw [children_of_field? hroots] at hc
    obtain ⟨r, hr, items, rfl⟩ := exists_entry_of_nest hnest hc hd
    obtain ⟨start, last, hstart, hlast, hfirst, hend⟩ := pages_of_withRanges hrs hreads hr
    rw [field?_node (.inl rfl), field?_node (.inr rfl), hstart, hlast] at hpage
    rcases hpage with hpage | hpage
    · cases hpage
      exact .inr hfirst
    · cases hpage
      exact hend
  · cases hc

/-- Finitely many sections come from one node. -/
theorem finite_fresh (h : session.model.Stateless) (first stop : Value) :
    (fresh counter settings pages session first stop).Finite := by
  by_cases hreturns : ∃ l entries l',
      (sectionEntries counter settings pages first stop).Returns session l entries l'
  · obtain ⟨l, entries, l', hentries⟩ := hreturns
    have hall := finite_withinAny (sectionsFor stop entries ++ sectionsFor stop entries.tail)
    refine hall.subset ?_
    rintro d ⟨entries', own, l₁, l₁', hentries', hown, c, hc, hd⟩
    -- Whatever happened before, there are the same entries.
    obtain ⟨l'', hsame⟩ := (steady_sectionEntries h).returns hentries l₁
    obtain rfl := (hentries'.unique hsame).1
    refine ⟨c, mem_append.mpr ?_, hd⟩
    rcases hown with rfl | rfl
    · exact .inl hc
    · exact .inr hc
  · refine Set.finite_empty.subset ?_
    rintro d ⟨entries, own, l, l', hentries, -⟩
    exact hreturns ⟨l, entries, l', hentries⟩

/-- Finitely many pages come up. -/
theorem finite_pagesFrom (pages : List Page) (v : Value) : (pagesFrom pages v).Finite := by
  refine Set.Finite.union ?_ (finite_pagesUpTo _)
  refine (((finite_within v).image fun d => (d.field? "start_index").getD .null).union
    ((finite_within v).image fun d => (d.field? "end_index").getD .null)).subset ?_
  rintro page ⟨d, hd, hpage | hpage⟩
  · exact .inl ⟨d, hd, congrArg (Option.getD · .null) hpage⟩
  · exact .inr ⟨d, hd, congrArg (Option.getD · .null) hpage⟩

/-- **Finitely many nodes** can come up. -/
theorem finite_nodesFrom (h : session.model.Stateless) (v : Value) :
    (nodesFrom counter settings pages session v).Finite := by
  refine (finite_within v).union ?_
  exact (finite_pagesFrom pages v).biUnion fun first _ =>
    (finite_pagesFrom pages v).biUnion fun stop _ => finite_fresh h first stop

/-- The pages of nodes that come up. -/
theorem mem_pagesFrom_of_mem_nodesFrom (hd : d ∈ nodesFrom counter settings pages session v)
    (hpage : d.field? "start_index" = some page ∨ d.field? "end_index" = some page) :
    page ∈ pagesFrom pages v := by
  rcases hd with hd | hd
  · exact .inl ⟨d, hd, hpage⟩
  · obtain ⟨first, hfirst, hd⟩ := Set.mem_iUnion₂.mp hd
    obtain ⟨stop, hstop, hd⟩ := Set.mem_iUnion₂.mp hd
    rcases pages_of_mem_fresh hd hpage with rfl | hpage
    · exact hstop
    · exact .inr hpage

/-- Small nodes keep their children. -/
theorem mem_children_of_next (hlarge : ¬ IsLarge settings pages v)
    (hnext : Next counter settings pages session v c) : c ∈ children v := by
  obtain ⟨l, w, l', hw, hc⟩ := hnext
  cases divided_of_splitIfLarge hw with
  | kept => exact hc
  | divided hlarge' => exact absurd hlarge' hlarge

/-- What comes next **can come up**. -/
theorem Next.mem_nodesFrom (hnext : Next counter settings pages session d c)
    (hd : d ∈ nodesFrom counter settings pages session v) :
    c ∈ nodesFrom counter settings pages session v := by
  by_cases hlarge : IsLarge settings pages d
  · obtain ⟨first, stop, hfirst, hstop, hc⟩ := mem_fresh_of_next hlarge hnext
    exact .inr (Set.mem_biUnion (mem_pagesFrom_of_mem_nodesFrom hd (.inl hfirst))
      (Set.mem_biUnion (mem_pagesFrom_of_mem_nodesFrom hd (.inr hstop)) hc))
  · have hc := mem_children_of_next hlarge hnext
    rcases hd with hd | hd
    · exact .inl (hd.of_mem_children hc)
    · obtain ⟨first, hfirst, hd⟩ := Set.mem_iUnion₂.mp hd
      obtain ⟨stop, hstop, entries, own, l, l', hentries, hown, root, hroot, hd⟩ :=
        Set.mem_iUnion₂.mp hd
      exact .inr (Set.mem_biUnion hfirst (Set.mem_biUnion hstop
        ⟨entries, own, l, l', hentries, hown, root, hroot, hd.of_mem_children hc⟩))

/-! ### Nodes that come up again -/

/-- On the way from a node to another one there is a large node, or the nodes **get smaller**. -/
theorem exists_isLarge_or_sizeOf_lt
    (h : Relation.TransGen (Next counter settings pages session) v d) :
    (∃ c, Relation.ReflTransGen (Next counter settings pages session) v c ∧
      IsLarge settings pages c ∧ Relation.TransGen (Next counter settings pages session) c d) ∨
    sizeOf d < sizeOf v := by
  induction h using Relation.TransGen.head_induction_on with
  | @single v hnext =>
    by_cases hlarge : IsLarge settings pages v
    · exact .inl ⟨v, .refl, hlarge, .single hnext⟩
    · exact .inr (sizeOf_lt_of_mem_children (mem_children_of_next hlarge hnext))
  | @head v b hnext hbd ih =>
    by_cases hlarge : IsLarge settings pages v
    · exact .inl ⟨v, .refl, hlarge, hbd.head hnext⟩
    · have hlt := sizeOf_lt_of_mem_children (mem_children_of_next hlarge hnext)
      rcases ih with ⟨c, hbc, hc, hcd⟩ | hdb
      · exact .inl ⟨c, hbc.head hnext, hc, hcd⟩
      · exact .inr (hdb.trans hlt)

/-- Without an end, a large node comes up **below itself**. -/
theorem exists_recurring_of_not_acc (h : session.model.Stateless)
    (hacc : ¬ Acc (fun c v => Next counter settings pages session v c) v) :
    ∃ d, Relation.ReflTransGen (Next counter settings pages session) v d ∧
      IsLarge settings pages d ∧ Relation.TransGen (Next counter settings pages session) d d := by
  obtain ⟨f, rfl, hf⟩ := not_acc_iff_exists_descending_chain.mp hacc
  have hmem : ∀ n, f n ∈ nodesFrom counter settings pages session (f 0) := by
    intro n
    induction n with
    | zero => exact .inl .self
    | succ n ih => exact (hf n).mem_nodesFrom ih
  obtain ⟨i, j, hij, heq⟩ :=
    Set.Finite.exists_lt_map_eq_of_forall_mem hmem (finite_nodesFrom h (f 0))
  have hreach : Relation.ReflTransGen (Next counter settings pages session) (f 0) (f i) :=
    Nat.rel_of_forall_rel_succ_of_le _ (fun n => .single (hf n)) (Nat.zero_le i)
  have hround : Relation.TransGen (Next counter settings pages session) (f i) (f j) :=
    Nat.rel_of_forall_rel_succ_of_lt _ (fun n => .single (hf n)) hij
  rw [← heq] at hround
  -- Nodes cannot get smaller all the way round.
  rcases exists_isLarge_or_sizeOf_lt hround with ⟨d, hid, hlarge, hdi⟩ | hlt
  · exact ⟨d, hreach.trans hid, hlarge, hdi.trans_left hid⟩
  · exact absurd hlt (lt_irrefl _)

/-- **When splitting settles**: with a model that keeps nothing in mind, exactly if no large section
comes up again below itself. -/
theorem split_settles_iff_nothing_recurs (counter : TokenCounter) (settings : Settings)
    (pages : List Page) (session : Session) (h : session.model.Stateless) (l : Ledger)
    (v : Value) :
    Settles counter settings pages session l v ↔
      ¬ ∃ d d', Relation.ReflTransGen (Next counter settings pages session) v d ∧
        IsLarge settings pages d ∧ Relation.TransGen (Next counter settings pages session) d d' ∧
        SameSection d d' := by
  constructor
  · rintro hsettles ⟨d, d', hreach, hlarge, hbelow, hsame⟩
    exact not_settles_of_recurs h hreach hlarge hbelow hsame hsettles
  · intro hnone
    by_cases hacc : Acc (fun c v => Next counter settings pages session v c) v
    · obtain ⟨levels, henough⟩ := exists_enough_of_acc h hacc
      exact henough.settles l
    · obtain ⟨d, hreach, hlarge, hbelow⟩ := exists_recurring_of_not_acc h hacc
      exact absurd ⟨d, d, hreach, hlarge, hbelow, rfl, rfl, rfl⟩ hnone

/-- A session with a model that replies **to the prompt alone**. -/
def repliesTo (reply : String → String) : Session where
  model := fun requests =>
    match requests.getLast?.map Request.prompt with
    | some (.str prompt) => .answer (.str (reply prompt)) (.str "stop")
    | _ => .failure "no prompt"
  nesting := 9

/-- Replies to the last request. -/
theorem stateless_repliesTo (reply : String → String) : (repliesTo reply).model.Stateless := by
  intro before before' r
  simp only [repliesTo, getLast?_concat]

/-- Whether a prompt asks for a table of contents, by the bytes with which it begins. -/
def asksForTable (prompt : String) : Bool :=
  "\n    You are".toByteArray.data.toList.isPrefixOf prompt.toByteArray.data.toList

/-- A session in which **the same table** is found in every section. -/
def sameTable (entries : List String) : Session :=
  repliesTo fun prompt => if asksForTable prompt then tableText entries else
    "\x7b\"answer\": \"yes\", \"start_begin\": \"no\"\x7d"

/-- Where a small section is found in a large one, splitting settles. -/
theorem small_section_settles :
    let session := sameTable [entryText "1" "New" "4"]
    let part := sectionOn "Part" 2 5 []
    session.model.Stateless ∧ IsLarge (atMostPages 2) fivePages part ∧
    Settles .quarter (atMostPages 2) fivePages session {} part := by
  intro session part
  have hstateless : session.model.Stateless := stateless_repliesTo _
  have houtcome : ((splitIfLarge .quarter (atMostPages 2) fivePages part).execute session {}).1 =
      .ok (sectionOn "Part" 2 4 [sectionOn "New" 4 5 []]) := by
    decide +kernel
  have hnew : ∀ {c}, Next .quarter (atMostPages 2) fivePages session part c →
      c = sectionOn "New" 4 5 [] := by
    intro c hnext
    have hc := (next_iff_mem_children hstateless (returns_of_outcome houtcome)).mp hnext
    exact mem_singleton.mp hc
  have hsmall : ¬ IsLarge (atMostPages 2) fivePages (sectionOn "New" 4 5 []) := by decide +kernel
  have hlast : ∀ {d}, Relation.ReflTransGen (Next .quarter (atMostPages 2) fivePages session)
      (sectionOn "New" 4 5 []) d → d = sectionOn "New" 4 5 [] := by
    intro d hreach
    rcases hreach.cases_head with rfl | ⟨c, hnext, -⟩
    · rfl
    · cases mem_children_of_next hsmall hnext
  refine ⟨hstateless, by decide +kernel, ?_⟩
  refine (split_settles_iff_nothing_recurs _ _ _ _ hstateless _ _).mpr ?_
  rintro ⟨d, d', hreach, hlarge, hbelow, hsame⟩
  rcases hreach.cases_head with rfl | ⟨c, hnext, hreach⟩
  · obtain ⟨c, hnext, hreach⟩ := Relation.TransGen.head'_iff.mp hbelow
    obtain rfl := hnew hnext
    obtain rfl := hlast hreach
    exact absurd hsame.title (by decide)
  · obtain rfl := hnew hnext
    obtain rfl := hlast hreach
    exact hsmall hlarge

/-- **A section may recur for ever**: a chapter is found again in itself. -/
theorem section_recurs_for_ever :
    let session := sameTable [entryText "1" "Part" "2", entryText "2" "Chapter" "2"]
    let chapter := sectionOn "Chapter" 2 5 []
    session.model.Stateless ∧
    (∀ count, Takes .quarter (atMostPages 2) fivePages session count chapter) ∧
    ∀ l, ¬ Settles .quarter (atMostPages 2) fivePages session l chapter := by
  intro session chapter
  have hstateless : session.model.Stateless := stateless_repliesTo _
  have houtcome : ((splitIfLarge .quarter (atMostPages 2) fivePages chapter).execute session {}).1 =
      .ok (sectionOn "Chapter" 2 2 [sectionOn "Part" 2 2 [], chapter]) := by
    decide +kernel
  have hnext : Next .quarter (atMostPages 2) fivePages session chapter chapter :=
    ⟨_, _, _, returns_of_outcome houtcome, by decide⟩
  have hlarge : IsLarge (atMostPages 2) fivePages chapter := by decide +kernel
  have hsame : SameSection chapter chapter := ⟨rfl, rfl, rfl⟩
  refine ⟨hstateless, ?_, fun l => ?_⟩
  · exact takes_of_recurs hstateless .refl hlarge (.single hnext) hsame
  · exact not_settles_of_recurs hstateless .refl hlarge (.single hnext) hsame

end DocTree.Outline
