import DocTree.Proofs.Braces

/-!
# Nesting by braces

A declaration lies below all that is open on its line. A line with an opening brace is taken to
leave one open, so a declaration that closes its braces on its own line stays open.
-/

namespace DocTree.Kotlin

open Code Forest List

section

variable {lines : List Line} {n m d e : Nat} {l : Line} {t : Tracker}

/-! ### The outline -/

/-- The lineage of what line `d` declares. -/
def lineageAt (lines : List Line) (d : Nat) : List Node :=
  (d :: enclosing lines d).map (nodeWithin lines lines.length)

/-- The lineages by the places of entries. -/
def lineOf (lines : List Line) (j : Nat) : List Node :=
  ((trackerAfter lines lines.length).entries[j]?.map fun e =>
    if isDeclared e.2.kind then lineageAt lines (e.2.first - 1).toNat else [e.2.alone]).getD []

/-- The lineage at the place of a declaration. -/
theorem lineOf_placeOf (h : HaveKinds lines) (hd : d ∈ declaredBefore lines lines.length) :
    lineOf lines (placeOf lines d) = lineageAt lines d := by
  rw [lineOf, (tracks_trackerAfter h le_rfl).placed d hd, Option.map_some, Option.getD_some,
    entryWithin, if_pos (isDeclared_nodeWithin h _ _), nodeWithin, Node.first, Int.add_sub_cancel,
    Int.toNat_natCast]

/-- An entry is that of a declaration, or a group of imports. -/
theorem entry_cases (h : HaveKinds lines) {j : Nat} {e : Option Nat × Node}
    (he : (trackerAfter lines lines.length).entries[j]? = some e) :
    (∃ d ∈ declaredBefore lines lines.length,
      j = placeOf lines d ∧ e = entryWithin lines lines.length d) ∨ IsGroup e := by
  have htracks := tracks_trackerAfter h le_rfl
  rcases htracks.others j e he with ⟨d, hd, rfl⟩ | hgroup
  · exact .inl ⟨d, hd, rfl, Option.some.inj (he.symm.trans (htracks.placed d hd))⟩
  · exact .inr hgroup

/-- A lineage is led to by the link of its entry. -/
theorem lineageAt_eq (h : HaveKinds lines) (hd : d ∈ declaredBefore lines lines.length) :
    lineageAt lines d = nodeWithin lines lines.length d ::
      ((enclosing lines d).head?.map (placeOf lines)).elim [] (lineOf lines) := by
  rw [lineageAt, map_cons]
  cases hhead : (enclosing lines d).head? with
  | none => rw [head?_eq_none_iff.mp hhead]; rfl
  | some p =>
    obtain ⟨⟨hlt, hp⟩, -⟩ := mem_openDeclarations_iff.mp (mem_of_head? hhead)
    have hpN := hlt.trans (mem_declaredBefore_iff.mp hd).1
    rw [Option.map_some, Option.elim_some, lineOf_placeOf h (mem_declaredBefore_iff.mpr ⟨hpN, hp⟩),
      lineageAt, ← enclosing_eq_cons hhead]

/-- The entries of the tracker are linked. -/
theorem linked_trackerAfter (h : HaveKinds lines) :
    Linked (lineOf lines) 0 (trackerAfter lines lines.length).entries := by
  rintro ⟨e, j⟩ he
  rw [mem_zipIdx_iff_getElem?] at he
  rcases entry_cases h he with ⟨d, hd, rfl, rfl⟩ | hgroup
  · rw [lineOf_placeOf h hd, lineageAt_eq h hd]
    refine ⟨fun k hk => ?_, rfl⟩
    obtain ⟨p, hhead, rfl⟩ := Option.map_eq_some_iff.mp hk
    obtain ⟨⟨hlt, hp⟩, -⟩ := mem_openDeclarations_iff.mp (mem_of_head? hhead)
    exact strictMonoOn_placeOf lines hp (mem_declaredBefore_iff.mp hd).2 hlt
  · rw [lineOf, he, Option.map_some, Option.getD_some,
      if_neg (by simp [hgroup.kind, isDeclared]), hgroup.link]
    exact ⟨fun k hk => absurd hk.symm (Option.some_ne_none k), rfl⟩

/-- The outline is made from the links. -/
theorem outlineOf_eq (lines : List Line) :
    outlineOf lines = ofLinks withChildren (trackerAfter lines lines.length).entries := by
  rw [trackerAfter, take_length]
  rfl

/-- A group of imports declares nothing. -/
theorem ofKinds_group {e : Option Nat × Node} (h : IsGroup e) (above : List Node) :
    ofKinds isDeclared (lineages above e.2) = [] := by
  rw [lineages_eq_cons, ofKinds, filter_cons_of_neg (by simp [h.kind, isDeclared]),
    filter_eq_nil_iff, lineagesOf_eq_flatMap]
  intro l hl
  obtain ⟨c, hc, hl⟩ := mem_flatMap.mp hl
  rw [lineages_eq_cons, (h.children c hc).2, lineagesOf, mem_singleton] at hl
  simp [hl, (h.children c hc).1, isDeclared]

/-- Of all that encloses a declaration, the nearest has the last place. -/
theorem exists_head?_enclosing (h : e ∈ enclosing lines d) :
    ∃ q, (enclosing lines d).head? = some q ∧ placeOf lines e ≤ placeOf lines q := by
  obtain ⟨q, rest, hq⟩ := exists_cons_of_ne_nil (ne_nil_of_mem h)
  have hsome : ∀ f ∈ q :: rest, (headAt? lines f).isSome := fun f hf =>
    (mem_openDeclarations_iff.mp (hq ▸ hf : f ∈ enclosing lines d)).1.2
  have hsorted := pairwise_openDeclarations lines d (d + 1)
  rw [← enclosing, hq, pairwise_cons] at hsorted
  rw [hq] at h ⊢
  refine ⟨q, rfl, ?_⟩
  rcases mem_cons.mp h with rfl | hrest
  · exact le_rfl
  · exact (strictMonoOn_placeOf lines (hsome e h) (hsome q (.head _))
      (hsorted.1 e hrest)).le

/-- Links lead to the nearest declaration that is open, as on a stack. -/
theorem stacked_trackerAfter (h : HaveKinds lines) :
    Stacked isDeclared 0 (trackerAfter lines lines.length).entries := by
  have hnot : ∀ {e}, IsGroup e → isDeclared e.2.kind ≠ true := fun hgroup => by
    simp [hgroup.kind, isDeclared]
  refine ⟨fun e he hkind => ?_, pairwise_iff_getElem.mpr ?_⟩
  · obtain ⟨e, j⟩ := e
    rw [mem_zipIdx_iff_getElem?] at he
    rcases entry_cases h he with ⟨d, -, -, heq⟩ | hgroup
    · rw [heq, entryWithin, isDeclared_nodeWithin h] at hkind
      exact absurd hkind.symm Bool.false_ne_true
    refine ⟨ofKinds_group hgroup, fun f hf hlink => ?_⟩
    obtain ⟨l, hl⟩ := mem_iff_getElem?.mp hf
    rcases entry_cases h hl with ⟨d, hd, -, rfl⟩ | hgroup'
    · obtain ⟨p, hp, rfl⟩ := Option.map_eq_some_iff.mp hlink
      obtain ⟨⟨hlt, hp⟩, -⟩ := mem_openDeclarations_iff.mp (mem_of_head? hp)
      have hplaced := (tracks_trackerAfter h le_rfl).placed p (mem_declaredBefore_iff.mpr
        ⟨hlt.trans (mem_declaredBefore_iff.mp hd).1, hp⟩)
      exact hnot hgroup (Option.some.inj (hplaced.symm.trans he) ▸ isDeclared_nodeWithin h _ _)
    · rw [hgroup'.link] at hlink
      cases hlink
  · intro k l hk hl hkl j hjk hlink hkind
    rw [length_zipIdx] at hk hl
    simp only [getElem_zipIdx, Nat.zero_add] at hjk hlink hkind ⊢
    obtain ⟨d, hd, rfl, heq⟩ := (entry_cases h (getElem?_eq_getElem hk)).resolve_right
      fun hgroup => hnot hgroup hkind
    obtain ⟨d', hd', rfl, heq'⟩ := (entry_cases h (getElem?_eq_getElem hl)).resolve_right
      fun hgroup => by rw [hgroup.link] at hlink; cases hlink
    rw [heq', entryWithin] at hlink
    rw [heq, entryWithin]
    obtain ⟨p, hhead, rfl⟩ := Option.map_eq_some_iff.mp hlink
    obtain ⟨⟨-, hp⟩, hopen⟩ := mem_openDeclarations_iff.mp (mem_of_head? hhead)
    have hsome := (mem_declaredBefore_iff.mp hd).2
    have hpd := (strictMonoOn_placeOf lines).lt_iff_lt hp hsome |>.mp hjk
    have hdd' := (strictMonoOn_placeOf lines).lt_iff_lt hsome (mem_declaredBefore_iff.mp hd').2
      |>.mp hkl
    -- what is open on the later line is open on the earlier one, too
    have hmem : p ∈ enclosing lines d :=
      mem_openDeclarations_iff.mpr ⟨⟨hpd, hp⟩, fun l hl => hopen l (by omega)⟩
    obtain ⟨q, hq, hle⟩ := exists_head?_enclosing hmem
    exact ⟨placeOf lines q, by rw [hq]; rfl, hle⟩

/-- **Declarations are nested by braces**: in the lineages without imports, above a declaration lies
what is still open there. -/
theorem lineages_outlineOf (h : HaveKinds lines) :
    ofKinds isDeclared (lineagesOf [] (outlineOf lines)) =
      (declaredBefore lines lines.length).map (lineageAt lines) := by
  have htracks := tracks_trackerAfter h le_rfl
  have hlinked := linked_trackerAfter h
  rw [outlineOf_eq, hlinked.lineagesOf_ofLinks, (stacked_trackerAfter h).ofKinds_assemble hlinked]
  have hown : ∀ e ∈ (trackerAfter lines lines.length).entries,
      ofKinds isDeclared (linkedLineages (lineOf lines) e) =
        ((declaredFirst e).map fun first => lineageAt lines (first - 1).toNat).toList := by
    intro e he
    obtain ⟨j, hj⟩ := mem_iff_getElem?.mp he
    rcases entry_cases h hj with ⟨d, hd, -, rfl⟩ | hgroup
    · have hkind := isDeclared_nodeWithin h lines.length d
      have hown : linkedLineages (lineOf lines) (entryWithin lines lines.length d) =
          [lineageAt lines d] := by
        rw [lineageAt_eq h hd, linkedLineages, lineages_eq_cons]
        rfl
      rw [hown, declaredFirst, entryWithin, if_pos hkind, Option.map_some, nodeWithin, Node.first,
        Int.add_sub_cancel, Int.toNat_natCast]
      exact filter_cons_of_pos hkind
    · rw [linkedLineages, ofKinds_group hgroup, declaredFirst, hgroup.kind]
      rfl
  simp only [ofKinds, filter_flatMap] at hown ⊢
  rw [flatMap_congr hown, ← filterMap_eq_flatMap_toList, ← map_filterMap,
    htracks.order, map_map]
  refine map_congr_left fun d _ => ?_
  simp

/-- Words for types give kinds of declarations. -/
theorem isDeclared_of_typeWord? {cs rest : List Char} {kind : Kind}
    (h : typeWord? cs = some (kind, rest)) : isDeclared kind = true := by
  unfold typeWord? at h
  split at h
  · cases h; rfl
  · cases h; rfl
  · cases h; rfl
  · obtain ⟨gap, -, h⟩ := Option.bind_eq_some_iff.mp h
    obtain ⟨more, -, h⟩ := Option.bind_eq_some_iff.mp h
    cases h
    rfl
  · cases h

/-- The lines of a **source text**. -/
def sourceLines (source : String) : List Line :=
  (Text.splitAtChar '\n' source.toList).map readLine

/-- The lines of a source text. -/
theorem haveKinds_sourceLines (source : String) : HaveKinds (sourceLines source) := by
  intro d kind name h
  obtain ⟨l, hl, hhead⟩ := Option.bind_eq_some_iff.mp h
  obtain ⟨text, -, rfl⟩ := Option.map_eq_some_iff.mp (getElem?_map ▸ hl)
  have htype : typeHead? text = some (.type kind name) := by
    unfold readLine at hhead
    dsimp only at hhead
    split at hhead
    · cases hhead
    · simp only [Line.head?, Kotlin.head?] at hhead
      split at hhead
      · rename_i htype
        exact htype.trans hhead
      · obtain ⟨name', -, hname⟩ := Option.map_eq_some_iff.mp hhead
        cases hname
  obtain ⟨⟨kind', rest⟩, hword, htype⟩ := Option.bind_eq_some_iff.mp htype
  obtain ⟨gap, -, htype⟩ := Option.bind_eq_some_iff.mp htype
  obtain ⟨name', -, htype⟩ := Option.bind_eq_some_iff.mp htype
  cases htype
  exact isDeclared_of_typeWord? hword

/-! ### Below -/

/-- What line `d` declares lies **below** what line `e` declares. -/
def LiesBelow (nodes : List Node) (d e : Nat) : Prop :=
  ∃ n above, n :: above ∈ ofKinds isDeclared (lineagesOf [] nodes) ∧ n.first = d + 1 ∧
    ∃ m ∈ above, m.first = e + 1

/-- Below a declaration lies what is declared while it is open. -/
theorem liesBelow_iff (h : HaveKinds lines) (hd : (headAt? lines d).isSome)
    (he : (headAt? lines e).isSome) :
    LiesBelow (outlineOf lines) d e ↔ e < d ∧ OpenUntil lines e (d + 1) := by
  have hmem : e ∈ enclosing lines d ↔ e < d ∧ OpenUntil lines e (d + 1) := by
    simp [enclosing, mem_openDeclarations_iff, he]
  have hdN : d ∈ declaredBefore lines lines.length := by
    refine mem_declaredBefore_iff.mpr ⟨?_, hd⟩
    by_contra hge
    simp [headAt?, getElem?_eq_none (Nat.not_lt.mp hge)] at hd
  rw [LiesBelow, lineages_outlineOf h, ← hmem]
  constructor
  · rintro ⟨n, above, hin, hfirst, m, hm, hmfirst⟩
    obtain ⟨d', -, heq⟩ := mem_map.mp hin
    obtain ⟨rfl, rfl⟩ := List.cons.inj heq
    obtain ⟨e', he', rfl⟩ := mem_map.mp hm
    rw [nodeWithin, Node.first] at hfirst hmfirst
    obtain rfl : d' = d := by omega
    obtain rfl : e' = e := by omega
    exact he'
  · intro hin
    exact ⟨_, _, mem_map_of_mem hdN, rfl, _, mem_map_of_mem hin, rfl⟩

/-- Lines that are no code keep the balance. -/
theorem balanceAfter_succ_of_not_isCode (h : isCodeAt lines n = false) :
    balanceAfter lines (n + 1) = balanceAfter lines n := by
  cases hl : lines[n]? with
  | none => simp [balanceAfter, take_add_one, hl]
  | some l =>
    rw [balanceAfter_succ hl]
    cases l with
    | imports text => exact Int.add_zero _
    | code change hasBrace head ends => simp [isCodeAt, hl, Line.isCode] at h

/-- While a declaration is open whose line leaves a brace open, the balance is above the one before.
-/
theorem balanceAfter_lt (hrise : balanceAfter lines e < balanceAfter lines (e + 1)) (hed : e < d)
    (hopen : OpenUntil lines e (d + 1)) : balanceAfter lines e < balanceAfter lines d := by
  have hbase : balanceAfter lines e ≤ baseAt lines e := by
    rw [baseAt]
    split <;> omega
  induction d, hed using Nat.le_induction with
  | base => exact hrise
  | succ d hed ih =>
    cases hcode : isCodeAt lines d with
    | true => exact Int.lt_of_le_of_lt hbase (hopen d (by omega) hed hcode)
    | false =>
      rw [balanceAfter_succ_of_not_isCode hcode]
      exact ih fun l hl => hopen l (by omega)

end

/-! ### Main results -/

/-- Without a last group of imports there is always an outline, which is that of the lines. -/
theorem outline_eq (last : Option Value) (source : String) :
    outline ⟨some .null, last⟩ source = .ok (Node.values (outlineOf (sourceLines source))) :=
  congrArg Except.ok (append_nil _)

/-- **Declarations are nested by braces.** In preorder, the nodes that are no imports are the
declarations in the order of their lines. Each ends on the first later line of code that takes the
balance back to its base, and lies below all earlier declarations that are open on its line. -/
theorem declarations_nest_by_braces (last : Option Value) (source : String) :
    ∃ nodes, outline ⟨some .null, last⟩ source = .ok (Node.values nodes) ∧
      ofKinds isDeclared (lineagesOf [] nodes) =
        (declaredBefore (sourceLines source) (sourceLines source).length).map
          (lineageAt (sourceLines source)) :=
  ⟨_, outline_eq last source, lineages_outlineOf (haveKinds_sourceLines source)⟩

/-- **What lies below a declaration** is what is declared while it is open. If its line opens more
braces than it closes, the balance before what lies below it is higher. If its line closes all that
it opens, it stays open all the same, until the balance falls below the one before the line. -/
theorem below_while_open (last : Option Value) {source : String} {lines : List Line} {d e : Nat}
    (hlines : sourceLines source = lines) (hd : (headAt? lines d).isSome)
    (he : (headAt? lines e).isSome) :
    ∃ nodes, outline ⟨some .null, last⟩ source = .ok (Node.values nodes) ∧
      (LiesBelow nodes d e ↔ e < d ∧ OpenUntil lines e (d + 1)) ∧
      (balanceAfter lines e < balanceAfter lines (e + 1) → LiesBelow nodes d e →
        balanceAfter lines e < balanceAfter lines d) ∧
      (balanceAfter lines e = balanceAfter lines (e + 1) → lines[e]?.any Line.hasBrace = true →
        (LiesBelow nodes d e ↔ e < d ∧ ∀ l < d + 1, e < l → isCodeAt lines l = true →
          balanceAfter lines e ≤ balanceAfter lines (l + 1))) := by
  subst hlines
  have hbelow := liesBelow_iff (haveKinds_sourceLines source) hd he
  refine ⟨_, outline_eq last source, hbelow, fun hrise h => ?_, fun hsame hbrace => ?_⟩
  · obtain ⟨hed, hopen⟩ := hbelow.mp h
    exact balanceAfter_lt hrise hed hopen
  · have hbase : baseAt (sourceLines source) e = balanceAfter (sourceLines source) e - 1 := by
      rw [baseAt, hbrace, ← hsame, if_pos rfl]
    refine hbelow.trans (and_congr_right fun _ => ?_)
    simp only [OpenUntil, hbase, Int.sub_one_lt_iff]

/-- Two functions, each with its whole body on its line. -/
def oneLineBodies : String := "fun a() \x7b\x7d\nfun b() \x7b\x7d"

/-- A function behind a body on one line. -/
theorem one_line_bodies_nest :
    ∃ nodes, outline ⟨some .null, none⟩ oneLineBodies = .ok (Node.values nodes) ∧
      LiesBelow nodes 1 0 := by
  obtain ⟨nodes, houtline, hbelow, -⟩ :=
    @below_while_open none oneLineBodies _ 1 0 rfl (by decide +kernel) (by decide +kernel)
  exact ⟨nodes, houtline, hbelow.mpr (by decide +kernel)⟩

/-- The first function closes all its braces on its line, and the second is still below it. -/
theorem second_body_is_below_first :
    balanceAfter (sourceLines oneLineBodies) 1 = 0 ∧
      outline ⟨some .null, none⟩ oneLineBodies = .ok (Node.values
        [.mk "a()" .functionDecl 1 1 [("signature", .str "fun a()")]
          [.mk "b()" .functionDecl 2 2 [("signature", .str "fun b()")] []]]) := by
  decide +kernel

end DocTree.Kotlin
