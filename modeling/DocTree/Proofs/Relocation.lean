import DocTree.Proofs.Acceptance

/-!
# Verification in a moved excerpt

If the pages that a table names are **moved** as far as the first page of the excerpt, every
question of the verification stays the same. Only the middle of the document is not moved, so a
table may be checked only after the move.
-/

namespace DocTree

open List

variable {entries : List Value} {count : Nat} {last : Value}

/-! ### Moved values -/

namespace Value

/-- A whole number **moved** by `d`; any other value as it is. -/
def moved (d : Int) : Value → Value
  | .int n => .int (n + d)
  | v => v

/-- An object in which the whole number of a field is moved by `d`. -/
def moveField (key : String) (d : Int) : Value → Value
  | .object fields =>
    match Fields.get? fields key with
    | some x => .object (Fields.set fields key (x.moved d))
    | none => .object fields
  | v => v

/-- A missing page stays missing. -/
@[simp] theorem isNull_moved (d : Int) (v : Value) : (v.moved d).isNull = v.isNull := by
  cases v <;> rfl

variable {key other : String}

/-- A field is moved. -/
theorem moveField_of_get? {fields : Fields} {x : Value} (h : fields.get? key = some x)
    (d : Int) : (Value.object fields).moveField key d = .object (fields.set key (x.moved d)) := by
  rw [moveField, h]

/-- A missing field is not. -/
theorem moveField_of_get?_none {fields : Fields} (h : fields.get? key = none) (d : Int) :
    (Value.object fields).moveField key d = .object fields := by
  rw [moveField, h]

/-- Reading a moved field. -/
theorem lookup_moveField (key : String) (d : Int) (v : Value) :
    (v.moveField key d).lookup key = moved d <$> v.lookup key := by
  cases v with
  | object fields =>
    cases h : Fields.get? fields key with
    | none =>
      rw [moveField_of_get?_none h, lookup, lookupOr, h]
      rfl
    | some x =>
      rw [moveField_of_get? h, lookup, lookupOr, Fields.get?_set_self, lookup, lookupOr, h]
      rfl
  | _ => rfl

/-- The other fields stay as they are. -/
theorem field_moveField (hne : key ≠ other) (d : Int) (v : Value) :
    (v.moveField key d).field other = v.field other := by
  cases v with
  | object fields =>
    cases h : Fields.get? fields key with
    | none => rw [moveField_of_get?_none h]
    | some x => rw [moveField_of_get? h, field, Fields.get?_set_of_ne _ _ hne, field]
  | _ => rfl

/-- Moving and setting other fields. -/
theorem setField_moveField (hne : key ≠ other) (d : Int) (v x : Value) :
    (v.moveField key d).setField other x = moveField key d <$> v.setField other x := by
  cases v with
  | object fields =>
    cases h : Fields.get? fields key with
    | none =>
      have hset : Fields.get? (Fields.set fields other x) key = none := by
        rw [Fields.get?_set_of_ne _ _ (Ne.symm hne), h]
      rw [moveField_of_get?_none h]
      exact congrArg Except.ok (moveField_of_get?_none hset d).symm
    | some y =>
      have hset : Fields.get? (Fields.set fields other x) key = some y := by
        rw [Fields.get?_set_of_ne _ _ (Ne.symm hne), h]
      rw [moveField_of_get? h, setField, Fields.set_comm h hne]
      exact congrArg Except.ok (moveField_of_get? hset d).symm
  | _ => rfl

end Value

namespace Contents

open Run

/-! ### Moved tables -/

/-- An entry names **no page or a whole number**. -/
def NamesWhole (entry : Value) : Prop :=
  ∃ page, position entry = .ok page ∧ (page = .null ∨ ∃ n, page = .int n)

variable (d : Int)

/-- Positions are moved. -/
theorem position_moved (entry : Value) :
    position (entry.moveField "physical_index" d) = Value.moved d <$> position entry :=
  Value.lookup_moveField _ d entry

/-- Entries stay placed. -/
theorem isPlaced_moved (entry : Value) :
    isPlaced (entry.moveField "physical_index" d) = isPlaced entry := by
  rw [isPlaced, position_moved, isPlaced]
  cases position entry with
  | error why => rfl
  | ok page => exact congrArg (fun b => Except.ok !b) (Value.isNull_moved d page)

/-- Notes are moved. -/
theorem noted?_moved (entries : List Value) (i : Nat) :
    noted? (.list (entries.map (Value.moveField "physical_index" d))) i =
      Option.map (Value.moveField "physical_index" d) <$> noted? (.list entries) i := by
  simp only [noted?, Value.item, Value.itemOf_map, bind_map_left, map_bind, isPlaced_moved]
  refine bind_congr fun entry => bind_congr fun placed => ?_
  split
  · rw [Value.setField_moveField (by decide)]
    simp
  · rfl

/-- Named pages are moved. -/
theorem namedPage_moved (entries : List Value) :
    namedPage (entries.map (Value.moveField "physical_index" d)) =
      Value.moved d <$> namedPage entries := by
  induction entries with
  | nil => rfl
  | cons entry rest ih =>
    simp only [map_cons, namedPage, position_moved, bind_map_left, map_bind,
      Value.isNull_moved]
    refine bind_congr fun page => ?_
    split
    · exact ih
    · rfl

/-- So is the last page. -/
theorem lastPage_moved (entries : List Value) :
    lastPage (entries.map (Value.moveField "physical_index" d)) =
      Value.moved d <$> lastPage entries := by
  rw [lastPage, ← map_reverse, namedPage_moved, lastPage]

/-- The last page is **a whole number**, if there is one. -/
theorem lastPage_of_namesWhole (h : ∀ entry ∈ entries, NamesWhole entry) :
    ∃ page, lastPage entries = .ok page ∧ (page = .null ∨ ∃ n, page = .int n) := by
  suffices hnamed : ∀ entries : List Value, (∀ entry ∈ entries, NamesWhole entry) →
      ∃ page, namedPage entries = .ok page ∧ (page = .null ∨ ∃ n, page = .int n) from
    hnamed entries.reverse fun entry hentry => h entry (mem_reverse.mp hentry)
  intro entries h
  induction entries with
  | nil => exact ⟨.null, rfl, .inl rfl⟩
  | cons entry rest ih =>
    obtain ⟨hentry, hrest⟩ := forall_mem_cons.mp h
    obtain ⟨page, hpage, rfl | ⟨n, rfl⟩⟩ := hentry
    · obtain ⟨last, hlast, hwhole⟩ := ih hrest
      exact ⟨last, bind_ok hpage hlast, hwhole⟩
    · exact ⟨.int n, bind_ok hpage rfl, .inr ⟨n, rfl⟩⟩

/-! ### Moved questions -/

/-- What was found out about an entry whose page is moved. -/
def Verdict.moved (d : Int) (v : Verdict) : Verdict := { v with page := v.page.moved d }

/-- Verdicts stay. -/
@[simp] theorem Verdict.holds_moved (d : Int) (v : Verdict) : (v.moved d).holds = v.holds := rfl

/-- Their pages are moved. -/
@[simp] theorem Verdict.value_moved (d : Int) (v : Verdict) :
    (v.moved d).value = v.value.moveField "page_number" d := rfl

/-- The pages of a moved excerpt have the **same texts**. -/
theorem textOf_moved (pages : List Page) (first d n : Int) :
    Excerpt.textOf ⟨pages, first + d⟩ (.int (n + d)) = Excerpt.textOf ⟨pages, first⟩ (.int n) := by
  rw [Excerpt.textOf_of_int? rfl, Excerpt.textOf_of_int? rfl, Int.add_sub_add_right]

/-- A title is **checked as before**. -/
theorem checkTitle_moved (model : Value) (pages : List Page) (first d : Int) {entry : Value}
    {n : Int} (hn : position entry = .ok (.int n)) :
    checkTitle model ⟨pages, first + d⟩ (entry.moveField "physical_index" d) =
      Verdict.moved d <$> checkTitle model ⟨pages, first⟩ entry := by
  have htitle : (entry.moveField "physical_index" d).field "title" = entry.field "title" :=
    Value.field_moveField (by decide) d entry
  have hindex : (entry.moveField "physical_index" d).field "list_index" =
      entry.field "list_index" := Value.field_moveField (by decide) d entry
  have hmoved : position (entry.moveField "physical_index" d) = .ok (.int (n + d)) := by
    rw [position_moved, hn]
    rfl
  rw [checkTitle, checkTitle, htitle, hindex, hmoved, hn, map_bind]
  refine bind_congr fun title => ?_
  simp only [lift_ok_bind, Value.isNull, Bool.false_eq_true, if_false, textOf_moved, map_bind]
  refine bind_congr fun text => bind_congr fun reply => bind_congr fun data =>
    bind_congr fun answered => ?_
  split
  · simp only [map_bind, map_pure, Verdict.moved, Value.moved]
  · simp only [map_bind, map_pure, Verdict.moved, Value.moved]

/-- The entries that are asked about name **whole numbers**, if all do that name a page. -/
theorem exists_position_of_noted? {i : Nat} {noted : Value}
    (hwhole : ∀ entry ∈ entries, NamesWhole entry)
    (h : noted? (.list entries) i = .ok (some noted)) : ∃ n, position noted = .ok (.int n) := by
  obtain ⟨entry, hentry, h⟩ := bind_eq_ok.mp h
  obtain ⟨placed, hplaced, h⟩ := bind_eq_ok.mp h
  obtain ⟨page, hpage, rfl | ⟨n, rfl⟩⟩ := hwhole entry (Value.mem_of_itemOf hentry)
  · rw [isPlaced, hpage] at hplaced
    cases hplaced
    cases h
  · rw [isPlaced, hpage] at hplaced
    cases hplaced
    rw [Value.isNull_of_int? rfl, if_pos (by decide)] at h
    obtain ⟨_, hset, h⟩ := bind_eq_ok.mp h
    cases h
    obtain ⟨fields, rfl, rfl⟩ := Value.setField_eq_ok_iff.mp hset
    refine ⟨n, ?_⟩
    rw [position, Value.lookup, Value.lookupOr, Fields.get?_set_of_ne _ _ (by decide)]
    exact hpage

/-- A table that **does not get past the middle** is verified as before. -/
theorem verify_moved (model : Value) (pages : List Page) (first d : Int)
    (hwhole : ∀ entry ∈ entries, NamesWhole entry) (hearly : ∀ last, lastPage entries = .ok last →
      isEarly (last.moved d) pages.length = isEarly last pages.length) (sample : Value) :
    verify model ⟨pages, first + d⟩ (.list (entries.map (Value.moveField "physical_index" d)))
        sample =
      Prod.map id (List.map (Value.moveField "page_number" d)) <$>
        verify model ⟨pages, first⟩ (.list entries) sample := by
  funext session
  suffices h : SameIn session (verify model ⟨pages, first + d⟩ (.list (entries.map
      (Value.moveField "physical_index" d))) sample) (Prod.map id (List.map (Value.moveField
      "page_number" d)) <$> verify model ⟨pages, first⟩ (.list entries) sample) from funext h
  rw [verify, verify, map_bind]
  refine sameIn_bind (fun _ => rfl) fun _ => ?_
  simp only [Value.elements, lift_ok_bind, map_bind, lastPage_moved]
  cases hlast : lastPage entries with
  | error why => exact fun _ => rfl
  | ok last =>
    change SameIn session (liftM (isEarly (last.moved d) pages.length) >>= _) _
    rw [hearly last hlast]
    simp only [lift_ok_bind]
    refine sameIn_bind (fun _ => rfl) fun {_ early _} _ => ?_
    cases early with
    | true => exact fun _ => rfl
    | false =>
      simp only [Bool.false_eq_true, if_false, length_map, noted?_moved, map_bind]
      refine sameIn_bind (fun _ => rfl) fun {_ positions _} _ => ?_
      simp only [lift_map, filterMapM_map_result, bind_map_left]
      -- that the entries name whole numbers is known of those only that the run returns
      refine sameIn_bind (fun _ => rfl) fun {_ asked _} hasked => ?_
      have hchecks : (asked.map (Value.moveField "physical_index" d)).map
          (checkTitle model ⟨pages, first + d⟩) =
          asked.map fun noted => Verdict.moved d <$> checkTitle model ⟨pages, first⟩ noted := by
        rw [map_map]
        refine map_congr_left fun noted hnoted => ?_
        obtain ⟨i, -, hi⟩ := hasked.mem_of_filterMapM noted hnoted
        obtain ⟨n, hn⟩ := exists_position_of_noted? hwhole hi
        exact checkTitle_moved model pages first d hn
      rw [hchecks, together_map, bind_map_left]
      refine sameIn_bind (fun _ => rfl) fun {_ verdicts _} _ => ?_
      simp only [filter_map, length_map, Function.comp_def, Verdict.holds_moved,
        map_map, Verdict.value_moved, map_pure, Prod.map, id]
      exact fun _ => rfl

/-! ### The middle of the document -/

/-- Up to `2 ^ 53` pages, a page is early if **twice its number** is less than their number. -/
theorem isEarly_int (hcount : count ≤ 2 ^ 53) (n : Int) :
    isEarly (.int n) count = .ok (decide (2 * n < count)) := by
  rw [isEarly_of_toRat? rfl (Double.toRat?_ofRatio_half hcount), Except.ok.injEq,
    decide_eq_decide, lt_div_iff₀ two_pos, mul_comm]
  exact_mod_cast Iff.rfl

/-- A page behind one that is not early is not early either. -/
theorem isEarly_of_le {m n : Int} (hmn : m ≤ n) (h : isEarly (.int m) count = .ok false) :
    isEarly (.int n) count = .ok false := by
  rcases Double.toRat?_ofRatio count 2 with hinfinite | hfinite
  · -- before an infinite half every page is early
    rw [isEarly_of_int? rfl, hinfinite] at h
    cases h
  · rw [isEarly_of_toRat? rfl hfinite, Except.ok.injEq, decide_eq_false_iff_not, not_lt] at h ⊢
    exact h.trans (Int.cast_le.mpr hmn)

/-- The last page of a table **passes the middle** when it is moved by `d`: it is early before, and
not after. -/
def PassesMiddle (count : Nat) (d : Int) (entries : List Value) : Prop :=
  ∃ last, lastPage entries = .ok last ∧ isEarly last count = .ok true ∧
    isEarly (last.moved d) count = .ok false

/-- Up to `2 ^ 53` pages, the middle is passed from less than half to at least half. -/
theorem passesMiddle_iff {d : Int} (hcount : count ≤ 2 ^ 53)
    (hwhole : ∀ entry ∈ entries, NamesWhole entry) :
    PassesMiddle count d entries ↔
      ∃ n : Int, lastPage entries = .ok (.int n) ∧ 2 * n < count ∧ count ≤ 2 * (n + d) := by
  obtain ⟨page, hlast, rfl | ⟨m, rfl⟩⟩ := lastPage_of_namesWhole hwhole
  · constructor
    · rintro ⟨_, hlast', -, hlate⟩
      cases hlast.symm.trans hlast'
      cases hlate
    · rintro ⟨n, hlast', -⟩
      cases hlast.symm.trans hlast'
  · constructor
    · rintro ⟨_, hlast', hearly, hlate⟩
      cases hlast.symm.trans hlast'
      rw [Value.moved, isEarly_int hcount, Except.ok.injEq, decide_eq_false_iff_not] at hlate
      rw [isEarly_int hcount, Except.ok.injEq, decide_eq_true_iff] at hearly
      exact ⟨m, hlast, hearly, not_lt.mp hlate⟩
    · rintro ⟨n, hlast', hearly, hlate⟩
      cases hlast.symm.trans hlast'
      refine ⟨_, hlast, ?_, ?_⟩
      · rw [isEarly_int hcount, decide_eq_true hearly]
      · rw [Value.moved, isEarly_int hcount, decide_eq_false (not_lt.mpr hlate)]

/-- A last page that is moved on stays **on its side** of the middle, unless it passes it. -/
theorem isEarly_moved_of_not_passesMiddle {d : Int} (hd : 0 ≤ d)
    (hwhole : ∀ entry ∈ entries, NamesWhole entry) (h : ¬ PassesMiddle count d entries)
    (hlast : lastPage entries = .ok last) : isEarly (last.moved d) count = isEarly last count := by
  obtain ⟨_, hlast', rfl | ⟨n, rfl⟩⟩ := lastPage_of_namesWhole hwhole
  · cases hlast.symm.trans hlast'
    rfl
  · cases hlast.symm.trans hlast'
    obtain ⟨before, hbefore⟩ : ∃ b, isEarly (.int n) count = .ok b :=
      ⟨_, isEarly_of_int? rfl count⟩
    obtain ⟨after, hafter⟩ : ∃ b, isEarly (.int (n + d)) count = .ok b :=
      ⟨_, isEarly_of_int? rfl count⟩
    cases before with
    | false => exact (isEarly_of_le (by omega) hbefore).trans hbefore.symm
    | true =>
      cases after with
      | false => exact absurd ⟨_, hlast, hbefore, hafter⟩ h
      | true => exact hafter.trans hbefore.symm

/-- A table whose last page is early is **not checked**: its accuracy is zero. -/
theorem returns_verify_of_early (model : Value) {e : Excerpt} (hlast : lastPage entries = .ok last)
    (hearly : isEarly last e.pages.length = .ok true) (session : Session) (l : Ledger) :
    ∃ l', (verify model e (.list entries)).Returns session l (.int 0, []) l' ∧
      l'.requests = l.requests := by
  refine ⟨{ l with printed := l.printed ++ "start verify_toc" ++ "\n" }, ?_, rfl⟩
  refine Returns.bind rfl (Returns.bind rfl ?_)
  refine Returns.bind (returns_lift hlast) ?_
  exact Returns.bind (returns_lift hearly) rfl

/-- In a table that is checked **all entries are right, or something is reported**. -/
theorem right_or_reported_of_late {model : Value} {e : Excerpt} {accuracy : Value}
    {wrong : List Value} {session : Session} {l l' : Ledger}
    (hlast : lastPage entries = .ok last) (hlate : isEarly last e.pages.length = .ok false)
    (h : (verify model e (.list entries)).Returns session l (accuracy, wrong) l') :
    accuracy.ratio? = some 1 ∨ wrong ≠ [] := by
  rw [← map_fst_verifyWithVerdicts] at h
  obtain ⟨⟨_, verdicts⟩, h, rfl⟩ := returns_map_iff.mp h
  cases verified_of_returns h with
  | early hlast' hearly =>
    cases hlast.symm.trans hlast'
    cases hearly.symm.trans hlate
  | checked _ _ hverdicts =>
    by_cases hwrong : (verdicts.filter fun v => !v.holds).map Verdict.value = []
    · have hnull := isNull_of_late hlate
      obtain ⟨before, entry, after, rfl, hpage, -⟩ := exists_of_lastPage hlast hnull
      have hpos : 0 < verdicts.length := by
        rw [← hverdicts.length_eq]
        refine length_pos_of_mem (a := entry) (mem_filter.mpr ⟨by simp, ?_⟩)
        rw [namesPage, hpage, Option.getD_some, hnull]
        rfl
      refine .inl ?_
      rw [length_filter_holds hwrong]
      exact ratio?_share_self hpos
    · exact .inr hwrong

/-- **When verification depends on where an excerpt begins.** Let all pages of a table be moved as
far as the first page of the excerpt. If the last page does not pass the middle, verification does
what it did, with the pages of its reports moved. If it does, the table was not checked before, and
now all its entries are right or some are reported. -/
theorem verification_moves_unless_middle_is_passed (model : Value) (pages : List Page) {s : Int}
    {entries : List Value} (hs : 1 ≤ s) (hwhole : ∀ entry ∈ entries, NamesWhole entry) :
    (pages.length ≤ 2 ^ 53 → (PassesMiddle pages.length (s - 1) entries ↔
      ∃ n : Int, lastPage entries = .ok (.int n) ∧ 2 * n < pages.length ∧
        pages.length ≤ 2 * (n + (s - 1)))) ∧
    (¬ PassesMiddle pages.length (s - 1) entries → ∀ sample,
      verify model ⟨pages, s⟩
          (.list (entries.map (Value.moveField "physical_index" (s - 1)))) sample =
        Prod.map id (List.map (Value.moveField "page_number" (s - 1))) <$>
          verify model ⟨pages, 1⟩ (.list entries) sample) ∧
    (PassesMiddle pages.length (s - 1) entries → ∀ session l,
      (∃ l', (verify model ⟨pages, 1⟩ (.list entries)).Returns session l (.int 0, [])
          l' ∧ l'.requests = l.requests) ∧
        ∀ accuracy wrong l', (verify model ⟨pages, s⟩ (.list (entries.map
          (Value.moveField "physical_index" (s - 1))))).Returns session l (accuracy, wrong)
            l' → accuracy.ratio? = some 1 ∨ wrong ≠ []) := by
  refine ⟨fun hcount => passesMiddle_iff hcount hwhole, fun hmiddle sample => ?_, ?_⟩
  · have hmoved := verify_moved model pages 1 (s - 1) hwhole (fun last hlast =>
      isEarly_moved_of_not_passesMiddle (by omega) hwhole hmiddle hlast) sample
    have hfirst : 1 + (s - 1) = s := by omega
    rwa [hfirst] at hmoved
  · rintro ⟨last, hlast, hearly, hlate⟩ session l
    refine ⟨returns_verify_of_early model hlast hearly session l, ?_⟩
    intro accuracy wrong l' h
    refine right_or_reported_of_late ?_ hlate h
    rw [lastPage_moved, hlast]
    rfl

/-- An entry that names no page. -/
def entryNowhere (title : String) : Value :=
  .object [("title", .str title), ("physical_index", .null)]

/-- The last page of this table is past the middle of three pages from the beginning. -/
theorem late_table_is_verified_alike :
    (∀ entry ∈ [entryOn "A" 2, entryNowhere "B"], NamesWhole entry) ∧
    ¬ PassesMiddle 3 4 [entryOn "A" 2, entryNowhere "B"] ∧
    verify (.str "m") ⟨threePages.pages, 5⟩ (.list [entryOn "A" 6, entryNowhere "B"]) =
      Prod.map id (List.map (Value.moveField "page_number" 4)) <$>
        verify (.str "m") threePages (.list [entryOn "A" 2, entryNowhere "B"]) := by
  have hwhole : ∀ entry ∈ [entryOn "A" 2, entryNowhere "B"], NamesWhole entry := by
    simp only [forall_mem_cons]
    exact ⟨⟨_, rfl, .inr ⟨2, rfl⟩⟩, ⟨_, rfl, .inl rfl⟩, fun _ h => by cases h⟩
  obtain ⟨hiff, halike, -⟩ := verification_moves_unless_middle_is_passed (.str "m")
    threePages.pages (s := 5) (by decide) hwhole
  have hmiddle : ¬ PassesMiddle 3 4 [entryOn "A" 2, entryNowhere "B"] := by
    intro h
    obtain ⟨n, hlast, hn, -⟩ := (hiff (by decide)).mp h
    cases hlast
    revert hn
    decide
  exact ⟨hwhole, hmiddle, halike hmiddle .null⟩

/-- **A table that passes the middle**: with its page moved by one it is checked, and right. -/
theorem table_past_middle_is_checked :
    [entryOn "A" 1].map (Value.moveField "physical_index" 1) = [entryOn "A" 2] ∧
    (∃ l', (verify (.str "m") ⟨threePages.pages, 1⟩ (.list [entryOn "A" 1])).Returns
      (scripted [rightOrNot "yes"]) {} (.int 0, []) l') ∧
    (∃ l', (verify (.str "m") ⟨threePages.pages, 2⟩ (.list [entryOn "A" 2])).Returns
      (scripted [rightOrNot "yes"]) {} (share 1 1, []) l') ∧
    (share 1 1).ratio? ≠ (Value.int 0).ratio? := by
  refine ⟨rfl, ⟨_, returns_of_outcome (by decide +kernel)⟩,
    ⟨_, returns_of_outcome (by decide +kernel)⟩, ?_⟩
  rw [ratio?_share_self one_pos]
  decide

end Contents

end DocTree
