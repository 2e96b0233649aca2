import DocTree.Proofs.Cleaning
import DocTree.Proofs.JsonPrinted

/-!
# Values in fences

A value that is printed inside a fence is extracted again, and cleaning changes its texts only.
Without the closing fence nothing is extracted, for the last fence is then the opening one, or
stands inside a string.
-/

namespace DocTree.Reply

open Json Text List

variable {c : Char} {cs : List Char} {ts : List Token} {limit : Nat}

/-! ### Cleaning printed strings -/

/-- The characters of a text **as they are extracted** from its printed string. -/
def tidyList (ascii : Bool) (cs : List Char) : List Char :=
  squeeze (isRun ascii) false (spellNull cs)

/-- A text **as it is extracted** from its printed string: nulls in JSON's own word, and unescaped
runs of white space as one space. -/
def tidy (ascii : Bool) (s : String) : String := String.ofList (tidyList ascii s.toList)

/-- Nulls are the same before and after escaping, as escapes have no capital N in them. -/
theorem spellNull_flatMap (ascii : Bool) (cs : List Char) :
    spellNull (cs.flatMap (escapeChar ascii)) = (spellNull cs).flatMap (escapeChar ascii) := by
  have hraw : ['N', 'o', 'n', 'e'].flatMap (escapeChar ascii) = ['N', 'o', 'n', 'e'] ∧
      ['n', 'u', 'l', 'l'].flatMap (escapeChar ascii) = ['n', 'u', 'l', 'l'] := by
    cases ascii <;> decide
  have hne : ['N', 'o', 'n', 'e'] ≠ [] := by decide
  induction cs using replace_induction hne with
  | nil => rfl
  | found cs ih =>
    rw [flatMap_append, hraw.1, spellNull, spellNull, replaceList_needle_append hne,
      replaceList_needle_append hne, flatMap_append, hraw.2]
    exact congrArg _ ih
  | other c cs h ih =>
    have hspelled := mt ((spells_flatMap ascii (c :: cs)).prefix_of_spelled (by decide)) h
    rw [spellNull, spellNull, replaceList_cons h, flatMap_cons, flatMap_cons]
    rw [flatMap_cons] at hspelled
    rcases escapeChar_cases ascii c with ⟨hc, -⟩ | ⟨hc, -⟩
    · rw [hc, singleton_append] at hspelled ⊢
      rw [replaceList_cons hspelled]
      exact congrArg _ ih
    · rw [replaceList_append_of_not_mem fun hmem => absurd (hc.ink _ hmem) (by decide)]
      exact congrArg _ ih

/-- Runs of white space in the printed text are those of the string that are not escaped. -/
theorem squeeze_flatMap (ascii within : Bool) (cs : List Char) :
    squeeze isBlank within (cs.flatMap (escapeChar ascii)) =
      (squeeze (isRun ascii) within cs).flatMap (escapeChar ascii) := by
  have hspace : escapeChar ascii ' ' = [' '] := by cases ascii <;> decide
  induction cs generalizing within with
  | nil => rfl
  | cons c cs ih =>
    rw [flatMap_cons]
    rcases escapeChar_cases ascii c with ⟨hc, -, hrun⟩ | ⟨hc, hrun⟩
    · rw [hc, singleton_append, squeeze, squeeze, hrun, ih, ih]
      split
      · split
        · rfl
        · rw [flatMap_cons, hspace, singleton_append]
      · rw [flatMap_cons, hc, singleton_append]
    · have hblank : ∀ d ∈ escapeChar ascii c, isBlank d = false := fun d hd =>
        (isInk_iff.mp (hc.ink d hd)).1
      rw [(solid_of_forall hc.ne_nil hblank).squeeze_append, squeeze_of_forall hblank, ih, squeeze,
        hrun, if_neg Bool.false_ne_true, flatMap_cons]

/-- **Cleaning a printed string** prints the tidy text. -/
theorem clean_quoteList (ascii : Bool) (cs : List Char) :
    clean (quoteList ascii cs) = quoteList ascii (tidyList ascii cs) := by
  rw [clean, quoteList, spellNull_quoted, spellNull_flatMap, squeeze, if_neg (by decide),
    squeeze_append_cons (by decide), squeeze_flatMap]
  rfl

/-! ### The tokens of printed values -/

/-- Tokens of a **printed text**: they make up the text, are cleaned one by one, and no comma among
them is extra. -/
structure Prints (cs : List Char) (ts : List Token) : Prop where
  text : textOf ts = cs
  sturdy : ∀ t ∈ ts, Sturdy t.text
  noExtra : ¬ HasExtra ts

/-- One token. -/
theorem Prints.token (h : Sturdy cs) (gap : Gap) : Prints (gap ++ cs) [⟨gap, cs, false⟩] :=
  ⟨by simp [textOf], by simpa using h, by simp [HasExtra]⟩

/-- Tokens of two parts. -/
theorem Prints.append {ds : List Char} {ts us : List Token} (h : Prints cs ts) (h' : Prints ds us) :
    Prints (cs ++ ds) (ts ++ us) :=
  ⟨by rw [textOf_append, h.text, h'.text], forall_mem_append.mpr ⟨h.sturdy, h'.sturdy⟩,
    mt hasExtra_append.mp (not_or.mpr ⟨h.noExtra, h'.noExtra⟩)⟩

/-- The tokens of one character. -/
def marks : List Char := ['[', ']', '\x7b', '\x7d', ':', ',']

/-- One mark. -/
theorem Prints.mark (hc : c ∈ marks) (gap : Gap) : Prints (gap ++ [c]) [mark c gap] := by
  have hall : marks.all (fun c => c != 'N' && !isBlank c) = true := by decide
  obtain ⟨hN, hblank⟩ : ¬ c = 'N' ∧ isBlank c = false := by
    simpa using all_eq_true.mp hall c hc
  exact .token (.bare (by simpa using Ne.symm hN)
    (solid_of_forall (by simp) (by simpa using hblank))) gap

/-- A mark is cleaned. -/
theorem cleanToken_mark (hc : c ∈ marks) (gap : Gap) :
    cleanToken (mark c gap) = mark c gap.squeezed := by
  have hall : marks.all (fun c => clean [c] == [c]) = true := by decide
  have hclean : clean [c] = [c] := by simpa using all_eq_true.mp hall c hc
  rw [cleanToken, mark, hclean]
  rfl

/-- A scalar with nothing to clean is one token. -/
theorem exists_token {v : Value} (h : Scalar v cs) (hink : ∀ c ∈ cs, isInk c = true) (gap : Gap) :
    ∃ ts, Prints (gap ++ cs) ts ∧ Writes v (ts.map cleanToken) := by
  obtain ⟨c, ds, hcs, -⟩ := h.opens
  have hmade : Made [] ⟨gap, cs, false⟩ := .ink gap (by simp [hcs]) hink
  have hclean := (@relaid_cleanToken [] _ (forall_mem_nil _) hmade).plain rfl
  refine ⟨_, .token (sturdy_of_made hmade) gap, ?_⟩
  rw [map_singleton, hclean]
  exact .scalar _ h

/-- A printed key is a string and a colon, and spells the tidy key when it is cleaned. -/
theorem exists_key_tokens (ascii : Bool) (k : String) (gap : Gap) :
    ∃ ts t gap' gap'', Prints (gap ++ (quote ascii k ++ ":").toList) ts ∧
      Spells (tidy ascii k).toList t ∧ ts.map cleanToken = keyTokens gap' t gap'' := by
  refine ⟨[⟨gap, quoteList ascii k.toList, false⟩, mark ':' noGap],
    (tidyList ascii k.toList).flatMap (escapeChar ascii), gap.squeezed, noGap.squeezed, ?_, ?_, ?_⟩
  · have hprints := (Prints.token (.quoted (k.toList.flatMap (escapeChar ascii))) gap).append
      (.mark (c := ':') (by decide) noGap)
    simpa [quote, quoteList, noGap] using hprints
  · rw [tidy, String.toList_ofList]
    exact spells_flatMap _ _
  · rw [map_cons, map_singleton, cleanToken_mark (by decide), cleanToken, clean_quoteList]
    rfl

mutual

/-- A plain value is **printed as tokens** that write the tidy value when they are cleaned. -/
theorem exists_tokens (ascii : Bool) : ∀ (level : Nat) (v : Value), v.Plain → ∀ gap : Gap,
    ∃ ts, Prints (gap ++ (renderAt ⟨ascii, none⟩ level v).toList) ts ∧
      Writes (v.mapTexts (tidy ascii)) (ts.map cleanToken)
  | level, .null, _, gap => by
    have htoken := exists_token .null (all_eq_true.mp (by decide)) gap
    simpa [renderAt, Value.mapTexts] using htoken
  | level, .bool true, _, gap => by
    have htoken := exists_token .isTrue (all_eq_true.mp (by decide)) gap
    simpa [renderAt, Value.mapTexts] using htoken
  | level, .bool false, _, gap => by
    have htoken := exists_token .isFalse (all_eq_true.mp (by decide)) gap
    simpa [renderAt, Value.mapTexts] using htoken
  | level, .int n, h, gap => by
    have hnumeral := numeral_intText h
    simpa [renderAt, Value.mapTexts] using exists_token (.numeral hnumeral) hnumeral.ink gap
  | level, .str s, _, gap => by
    refine ⟨[⟨gap, quoteList ascii s.toList, false⟩], ?_, ?_⟩
    · have hprints := Prints.token (.quoted (s.toList.flatMap (escapeChar ascii))) gap
      simpa [renderAt, quote, quoteList] using hprints
    · have hspells := spells_flatMap ascii (tidy ascii s).toList
      rw [map_singleton, cleanToken, clean_quoteList]
      simpa [tidy, quoteList, Value.mapTexts] using Writes.scalar gap.squeezed (.string hspells)
  | level, .list [], _, gap => by
    have hprints := (Prints.mark (c := '[') (by decide) gap).append
      (.mark (c := ']') (by decide) noGap)
    refine ⟨_, by simpa [renderAt, renderItems, enclose, noGap] using hprints, ?_⟩
    exact .empty gap.squeezed noGap.squeezed
  | level, .list (v :: rest), h, gap => by
    obtain ⟨ts, hts, hwrites⟩ := exists_tokens_items ascii (level + 1) (v :: rest) (by simp) h
      noGap
    refine ⟨mark '[' gap :: ts, ?_, ?_⟩
    · have hprints := (Prints.mark (c := '[') (by decide) gap).append hts
      rw [renderAt, toList_enclose _ _ _ _ (by simp [renderItems])]
      simpa [noGap] using hprints
    · rw [map_cons, cleanToken_mark (by decide)]
      exact .list _ hwrites
  | level, .object [], _, gap => by
    have hprints := (Prints.mark (c := '\x7b') (by decide) gap).append
      (.mark (c := '\x7d') (by decide) noGap)
    refine ⟨_, by simpa [renderAt, renderFields, enclose, noGap] using hprints, ?_⟩
    exact .emptyObject gap.squeezed noGap.squeezed
  | level, .object ((k, v) :: rest), h, gap => by
    obtain ⟨ts, hts, hwrites⟩ := exists_tokens_fields ascii (level + 1) ((k, v) :: rest)
      (by simp) h noGap
    refine ⟨mark '\x7b' gap :: ts, ?_, ?_⟩
    · have hprints := (Prints.mark (c := '\x7b') (by decide) gap).append hts
      rw [renderAt, toList_enclose _ _ _ _ (by simp [renderFields])]
      simpa [noGap] using hprints
    · rw [map_cons, cleanToken_mark (by decide)]
      exact .object _ hwrites

/-- Printed items are tokens. -/
theorem exists_tokens_items (ascii : Bool) : ∀ (level : Nat) (items : List Value), items ≠ [] →
    Value.PlainItems items → ∀ gap : Gap, ∃ ts,
      Prints (gap ++ ((Text.join ", " (renderItems ⟨ascii, none⟩ level items)).toList ++
        [']'])) ts ∧
        WritesItems (Value.mapTextsItems (tidy ascii) items) (ts.map cleanToken)
  | _, [], hne, _, _ => absurd rfl hne
  | level, [v], _, ⟨hv, _⟩, gap => by
    obtain ⟨ts, hts, hwrites⟩ := exists_tokens ascii level v hv gap
    refine ⟨ts ++ [mark ']' noGap], ?_, ?_⟩
    · simpa [renderItems, Text.join, noGap] using hts.append (.mark (c := ']') (by decide) noGap)
    · rw [map_append, map_singleton, cleanToken_mark (by decide)]
      exact .last none _ hwrites
  | level, v :: w :: rest, _, ⟨hv, hrest⟩, gap => by
    obtain ⟨ts, hts, hwrites⟩ := exists_tokens ascii level v hv gap
    obtain ⟨us, hus, hwrites'⟩ := exists_tokens_items ascii level (w :: rest) (by simp) hrest oneGap
    refine ⟨ts ++ mark ',' noGap :: us, ?_, ?_⟩
    · have hprints := hts.append ((Prints.mark (c := ',') (by decide) noGap).append hus)
      simpa [renderItems, Text.join, noGap, oneGap] using hprints
    · rw [map_append, map_cons, cleanToken_mark (by decide)]
      exact .cons _ hwrites hwrites'

/-- Printed fields are tokens. -/
theorem exists_tokens_fields (ascii : Bool) : ∀ (level : Nat) (fields : Fields), fields ≠ [] →
    Value.PlainFields fields → ∀ gap : Gap, ∃ ts,
      Prints (gap ++ ((Text.join ", " (renderFields ⟨ascii, none⟩ level fields)).toList ++
        ['\x7d'])) ts ∧
        WritesFields (Value.mapTextsFields (tidy ascii) fields) (ts.map cleanToken)
  | _, [], hne, _, _ => absurd rfl hne
  | level, [(k, v)], _, ⟨hv, _⟩, gap => by
    obtain ⟨ks, t, gap', gap'', hks, hspells, hkeys⟩ := exists_key_tokens ascii k gap
    obtain ⟨ts, hts, hwrites⟩ := exists_tokens ascii level v hv oneGap
    refine ⟨ks ++ ts ++ [mark '\x7d' noGap], ?_, ?_⟩
    · have hprints := (hks.append hts).append (.mark (c := '\x7d') (by decide) noGap)
      simpa [renderFields, Text.join, noGap, oneGap] using hprints
    · rw [map_append, map_append, hkeys, map_singleton, cleanToken_mark (by decide)]
      exact .last _ _ none _ hspells hwrites
  | level, (k, v) :: field :: rest, _, ⟨hv, hrest⟩, gap => by
    obtain ⟨ks, t, gap', gap'', hks, hspells, hkeys⟩ := exists_key_tokens ascii k gap
    obtain ⟨ts, hts, hwrites⟩ := exists_tokens ascii level v hv oneGap
    obtain ⟨us, hus, hwrites'⟩ := exists_tokens_fields ascii level (field :: rest) (by simp) hrest
      oneGap
    refine ⟨ks ++ ts ++ mark ',' noGap :: us, ?_, ?_⟩
    · have hcomma := (Prints.mark (c := ',') (by decide) noGap).append hus
      have hprints := (hks.append hts).append hcomma
      simpa [renderFields, Text.join, noGap, oneGap] using hprints
    · rw [map_append, map_append, hkeys, map_cons, cleanToken_mark (by decide)]
      exact .cons _ _ _ hspells hwrites hwrites'

end

/-! ### Cleaning and places -/

section

variable {needle new ds : List Char} {p : Place}

/-- The place after two parts. -/
theorem afterAll_append (p : Place) (cs ds : List Char) :
    p.afterAll (cs ++ ds) = (p.afterAll cs).afterAll ds := foldl_append

/-- Replacing a text by one that leads to the same places keeps all places behind it. -/
theorem afterAll_replaceList (hne : needle ≠ [])
    (h : ∀ p : Place, p.afterAll new = p.afterAll needle) (cs : List Char) :
    p.afterAll (replaceList needle new cs) = p.afterAll cs := by
  induction cs using replace_induction hne generalizing p with
  | nil => rfl
  | found cs ih =>
    rw [replaceList_needle_append hne, afterAll_append, afterAll_append, h, ih]
  | other c cs hc ih =>
    rw [replaceList_cons hc]
    exact ih

/-- All white space leads to one place. -/
theorem after_blank (h : isBlank c = true) (p : Place) : p.after c = p.after ' ' := by
  have hne : c ≠ '"' ∧ c ≠ '\\' ∧ c ≠ '\x7d' := by
    refine ⟨?_, ?_, ?_⟩ <;> rintro rfl <;> revert h <;> decide
  cases p <;> simp [Place.after, hne]

/-- A second space leads nowhere else. -/
theorem after_space (p : Place) : (p.after ' ').after ' ' = p.after ' ' := by
  cases p <;> rfl

/-- White space crosses no quotation mark. -/
theorem isOutside_after_space (p : Place) : (p.after ' ').isOutside = p.isOutside := by
  cases p <;> rfl

/-- Squeezing leads to the same place. -/
theorem afterAll_squeeze (cs : List Char) :
    (∀ p : Place, p.afterAll (squeeze isBlank false cs) = p.afterAll cs) ∧
      ∀ p : Place,
        (p.after ' ').afterAll (squeeze isBlank true cs) = (p.after ' ').afterAll cs := by
  induction cs with
  | nil => exact ⟨fun _ => rfl, fun _ => rfl⟩
  | cons c cs ih =>
    by_cases hc : isBlank c = true
    · have hstep : ∀ p : Place, p.afterAll (c :: cs) = (p.after ' ').afterAll cs := fun p =>
        congrArg (Place.afterAll · cs) (after_blank hc p)
      refine ⟨fun p => ?_, fun p => ?_⟩
      · rw [squeeze, if_pos hc, if_neg Bool.false_ne_true, hstep]
        exact ih.2 p
      · rw [squeeze, if_pos hc, if_pos rfl, hstep, after_space, ih.2]
    · refine ⟨fun p => ?_, fun p => ?_⟩
      · rw [squeeze, if_neg hc]
        exact ih.1 (p.after c)
      · rw [squeeze, if_neg hc]
        exact ih.1 ((p.after ' ').after c)

/-- Blanks cross no quotation mark. -/
theorem isOutside_afterAll_blanks (h : ∀ c ∈ cs, isBlank c = true) (p : Place) :
    (p.afterAll cs).isOutside = p.isOutside := by
  induction cs generalizing p with
  | nil => rfl
  | cons c cs ih =>
    obtain ⟨hc, hcs⟩ := forall_mem_cons.mp h
    exact (ih hcs _).trans (by rw [after_blank hc, isOutside_after_space])

/-- Trimming crosses no quotation mark. -/
theorem isOutside_afterAll_trimList (cs : List Char) :
    (Place.outside.afterAll (trimList cs)).isOutside =
      (Place.outside.afterAll cs).isOutside := by
  have hstart : ∀ {blanks : List Char}, (∀ c ∈ blanks, isBlank c = true) →
      Place.outside.afterAll blanks = .outside := by
    intro blanks hblanks
    induction blanks with
    | nil => rfl
    | cons c blanks ih =>
      obtain ⟨hc, hblanks⟩ := forall_mem_cons.mp hblanks
      exact (congrArg (Place.afterAll · blanks) (after_blank hc _)).trans (ih hblanks)
  obtain ⟨blanks, hend, hblanks⟩ := exists_blanks_of_dropEnd isBlank (dropStart isBlank cs)
  have hcs : cs = cs.takeWhile isBlank ++ dropStart isBlank cs :=
    takeWhile_append_dropWhile.symm
  rw [trimList]
  conv_rhs =>
    rw [hcs, afterAll_append, hstart fun c hc => mem_takeWhile_imp hc, hend, afterAll_append,
      isOutside_afterAll_blanks hblanks]

/-- What is trimmed is solid. -/
theorem solid_trimList (h : trimList cs ≠ []) : Solid (trimList cs) := by
  obtain ⟨blanks, hend, -⟩ := exists_blanks_of_dropEnd isBlank (dropStart isBlank cs)
  have hfirst := head?_dropWhile_not isBlank cs
  rw [← dropStart, hend, ← trimList, head?_append_of_ne_nil _ h] at hfirst
  constructor
  · obtain ⟨c, ds, hds⟩ := exists_cons_of_ne_nil h
    simpa [hds] using hfirst
  · rw [getLast?_eq_getLast_of_ne_nil h]
    have hlast := of_getLast?_dropEnd (getLast?_eq_getLast_of_ne_nil h)
    simpa using hlast

/-- **Cleaning keeps a text** outside or inside strings. -/
theorem isOutside_afterAll_normalize (cs : List Char) :
    (Place.outside.afterAll (normalize cs)).isOutside =
      (Place.outside.afterAll (fenced cs)).isOutside := by
  have hnull : ∀ p : Place, p.afterAll ['n', 'u', 'l', 'l'] = p.afterAll ['N', 'o', 'n', 'e'] := by
    intro p
    cases p <;> rfl
  rw [normalize, ← isOutside_afterAll_trimList (fenced cs)]
  by_cases h : trimList (fenced cs) = []
  · rw [h]
    rfl
  · rw [collapse_of_solid (solid_spellNull (solid_trimList h)), (afterAll_squeeze _).1, spellNull,
      afterAll_replaceList (by decide) hnull]

/-- Dropping commas leads to the same place. -/
theorem afterAll_dropCommas (cs : List Char) (p : Place) :
    p.afterAll (dropCommas cs) = p.afterAll cs := by
  have hbracket : ∀ p : Place, p.afterAll [']'] = p.afterAll [',', ']'] := by
    intro p
    cases p <;> rfl
  have hbrace : ∀ p : Place, p.afterAll ['\x7d'] = p.afterAll [',', '\x7d'] := by
    intro p
    cases p <;> rfl
  rw [dropCommas, afterAll_replaceList (by decide) hbrace,
    afterAll_replaceList (by decide) hbracket]

/-- **A text that breaks off inside a string** gives the empty object. -/
theorem extractList_of_inside (h : (Place.outside.afterAll (fenced cs)).isOutside = false) :
    extractList limit cs = .object [] := by
  have hread : ∀ {ds : List Char}, (Place.outside.afterAll ds).isOutside = false → ∀ v,
      parseList limit ds ≠ .ok v := by
    intro ds hds v hv
    obtain ⟨q, hq, hreaches⟩ := reaches_of_parseList hv
    rw [hreaches.afterAll_eq rfl, hq] at hds
    cases hds
  rw [← isOutside_afterAll_normalize] at h
  have hfirst := hread h
  rw [← afterAll_dropCommas] at h
  have hsecond := hread h
  rw [extractList]
  split
  · rename_i v hv
    exact absurd hv (hfirst v)
  · split
    · rename_i v hv
      exact absurd hv (hsecond v)
    · rfl
  · rfl

end

/-! ### Fences -/

/-- What a **closed fence** encloses. -/
theorem fenced_closed (cs : List Char) : fenced (openingFence ++ (cs ++ fence)) = cs := by
  have hfirst : cutFirst? openingFence (openingFence ++ (cs ++ fence)) = some ([], cs ++ fence) :=
    cutFirst?_append_self _ _ _
  have hlast : cutLast? fence (openingFence ++ (cs ++ fence)) = some (openingFence ++ cs, []) := by
    have hfence := cutLast?_append (@Contents.cutLast?_fence [] (forall_mem_nil _))
      (openingFence ++ cs)
    simpa using hfence
  rw [fenced, hfirst, hlast]
  dsimp only
  rw [← append_assoc, take_left, length_nil, Nat.zero_add, drop_left]

/-- Behind a fence that is **not closed**: nothing, or the text up to a fence inside. -/
theorem fenced_unclosed (cs : List Char) : fenced (openingFence ++ cs) = [] ∨
    ∃ before after, cs = before ++ fence ++ after ∧ fenced (openingFence ++ cs) = before := by
  have hfirst : cutFirst? openingFence (openingFence ++ cs) = some ([], cs) :=
    cutFirst?_append_self _ _ _
  have hfound : cutLast? fence (openingFence ++ cs) ≠ none := by
    rw [Ne, cutLast?_eq_none_iff (by decide), not_not]
    exact ⟨[], ['j', 's', 'o', 'n'] ++ cs, rfl⟩
  obtain ⟨⟨kept, after⟩, hlast⟩ := Option.ne_none_iff_exists'.mp hfound
  have heq := eq_append_of_cutLast? hlast
  rw [fenced, hfirst, hlast]
  dsimp only
  rw [append_assoc] at heq
  rw [heq, take_left, length_nil, Nat.zero_add]
  rcases append_eq_append_iff.mp heq with ⟨before, rfl, hcs⟩ | ⟨rest, hopening, -⟩
  · exact .inr ⟨before, after, by rw [hcs, append_assoc], drop_left⟩
  · exact .inl (drop_eq_nil_of_le (by rw [hopening]; simp))

/-- The texts of a reply with some JSON in a fence that is **closed**, and in one that is not. -/
def closedReply (json : String) : String := "```json\n" ++ json ++ "\n```"

@[inherit_doc closedReply]
def openReply (json : String) : String := "```json\n" ++ json

/-- The characters of a closed reply. -/
theorem toList_closedReply (json : String) :
    (closedReply json).toList = openingFence ++ (('\n' :: (json.toList ++ ['\n'])) ++ fence) := by
  simp [closedReply, openingFence, fence]

/-- The characters of an open reply. -/
theorem toList_openReply (json : String) :
    (openReply json).toList = openingFence ++ '\n' :: json.toList := by
  simp [openReply, openingFence, fence]

/-- **A plain value is extracted** from its printed text, with its texts tidied. -/
theorem extract_closedReply (ascii : Bool) {v : Value} (hplain : v.Plain)
    (hkeys : (v.mapTexts (tidy ascii)).DistinctKeys) :
    extract limit (.str (closedReply (render ⟨ascii, none⟩ v))) =
      if v.depth ≤ limit then v.mapTexts (tidy ascii) else .object [] := by
  obtain ⟨ts, hprints, hwrites⟩ := exists_tokens ascii 0 v hplain ⟨['\n'], rfl⟩
  have hne : ts ≠ [] := by
    rintro rfl
    obtain ⟨_, _, _, _, heq, -⟩ := hwrites.begins
    cases heq
  have hextra : ¬ HasExtra (ts.map cleanToken) := by
    rintro ⟨t, ht, h⟩
    obtain ⟨u, hu, rfl⟩ := mem_map.mp ht
    exact hprints.noExtra ⟨u, hu, h⟩
  obtain ⟨space, hspace, htext⟩ := exists_space_append hprints.sturdy hne ⟨['\n'], rfl⟩
  have hread : space ++ normalize (closedReply (render ⟨ascii, none⟩ v)).toList =
      textOf (ts.map cleanToken) := by
    rw [toList_closedReply, normalize, fenced_closed, ← htext, hprints.text]
    rfl
  have houtcome := hwrites.parseList hkeys hspace hread limit
  rw [Value.depth_mapTexts] at houtcome
  have hextracted := @extractList_of_outcome _ _ _ False _ _ _ houtcome
    (fun h => absurd h hextra) False.elim
  simpa [extract] using hextracted

/-- **Nothing is extracted** from a value in a fence that is not closed. -/
theorem extract_openReply (ascii : Bool) (v : Value) :
    extract limit (.str (openReply (render ⟨ascii, none⟩ v))) = .object [] := by
  rw [extract, toList_openReply]
  rcases fenced_unclosed ('\n' :: (render ⟨ascii, none⟩ v).toList) with h | ⟨before, after, heq, h⟩
  · rw [extractList, normalize, h]
    rfl
  · refine extractList_of_inside ?_
    obtain ⟨q, -, hreaches⟩ := (crosses_renderAt ascii 0 v).cons (c := '\n') (by decide) []
    rw [append_nil] at hreaches
    -- A backtick is read inside a string only.
    have hadmits : (Place.outside.afterAll before).admits '\x60' = true := by
      refine @Reaches.admits _ q _ _ ('\x60' :: '\x60' :: after) ?_
      rwa [← render, heq, append_assoc] at hreaches
    rw [h]
    cases hplace : Place.outside.afterAll before with
    | outside | closed =>
      rw [hplace] at hadmits
      cases hadmits
    | inside | escaped => rfl

/-- The **content** of a reply is the printed text in it, whether the fence is closed or not. -/
theorem content_reply {json : String} (h : ¬ fence <:+: json.toList) :
    content (openReply json) = trim json ∧ content (closedReply json) = trim json := by
  have hcontent : ∀ {reply : String}, Contents.Fenced json.toList reply →
      content reply = trim json := by
    intro reply hreply
    rw [← String.toList_inj, Contents.toList_content_of_fenced hreply h, trim, String.toList_ofList]
  have hblank : ∀ c ∈ ['\n'], isBlank c = true := by simp [isBlank]
  constructor
  · refine hcontent ⟨['\n'], [], ?_, hblank, .inl (forall_mem_nil _)⟩
    rw [toList_openReply, append_nil]
    rfl
  · refine hcontent ⟨['\n'], '\n' :: fence, ?_, hblank,
      .inr ⟨['\n'], [], rfl, hblank, forall_mem_nil _⟩⟩
    rw [toList_closedReply]
    simp

/-- A text that tidying **leaves alone**: it has no null, and no run of white space other than one
space. -/
structure IsTidy (ascii : Bool) (s : String) : Prop where
  null : ¬ ['N', 'o', 'n', 'e'] <:+: s.toList
  space : ∀ c ∈ s.toList, isRun ascii c = true → c = ' '
  single : ¬ [' ', ' '] <:+: s.toList

/-- Where every run is one space, nothing is squeezed. -/
theorem squeeze_eq_self {p : Char → Bool} (hspace : ∀ c ∈ cs, p c = true → c = ' ')
    (hsingle : ¬ [' ', ' '] <:+: cs) (within : Bool)
    (hwithin : within = true → cs.head? ≠ some ' ') :
    squeeze p within cs = cs := by
  induction cs generalizing within with
  | nil => rfl
  | cons c cs ih =>
    obtain ⟨hc, hcs⟩ := forall_mem_cons.mp hspace
    obtain ⟨hfront, hinside⟩ := not_or.mp (mt infix_cons_iff.mpr hsingle)
    rw [squeeze]
    split
    · rename_i hrun
      obtain rfl := hc hrun
      have hnot : within ≠ true := fun h => hwithin h rfl
      have hhead : cs.head? ≠ some ' ' := by
        intro h
        obtain ⟨ds, rfl⟩ := head?_eq_some_iff.mp h
        exact hfront ⟨ds, rfl⟩
      rw [if_neg hnot, ih hcs hinside true fun _ => hhead]
    · rw [ih hcs hinside false fun h => absurd h Bool.false_ne_true]

/-- What is tidy stays. -/
theorem tidy_eq_self {ascii : Bool} {s : String} (h : IsTidy ascii s) : tidy ascii s = s := by
  rw [tidy, tidyList, spellNull, replaceList_of_absent h.null,
    squeeze_eq_self h.space h.single false fun h => absurd h Bool.false_ne_true,
    String.ofList_toList]

/-- **A printed value is extracted** from a closed fence, but for its texts, which are tidied,
unless it is nested beyond the limit. -/
theorem printed_value_is_extracted (limit : Nat) (v : Value) (hplain : v.Plain)
    (hkeys : (v.mapTexts (tidy false)).DistinctKeys) :
    extract limit (.str (closedReply (render .line v))) =
      (if v.depth ≤ limit then v.mapTexts (tidy false) else .object []) ∧
      ((∀ s ∈ v.texts, IsTidy false s) → v.mapTexts (tidy false) = v) :=
  ⟨extract_closedReply false hplain hkeys,
    fun h => Value.mapTexts_eq_self fun s hs => tidy_eq_self (h s hs)⟩

/-- Texts are extracted **tidy**, and those that are tidy, fences among them, as they are. -/
theorem printed_texts_are_extracted :
    extract 2 (.str (closedReply (render .line
        (.object [("a\n", .list [.str "x None  y", .int (-12)]), ("b", .null)])))) =
      .object [("a\n", .list [.str "x null y", .int (-12)]), ("b", .null)] ∧
    extract 1 (.str (closedReply (render .line (.list [.str "```json\n\"x y\""])))) =
      .list [.str "```json\n\"x y\""] := by
  have htidy : tidy false "a\n" = "a\n" ∧ tidy false "x None  y" = "x null y" ∧
      tidy false "b" = "b" := by decide +kernel
  have hdigits : (Nat.toDigits 10 (-12 : Int).natAbs).length ≤ digitLimit := by decide
  have hfence : IsTidy false "```json\n\"x y\"" :=
    ⟨by decide, by simp [isRun, isBlank], by decide⟩
  constructor
  · have hfields := (printed_value_is_extracted 2
      (.object [("a\n", .list [.str "x None  y", .int (-12)]), ("b", .null)])
      ⟨⟨trivial, hdigits, trivial⟩, trivial, trivial⟩ (by
        simp [Value.mapTexts, Value.mapTextsFields, Value.mapTextsItems, Value.DistinctKeys,
          Value.DistinctKeysList, Value.DistinctKeysFields, Fields.keys, htidy])).1
    rw [if_pos (by decide +kernel)] at hfields
    simpa [Value.mapTexts, Value.mapTextsFields, Value.mapTextsItems, htidy] using hfields
  · obtain ⟨hextract, hsame⟩ := printed_value_is_extracted 1 (.list [.str "```json\n\"x y\""])
      ⟨trivial, trivial⟩ ⟨trivial, trivial⟩
    rw [if_pos (by decide), hsame (forall_mem_singleton.mpr hfence)] at hextract
    exact hextract

/-- A list inside a list and so on, `n` deep. -/
def nested : Nat → Value
  | 0 => .list []
  | n + 1 => .list [nested n]

/-- Nested lists, as deep as wanted. -/
theorem nested_spec (n : Nat) : (nested n).Plain ∧ (nested n).depth = n + 1 ∧
    (nested n).texts = [] ∧ (nested n).DistinctKeys := by
  induction n with
  | zero => exact ⟨trivial, rfl, rfl, trivial⟩
  | succ n ih =>
    obtain ⟨hplain, hdepth, htexts, hkeys⟩ := ih
    refine ⟨⟨hplain, trivial⟩, ?_, ?_, hkeys, trivial⟩
    · simp [nested, Value.depth, Value.depthItems, hdepth]
    · simp [nested, Value.texts, Value.textsItems, htexts]

/-- **Whatever the limit**, a value of lists alone that is nested more deeply is lost: at the limit
of one, a list in a list. -/
theorem deep_value_is_lost :
    render .line (nested 1) = "[[]]" ∧ extract 1 (.str (closedReply "[[]]")) = .object [] ∧
      ∀ limit, (nested limit).Plain ∧ ((nested limit).mapTexts (tidy false)).DistinctKeys ∧
        (nested limit).texts = [] ∧
        extract limit (.str (closedReply (render .line (nested limit)))) ≠
          (nested limit).mapTexts (tidy false) := by
  refine ⟨by decide +kernel, by decide +kernel, fun limit => ?_⟩
  obtain ⟨hplain, hdepth, htexts, hkeys⟩ := nested_spec limit
  have hsame : (nested limit).mapTexts (tidy false) = nested limit :=
    Value.mapTexts_eq_self (by simp [htexts])
  rw [← hsame] at hkeys
  have hlost : extract limit _ = _ := extract_closedReply false hplain hkeys
  rw [if_neg (by omega)] at hlost
  refine ⟨hplain, hkeys, htexts, ?_⟩
  rw [hsame, show render .line (nested limit) = render ⟨false, none⟩ (nested limit) from rfl, hlost]
  cases limit <;> nofun

/-- **Nothing is extracted** when the closing fence is missing, though the content is the same. -/
theorem open_reply_is_lost (limit : Nat) (v : Value) :
    extract limit (.str (openReply (render ⟨true, none⟩ v))) = .object [] ∧
      (¬ fence <:+: (render ⟨true, none⟩ v).toList →
        content (openReply (render ⟨true, none⟩ v)) = trim (render ⟨true, none⟩ v) ∧
          content (closedReply (render ⟨true, none⟩ v)) = trim (render ⟨true, none⟩ v)) ∧
      (v.Plain → (v.mapTexts (tidy true)).DistinctKeys →
        extract limit (.str (closedReply (render ⟨true, none⟩ v))) =
          if v.depth ≤ limit then v.mapTexts (tidy true) else .object []) :=
  ⟨extract_openReply true v, content_reply, extract_closedReply true⟩

/-- A list is **lost** in an open fence and found in a closed one. -/
theorem list_is_lost_without_fence :
    extract 1 (.str (openReply "[1]")) = .object [] ∧ content (openReply "[1]") = "[1]" ∧
      content (closedReply "[1]") = "[1]" ∧
      extract 1 (.str (closedReply "[1]")) = .list [.int 1] := by
  have hprinted : render ⟨true, none⟩ (.list [.int 1]) = "[1]" := by decide +kernel
  have htrim : trim "[1]" = "[1]" := by decide +kernel
  have hdigit : (Nat.toDigits 10 1).length ≤ digitLimit := by decide
  obtain ⟨hlost, hcontent, hfound⟩ := open_reply_is_lost 1 (.list [.int 1])
  rw [hprinted] at hlost hcontent hfound
  rw [htrim] at hcontent
  obtain ⟨hopen, hclosed⟩ := hcontent (by decide)
  exact ⟨hlost, hopen, hclosed, hfound ⟨hdigit, trivial⟩ ⟨trivial, trivial⟩⟩

/-- What is extracted **differs** when the closing fence is missing. -/
theorem missing_fence_matters :
    extract 1 (.str (openReply (render ⟨true, none⟩ (.list [.int 1])))) ≠
      extract 1 (.str (closedReply (render ⟨true, none⟩ (.list [.int 1])))) := by
  have hdigit : (Nat.toDigits 10 1).length ≤ digitLimit := by decide
  have hfound := @extract_closedReply 1 true (.list [.int 1]) ⟨hdigit, trivial⟩ ⟨trivial, trivial⟩
  rw [extract_openReply, hfound]
  decide +kernel

end DocTree.Reply
