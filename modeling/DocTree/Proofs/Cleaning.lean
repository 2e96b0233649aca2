import DocTree.Proofs.JsonTokens
import DocTree.Proofs.Rewriting

/-!
# Cleaning a reply

Nulls are spelled in JSON's own word, and runs of white space become one space. At the second try,
commas right before a closing bracket or brace are dropped. All this goes token by token.
-/

namespace DocTree

open List

namespace Json

/-- No white space. -/
def noGap : Gap := ⟨[], rfl⟩

def oneGap : Gap := ⟨[' '], rfl⟩

/-- The white space before a token, as one space. -/
def Gap.squeezed (gap : Gap) : Gap := if gap.1.isEmpty then noGap else oneGap

/-- White space of the format is white space. -/
theorem isBlank_of_isSpace (c : Char) (h : isSpace c = true) : Text.isBlank c = true := by
  simp only [isSpace, Bool.or_eq_true, beq_iff_eq] at h
  rcases h with ((rfl | rfl) | rfl) | rfl <;> decide

/-- A gap is white space. -/
theorem Gap.blank (gap : Gap) : ∀ c ∈ gap.1, Text.isBlank c = true := fun c hc =>
  isBlank_of_isSpace c (all_eq_true.mp gap.2 c hc)

/-- Nothing else is in a gap. -/
theorem Gap.not_mem (gap : Gap) {c : Char} (hc : Text.isBlank c = false) : c ∉ gap.1 := by
  intro hmem
  rw [gap.blank c hmem] at hc
  cases hc

/-- A gap is squeezed on its own. -/
theorem Gap.squeeze_append (gap : Gap) {cs : List Char}
    (h : cs.head?.any (!Text.isBlank ·) = true) :
    Text.squeeze Text.isBlank false (gap ++ cs) =
      gap.squeezed ++ Text.squeeze Text.isBlank false cs := by
  rw [Text.squeeze_run gap.blank, Text.squeeze_of_head h, Gap.squeezed, Bool.or_false]
  split <;> rfl

end Json

namespace Reply

open Json Text

/-! ### Cleaning token by token -/

/-- A text with every null in JSON's own word and every run of white space as one space. -/
def clean (cs : List Char) : List Char := squeeze isBlank false (spellNull cs)

/-- A token **cleaned**, with the white space before it. -/
def cleanToken (t : Token) : Token := ⟨t.gap.squeezed, clean t.text, t.isExtra⟩

/-- A text that is cleaned **by itself**, whatever stands beside it. -/
inductive Sturdy : List Char → Prop where
  | quoted (cs : List Char) : Sturdy ('"' :: (cs ++ ['"']))
  | bare {cs : List Char} (hword : 'N' ∉ cs) (h : Solid cs) : Sturdy cs

variable {cs rest : List Char} {ts : List Token}

/-- Nulls in a string are spelled in it. -/
theorem spellNull_quoted (cs rest : List Char) :
    spellNull ('"' :: (cs ++ '"' :: rest)) = '"' :: (spellNull cs ++ '"' :: spellNull rest) := by
  have hsever := @replaceList_append_cons ['N', 'o', 'n', 'e'] '"' (by decide) (by decide)
    ['n', 'u', 'l', 'l']
  exact (hsever [] _).trans (congrArg ('"' :: ·) (hsever cs rest))

/-- No null reaches over the end of a sturdy text. -/
theorem Sturdy.spellNull_append (h : Sturdy cs) (rest : List Char) :
    spellNull (cs ++ rest) = spellNull cs ++ spellNull rest := by
  cases h with
  | quoted cs =>
    have hnil := spellNull_quoted cs []
    rw [cons_append, append_assoc, singleton_append, spellNull_quoted, hnil]
    simp [spellNull, replaceList, replaceFrom]
  | bare hword =>
    have happend := replaceList_append_of_not_mem hword ['o', 'n', 'e'] ['n', 'u', 'l', 'l']
    have hcs := happend []
    rw [append_nil] at hcs
    rw [spellNull, spellNull, happend, hcs]
    simp [spellNull, replaceList, replaceFrom]

/-- Sturdy tokens are solid. -/
theorem Sturdy.solid (h : Sturdy cs) : Solid cs := by
  cases h with
  | quoted cs => exact ⟨rfl, by simp [getLast?_cons, isBlank]⟩
  | bare _ h => exact h

/-- Spelling nulls keeps text solid. -/
theorem solid_spellNull (h : Solid cs) : Solid (spellNull cs) :=
  Solid.replaceList (by decide) ⟨by decide, by decide⟩ h

/-- **Cleaning goes token by token.** -/
theorem clean_textOf (h : ∀ t ∈ ts, Sturdy t.text) :
    clean (textOf ts) = textOf (ts.map cleanToken) := by
  induction ts with
  | nil => rfl
  | cons t ts ih =>
    obtain ⟨ht, hts⟩ := forall_mem_cons.mp h
    have hsolid := solid_spellNull ht.solid
    have hspell : spellNull (t.gap ++ (t.text ++ textOf ts)) =
        t.gap ++ (spellNull t.text ++ spellNull (textOf ts)) := by
      rw [← ht.spellNull_append]
      exact replaceList_append_of_not_mem (t.gap.not_mem (by decide)) _ _ _
    rw [textOf_cons, append_assoc, clean, hspell,
      t.gap.squeeze_append (first_append hsolid.1 _), hsolid.squeeze_append, map_cons,
      textOf_cons, append_assoc, ← ih hts]
    rfl

/-- Sturdy tokens end solidly. -/
theorem solid_append_textOf (hcs : Solid cs) (h : ∀ t ∈ ts, Sturdy t.text) :
    Solid (cs ++ textOf ts) := by
  induction ts generalizing cs with
  | nil => simpa [textOf] using hcs
  | cons t ts ih =>
    obtain ⟨ht, hts⟩ := forall_mem_cons.mp h
    rw [textOf_cons, append_assoc]
    exact ⟨first_append hcs.1 _, last_append (last_append (ih ht.solid hts).2 t.gap) cs⟩

/-- **The text that is read** is that of the cleaned tokens, but for a space at its front. -/
theorem exists_space_append (h : ∀ t ∈ ts, Sturdy t.text) (hne : ts ≠ []) (gap : Gap) :
    ∃ space, (space = [] ∨ space = [' ']) ∧
      space ++ collapse (spellNull (trimList (textOf ts ++ gap))) = textOf (ts.map cleanToken) := by
  obtain ⟨t, ts, rfl⟩ := exists_cons_of_ne_nil hne
  obtain ⟨ht, hts⟩ := forall_mem_cons.mp h
  have hsolid := solid_append_textOf ht.solid hts
  have htrim : trimList (textOf (t :: ts) ++ gap) = t.text ++ textOf ts := by
    rw [textOf_cons, trimList_append_blanks gap.blank, append_assoc,
      trimList_blanks_append t.gap.blank, trimList_of_solid hsolid]
  have hclean : clean (t.text ++ textOf ts) = clean t.text ++ textOf (ts.map cleanToken) := by
    rw [clean, ht.spellNull_append, (solid_spellNull ht.solid).squeeze_append, ← clean_textOf hts]
    rfl
  refine ⟨t.gap.squeezed, ?_, ?_⟩
  · rw [Gap.squeezed]
    split
    · exact .inl rfl
    · exact .inr rfl
  · rw [htrim, collapse_of_solid (solid_spellNull hsolid), ← clean, hclean, map_cons,
      textOf_cons, append_assoc]
    rfl

/-! ### Extra commas -/

/-- A text that cleaning and the removal of commas **leave alone**. -/
structure Clear (s : String) : Prop where
  comma : ',' ∉ s.toList
  null : ¬ ['N', 'o', 'n', 'e'] <:+: s.toList
  blank : ∀ c ∈ s.toList, isBlank c = false

variable {texts : List String} {t : Token}

/-- A clear string has no white space and no comma. -/
theorem Clear.spelled {s : String} {u : List Char} (h : Clear s) (hu : Spells s.toList u) :
    ∀ c ∈ '"' :: (u ++ ['"']), isBlank c = false ∧ c ≠ ',' := by
  have hquote : isBlank '"' = false ∧ '"' ≠ ',' := by decide
  have hmem : ∀ c ∈ u, isBlank c = false ∧ c ≠ ',' := by
    intro c hc
    rcases hu.mem_or_ink hc with hc | hc
    · exact ⟨h.blank c hc, fun heq => h.comma (heq ▸ hc)⟩
    · exact ⟨(isInk_iff.mp hc).1, (isInk_iff.mp hc).2.1⟩
  simp only [forall_mem_cons, forall_mem_append]
  exact ⟨hquote, hmem, hquote, forall_mem_nil _⟩

/-- Without a capital N there are no nulls. -/
theorem clean_of_not_mem (hnull : 'N' ∉ cs) : clean cs = squeeze isBlank false cs := by
  rw [clean, spellNull, replaceList_of_absent fun hinside => hnull (hinside.subset (by decide))]

/-- A clear string is left alone, however it is spelled. -/
theorem Clear.clean_spelled {s : String} {u : List Char} (h : Clear s) (hu : Spells s.toList u) :
    clean ('"' :: (u ++ ['"'])) = '"' :: (u ++ ['"']) := by
  have hnull := mt hu.null_of_spelled h.null
  rw [clean, spellNull_quoted, spellNull, replaceList_of_absent hnull]
  exact squeeze_of_forall (fun c hc => (h.spelled hu c hc).1) false

/-- What is not in a closing mark. -/
theorem not_mem_closing {c d : Char} (hc : c = ']' ∨ c = '\x7d') (hd : isBlank d = false)
    (hne : d ≠ ']' ∧ d ≠ '\x7d') (gap : Gap) : d ∉ gap ++ [c] := by
  rw [mem_append, mem_singleton]
  rintro (hmem | rfl)
  · exact gap.not_mem hd hmem
  · exact hc.elim hne.1 hne.2

/-- A closing mark is cleaned. -/
theorem cleanToken_closing {c : Char} (hc : c = ']' ∨ c = '\x7d') (gap gap' : Gap) :
    cleanToken (closing c gap (some gap')) = closing c gap.squeezed (some gap'.squeezed) := by
  have hN : 'N' ∉ ',' :: (gap' ++ [c]) :=
    not_mem_cons_of_ne_of_not_mem (by decide) (not_mem_closing hc (by decide) (by decide) gap')
  have hblank : isBlank c = false := by rcases hc with rfl | rfl <;> decide
  have htext : clean (',' :: (gap' ++ [c])) = ',' :: (gap'.squeezed ++ [c]) := by
    rw [clean_of_not_mem hN, squeeze, if_neg (by decide),
      gap'.squeeze_append (by simp [hblank]), squeeze_of_forall (by simpa using hblank)]
  exact congrArg (fun cs => Token.mk gap.squeezed cs true) htext

/-- Tokens are sturdy. -/
theorem sturdy_of_made (h : Made texts t) : Sturdy t.text := by
  cases h with
  | ink gap hne hink =>
    refine .bare (fun hmem => absurd (hink _ hmem) (by decide)) ?_
    exact solid_of_forall hne fun c hc => (isInk_iff.mp (hink c hc)).1
  | comma => exact @Sturdy.bare [','] (by decide) ⟨by decide, by decide⟩
  | @closing gap gap' c hc =>
    refine .bare (not_mem_cons_of_ne_of_not_mem (by decide)
      (not_mem_closing hc (by decide) (by decide) gap')) ⟨rfl, ?_⟩
    refine last_append (last_append ?_ gap'.1) [',']
    rcases hc with rfl | rfl <;> decide
  | @quoted _ _ u => exact .quoted u

/-- Cleaning **lays** clear tokens **out anew**. -/
theorem relaid_cleanToken (htexts : ∀ s ∈ texts, Clear s) (h : Made texts t) :
    Relaid t (cleanToken t) := by
  have hplain : ∀ {gap : Gap} {cs : List Char}, clean cs = cs →
      Relaid ⟨gap, cs, false⟩ (cleanToken ⟨gap, cs, false⟩) := by
    intro gap cs hcs
    rw [cleanToken, hcs]
    exact relaid_plain _ _ _
  cases h with
  | ink gap hne hink =>
    refine hplain ((clean_of_not_mem fun hmem => absurd (hink _ hmem) (by decide)).trans ?_)
    exact squeeze_of_forall (fun c hc => (isInk_iff.mp (hink c hc)).1) false
  | comma gap => exact hplain (by decide)
  | closing gap gap' hc =>
    rw [cleanToken_closing hc]
    exact relaid_closing _ _ _ _ _
  | quoted gap hs hu => exact hplain ((htexts _ hs).clean_spelled hu)

/-- A token without its extra comma, if that stands right before the character `c`. -/
def tighten (c : Char) (t : Token) : Token := if t.text = [',', c] then mark c t.gap else t

/-- Whether **white space** stands behind the extra comma of a token. -/
def Loose (t : Token) : Prop := t.isExtra = true ∧ 2 < t.text.length

instance : DecidablePred Loose := fun _ => inferInstanceAs (Decidable (_ ∧ _))

/-- Other tokens are left alone. -/
theorem tighten_of_ne {c : Char} (h : t.text ≠ [',', c]) : tighten c t = t := if_neg h

/-- Only an extra comma right before the character `c` is removed. -/
theorem tighten_closing (c d : Char) (gap gap' : Gap) :
    tighten c (closing d gap (some gap')) =
      if gap'.1 = [] ∧ d = c then closing d gap none else closing d gap (some gap') := by
  have htext : (closing d gap (some gap')).text = [',', c] ↔ gap'.1 = [] ∧ d = c := by
    change ',' :: (gap'.1 ++ [d]) = [',', c] ↔ _
    cases gap'.1 <;> simp
  simp only [tighten, htext]
  split
  · rename_i h
    rw [h.2]
    rfl
  · rfl

/-- A comma stands alone or with a closing mark. -/
theorem plain_or_closing_of_made (h : Made texts t) (htexts : ∀ s ∈ texts, Clear s) :
    (∃ gap cs, t = ⟨gap, cs, false⟩ ∧ (cs = [','] ∨ ',' ∉ cs)) ∨
      ∃ c gap gap', (c = ']' ∨ c = '\x7d') ∧ t = closing c gap (some gap') := by
  cases h with
  | ink gap _ hink =>
    exact .inl ⟨_, _, rfl, .inr fun hmem => absurd (hink _ hmem) (by decide)⟩
  | comma gap => exact .inl ⟨_, _, rfl, .inl rfl⟩
  | closing gap gap' hc => exact .inr ⟨_, _, _, hc, rfl⟩
  | quoted gap hs hu =>
    exact .inl ⟨_, _, rfl, .inr fun hmem => ((htexts _ hs).spelled hu _ hmem).2 rfl⟩

/-- Tightening relays tokens. -/
theorem relaid_tighten (htexts : ∀ s ∈ texts, Clear s) (h : Made texts t) (c : Char) :
    Relaid t (tighten c t) := by
  rcases plain_or_closing_of_made h htexts with ⟨gap, cs, rfl, hcs⟩ | ⟨d, gap, gap', hd, rfl⟩
  · rw [tighten_of_ne]
    · exact relaid_plain _ _ _
    · rcases hcs with rfl | hcs
      · simp
      · rintro rfl
        exact hcs (.head _)
  · rw [tighten_closing]
    split <;> exact relaid_closing _ _ _ _ _

/-- No comma right before a closing mark. -/
theorem not_comma_before {c d : Char} (hc : c = ']' ∨ c = '\x7d') {gap : Gap}
    (h : gap.1 ≠ [] ∨ d ≠ c) (cs : List Char) : ¬ [',', c] <+: ',' :: (gap ++ d :: cs) := by
  intro hfront
  have hfront := (cons_prefix_cons.mp hfront).2
  obtain ⟨_ | ⟨e, gap⟩, hgap⟩ := gap
  · exact h.elim (absurd rfl) fun hne => hne (cons_prefix_cons.mp hfront).1.symm
  · obtain ⟨rfl, -⟩ := cons_prefix_cons.mp hfront
    rcases hc with rfl | rfl <;> simp [isSpace] at hgap

/-- Nothing is replaced in a gap. -/
theorem replaceList_gap (gap : Gap) (c : Char) (cs : List Char) :
    replaceList [',', c] [c] (gap ++ cs) = gap ++ replaceList [',', c] [c] cs :=
  replaceList_append_of_not_mem (gap.not_mem (by decide)) [c] [c] cs

/-- **Commas are removed token by token**, right before a closing mark. -/
theorem steps_tighten {c : Char} (hc : c = ']' ∨ c = '\x7d') (htexts : ∀ s ∈ texts, Clear s) :
    Steps texts fun ts => ∀ rest, replaceList [',', c] [c] (textOf ts ++ rest) =
      textOf (ts.map (tighten c)) ++ replaceList [',', c] [c] rest where
  single := by
    intro t ht hcomma rest
    rcases plain_or_closing_of_made ht htexts with ⟨gap, cs, rfl, hcs⟩ | ⟨d, gap, gap', hd, rfl⟩
    · have hcs := hcs.resolve_left hcomma
      have hne : cs ≠ [',', c] := fun heq => hcs (heq ▸ (.head _))
      rw [map_singleton, tighten_of_ne hne, textOf_cons, append_assoc, append_assoc,
        append_assoc, replaceList_gap, append_assoc]
      exact congrArg (gap.1 ++ ·) (replaceList_append_of_not_mem hcs [c] [c] rest)
    · rw [map_singleton, tighten_closing]
      split
      · rename_i h
        obtain ⟨hgap, rfl⟩ := h
        have htext : textOf [closing d gap (some gap')] ++ rest = gap ++ ([',', d] ++ rest) := by
          simp [textOf, closing, hgap]
        rw [htext, replaceList_gap, replaceList_needle_append (by simp)]
        simp [textOf, closing, mark]
      · rename_i h
        have htext : textOf [closing d gap (some gap')] ++ rest =
            gap ++ ',' :: (gap' ++ d :: rest) := by
          simp [textOf, closing]
        have hrest := replaceList_append_of_not_mem
          (not_mem_closing hd (by decide : isBlank ',' = false) (by decide) gap') [c] [c] rest
        rw [append_assoc, singleton_append] at hrest
        rw [htext, replaceList_gap, replaceList_cons (not_comma_before hc (not_and_or.mp h) rest),
          hrest]
        simp [textOf, closing]
  append := by
    intro ts us hts hus rest
    rw [map_append, textOf_append, textOf_append, append_assoc, hts, hus,
      append_assoc]
  comma := by
    intro gap us hbegins hus rest
    have hfront : ¬ [',', c] <+: ',' :: (textOf us ++ rest) := by
      obtain ⟨t, us, d, cs, rfl, ht, hd⟩ := hbegins
      have htext : textOf (t :: us) ++ rest = t.gap ++ d :: (cs ++ textOf us ++ rest) := by
        simp [textOf_cons, ht]
      rw [htext]
      refine not_comma_before hc (.inr ?_) _
      rintro rfl
      rcases hc with rfl | rfl <;> cases hd
    rw [map_cons, tighten_of_ne (by simp [mark]), textOf_cons, textOf_cons, append_assoc,
      append_assoc, append_assoc, replaceList_gap]
    refine (congrArg (gap.1 ++ ·) (replaceList_cons hfront [c])).trans ?_
    rw [hus]
    simp [mark]

/-- After cleaning and the removal of commas, just the **loose** commas are left. -/
theorem isExtra_tighten_iff (htexts : ∀ s ∈ texts, Clear s) (h : Made texts t) :
    (tighten '\x7d' (tighten ']' (cleanToken t))).isExtra = true ↔ Loose t := by
  have hplain : ∀ (c : Char) {t : Token}, t.isExtra = false → (tighten c t).isExtra = false := by
    intro c t ht
    rw [tighten]
    split
    · rfl
    · exact ht
  rcases plain_or_closing_of_made h htexts with ⟨gap, cs, rfl, -⟩ | ⟨c, gap, gap', hc, rfl⟩
  · simp [hplain _ (hplain _ (rfl : (cleanToken ⟨gap, cs, false⟩).isExtra = false)), Loose]
  · have hgap : gap'.squeezed.1 = [] ↔ gap'.1 = [] := by
      rw [Gap.squeezed]
      split <;> simp_all [noGap, oneGap]
    have hloose : Loose (closing c gap (some gap')) ↔ ¬ gap'.squeezed.1 = [] := by
      rw [hgap]
      simp [Loose, closing, length_pos_iff]
    have hnone : (tighten '\x7d' (closing c gap.squeezed none)).isExtra = false := hplain _ rfl
    rw [cleanToken_closing hc, tighten_closing, hloose]
    by_cases hempty : gap'.squeezed.1 = []
    · rcases hc with rfl | rfl
      · rw [if_pos ⟨hempty, rfl⟩, hnone]
        simp [hempty]
      · rw [if_neg (by simp), tighten_closing, if_pos ⟨hempty, rfl⟩]
        simp [hempty, closing, mark]
    · rw [if_neg fun h => hempty h.1, tighten_closing, if_neg fun h => hempty h.1]
      simp [hempty, closing]

/-! ### Extraction -/

/-- **What is extracted**, by what comes of reading with commas and without. -/
theorem extractList_of_outcome {fits extra extra' : Prop} [Decidable (fits ∧ ¬ extra')] {v : Value}
    {nesting : Nat}
    (h : Outcome fits extra v (parseList nesting (normalize cs)))
    (h' : extra → Outcome fits extra' v (parseList nesting (dropCommas (normalize cs))))
    (hextra : extra' → extra) :
    extractList nesting cs = if fits ∧ ¬ extra' then v else .object [] := by
  rw [extractList]
  generalize parseList nesting (normalize cs) = found at h
  generalize parseList nesting (dropCommas (normalize cs)) = again at h'
  cases h with
  | ok hfits hno => exact (if_pos ⟨hfits, mt hextra hno⟩).symm
  | malformed _ hyes =>
    cases h' hyes with
    | ok hfits hno => exact (if_pos ⟨hfits, hno⟩).symm
    | malformed _ hyes' => exact (if_neg fun h => h.2 hyes').symm
    | tooDeep _ hfits => exact (if_neg fun h => hfits h.1).symm
  | tooDeep fault hfits hfault =>
    rw [if_neg fun h => hfits h.1]
    cases fault with
    | malformed =>
      cases h' (hfault rfl) with
      | ok hfits' => exact absurd hfits' hfits
      | malformed | tooDeep => rfl
    | tooManyDigits | tooDeep => rfl

/-- Without an opening fence, the whole reply is read. -/
theorem fenced_of_absent (h : ¬ openingFence <:+: cs) : fenced cs = cs := by
  have hcut : cutFirst? openingFence cs = none := by
    induction cs with
    | nil => rfl
    | cons c cs ih =>
      obtain ⟨hfront, hinside⟩ := not_or.mp (mt infix_cons_iff.mpr h)
      have hafter : after? openingFence (c :: cs) = none := by
        rw [← Option.not_isSome_iff_eq_none]
        exact mt beginsWith_iff.mp hfront
      rw [cutFirst?, hafter, ih hinside]
      rfl
  rw [fenced, hcut]

/-- **The removal of commas goes token by token**, and what is left writes the same value. -/
theorem dropCommas_textOf {v : Value} (h : Writes v ts) (htexts : ∀ s ∈ v.texts, Clear s) :
    Writes v ((ts.map (tighten ']')).map (tighten '\x7d')) ∧
      dropCommas (textOf ts) = textOf ((ts.map (tighten ']')).map (tighten '\x7d')) := by
  have hstep : ∀ {ts : List Token} {c : Char}, c = ']' ∨ c = '\x7d' → Writes v ts →
      Writes v (ts.map (tighten c)) ∧
        replaceList [',', c] [c] (textOf ts) = textOf (ts.map (tighten c)) := by
    intro ts c hc h
    refine ⟨h.relaid fun t ht => relaid_tighten htexts (h.made t ht) c, ?_⟩
    simpa [replaceList, replaceFrom] using h.tokens (steps_tighten hc htexts) (fun _ hs => hs) []
  obtain ⟨hbracket, htext⟩ := hstep (.inl rfl) h
  obtain ⟨hbrace, htext'⟩ := hstep (.inr rfl) hbracket
  exact ⟨hbrace, by rw [dropCommas, htext, htext']⟩

/-- A space is kept. -/
theorem dropCommas_space_append {space : List Char} (h : space = [] ∨ space = [' ']) :
    dropCommas (space ++ cs) = space ++ dropCommas cs := by
  have hmem : ',' ∉ space := by rcases h with rfl | rfl <;> decide
  rw [dropCommas, replaceList_append_of_not_mem hmem, replaceList_append_of_not_mem hmem,
    dropCommas]

/-- **An extra comma is dropped** where a closing bracket or brace stands right behind it, and in no
other place. -/
theorem commas_dropped_where_tight {v : Value} (h : Writes v ts) (hkeys : v.DistinctKeys)
    (htexts : ∀ s ∈ v.texts, Clear s) (gap : Gap) (hfence : ¬ openingFence <:+: textOf ts ++ gap)
    (nesting : Nat) : extract nesting (.str (String.ofList (textOf ts ++ gap))) =
      if v.depth ≤ nesting ∧ ¬ ∃ t ∈ ts, Loose t then v else .object [] := by
  have hclean : Writes v (ts.map cleanToken) :=
    h.relaid fun t ht => relaid_cleanToken htexts (h.made t ht)
  have hne : ts ≠ [] := by
    rintro rfl
    obtain ⟨_, _, _, _, heq, -⟩ := h.begins
    cases heq
  obtain ⟨space, hspace, htext⟩ :=
    exists_space_append (fun t ht => sturdy_of_made (h.made t ht)) hne gap
  obtain ⟨hdropped, hdrop⟩ := dropCommas_textOf hclean htexts
  have hread : normalize (textOf ts ++ gap) =
      collapse (spellNull (trimList (textOf ts ++ gap))) := by
    rw [normalize, fenced_of_absent hfence]
  rw [← hread] at htext
  rw [← htext, dropCommas_space_append hspace] at hdrop
  have hloose : HasExtra ((((ts.map cleanToken).map (tighten ']')).map (tighten '\x7d'))) ↔
      ∃ t ∈ ts, Loose t := by
    simp only [HasExtra, mem_map, exists_exists_and_eq_and]
    exact exists_congr fun t => and_congr_right fun ht =>
      isExtra_tighten_iff htexts (h.made t ht)
  rw [extract, String.toList_ofList]
  exact extractList_of_outcome (hclean.parseList hkeys hspace htext nesting)
    (fun _ => (hdropped.parseList hkeys hspace hdrop nesting).congr Iff.rfl hloose)
    fun ⟨t, ht, hextra, _⟩ => ⟨cleanToken t, mem_map_of_mem ht, hextra⟩

/-- Commas right before a closing bracket or brace are **dropped**. -/
theorem tight_commas_are_dropped :
    extract 2 (.str "\x7b\"a\": [1 ,\n2,],\"\\u0062\":\x7b\"c\":null\n,\x7d,\x7d\n") =
      .object [("a", .list [.int 1, .int 2]), ("b", .object [("c", .null)])] := by
  let line : Gap := ⟨['\n'], rfl⟩
  have hone : Numeral (.int 1) ['1'] := @Numeral.whole false ['1'] (by simp [IsWhole]) (by decide)
  have htwo : Numeral (.int 2) ['2'] := @Numeral.whole false ['2'] (by simp [IsWhole]) (by decide)
  have hitems := WritesItems.cons oneGap (.scalar noGap (.numeral hone))
    (.last (some noGap) noGap (.scalar line (.numeral htwo)))
  have hescape : Escapes 'b' ['\\', 'u', '0', '0', '6', '2'] :=
    @Escapes.unit 0x62 ['0', '0', '6', '2'] (by decide) (by decide)
  have hraw : ∀ c ∈ ['a', 'c'], Spells [c] [c] := by
    simpa using ⟨.raw (by decide) (by decide) (by decide) .nil,
      .raw (by decide) (by decide) (by decide) .nil⟩
  have hinner := @WritesFields.last "c" _ _ _ noGap noGap (some noGap) line (hraw 'c' (by decide))
    (.scalar noGap .null)
  have hfields := @WritesFields.cons "a" _ _ _ _ _ noGap noGap noGap (hraw 'a' (by decide))
    (.list oneGap hitems) (@WritesFields.last "b" _ _ _ noGap noGap (some noGap) noGap
      (.escape hescape .nil) (.object noGap hinner))
  have hclear : ∀ s ∈ ["a", "b", "c"], Clear s := by
    simpa using ⟨⟨by decide, by decide, by simp [isBlank]⟩,
      ⟨by decide, by decide, by simp [isBlank]⟩, ⟨by decide, by decide, by simp [isBlank]⟩⟩
  have hextract := commas_dropped_where_tight (.object noGap hfields) (by
    simp [Value.DistinctKeys, Value.DistinctKeysList, Value.DistinctKeysFields, Fields.keys])
    hclear line (by decide +kernel) 2
  rwa [if_pos (by decide +kernel)] at hextract

/-- A comma with **white space** behind it is kept, and the reply is lost. -/
theorem loose_comma_is_kept :
    ∃ ts, Writes (.list [.int 1]) ts ∧ String.ofList (textOf ts) = "[1, ]" ∧
      ∀ nesting, extract nesting (.str "[1, ]") ≠ .list [.int 1] := by
  have hone : Numeral (.int 1) ['1'] := @Numeral.whole false ['1'] (by simp [IsWhole]) (by decide)
  refine ⟨_, .list noGap (.last (some oneGap) noGap (.scalar noGap (.numeral hone))), by decide,
    fun nesting => ?_⟩
  have hlost : extract nesting (.str "[1, ]") = .object [] := by cases nesting <;> rfl
  rw [hlost]
  nofun

end Reply

end DocTree
