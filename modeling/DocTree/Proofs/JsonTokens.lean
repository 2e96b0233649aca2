import DocTree.Proofs.JsonLayout
import DocTree.Proofs.Stitching

/-!
# What tokens are made of

Tokens are marks of one character, words, numerals and quoted strings. Outside strings no token has
white space or a capital N in it.
-/

namespace DocTree

open List

variable {c : Char} {s t : List Char} {v : Value}

namespace Value

mutual

/-- The **texts** in a value: its strings and the keys of its objects. -/
def texts : Value → List String
  | .str s => [s]
  | .list items => textsItems items
  | .object fields => textsFields fields
  | _ => []

def textsItems : List Value → List String
  | [] => []
  | v :: rest => texts v ++ textsItems rest

def textsFields : List (String × Value) → List String
  | [] => []
  | (k, v) :: rest => k :: (texts v ++ textsFields rest)

end

end Value

namespace Json

/-! ### Ink -/

/-- Whether cleaning and the removal of commas **leave** a character alone. -/
def isInk (c : Char) : Bool := !Text.isBlank c && c != ',' && c != 'N'

/-- Ink is all but white space, commas and the capital N. -/
theorem isInk_iff : isInk c = true ↔ Text.isBlank c = false ∧ c ≠ ',' ∧ c ≠ 'N' := by
  simp [isInk, and_assoc]

/-- Visible ASCII characters past the comma are ink. -/
theorem isInk_of_range (h : 0x2d ≤ c.toNat ∧ c.toNat ≤ 0x7e) (hN : c ≠ 'N') : isInk c = true := by
  have hcomma : c ≠ ',' := by
    rintro rfl
    revert h
    decide
  simp [isInk, Text.isBlank, hcomma, hN]
  omega

/-- Digits are ink. -/
theorem isInk_of_isDigit (h : c.isDigit = true) : isInk c = true := by
  have hrange := Text.toNat_of_isDigit h
  refine isInk_of_range (by omega) ?_
  rintro rfl
  cases h

/-- Hexadecimal digits are ink. -/
theorem isInk_of_hexValue? (h : (hexValue? c).isSome = true) : isInk c = true := by
  have hN : c ≠ 'N' := by
    rintro rfl
    revert h
    decide
  refine isInk_of_range ?_ hN
  simp only [hexValue?, Bool.and_eq_true, decide_eq_true_eq, Char.le_def,
    UInt32.le_iff_toNat_le] at h
  split at h
  · rename_i hc
    exact ⟨Nat.le_trans (by decide) hc.1, Nat.le_trans hc.2 (by decide)⟩
  split at h
  · rename_i hc
    exact ⟨Nat.le_trans (by decide) hc.1, Nat.le_trans hc.2 (by decide)⟩
  split at h
  · rename_i hc
    exact ⟨Nat.le_trans (by decide) hc.1, Nat.le_trans hc.2 (by decide)⟩
  · cases h

/-- Escapes are ink. -/
theorem Escapes.ink {u : List Char} (h : Escapes c u) : ∀ d ∈ u, isInk d = true := by
  cases h with
  | @letter e c he =>
    have hletter : isInk e = true := by
      unfold escapedLetter? at he
      split at he
      case h_9 => cases he
      all_goals decide
    simpa [hletter] using (by decide : isInk '\\' = true)
  | unit hu =>
    have hhex := fun d hd => isInk_of_hexValue? ((exists_of_hexUnit? hu).1 d hd)
    simpa using ⟨by decide, by decide, hhex⟩
  | pair hu hw =>
    have hhex := fun d hd => isInk_of_hexValue? ((exists_of_hexUnit? hu).1 d hd)
    have hhex' := fun d hd => isInk_of_hexValue? ((exists_of_hexUnit? hw).1 d hd)
    have hslash : isInk '\\' = true := by decide
    have hletter : isInk 'u' = true := by decide
    simp only [forall_mem_cons, forall_mem_append]
    exact ⟨hslash, hletter, hhex, hslash, hletter, hhex'⟩

/-- A spelled string is made of its characters and of ink. -/
theorem Spells.mem_or_ink (h : Spells s t) (hc : c ∈ t) : c ∈ s ∨ isInk c = true := by
  induction h with
  | nil => cases hc
  | raw _ _ _ _ ih =>
    rcases mem_cons.mp hc with rfl | hc
    · exact .inl (.head _)
    · exact (ih hc).imp_left (mem_cons_of_mem _)
  | escape hu _ ih =>
    rcases mem_append.mp hc with hc | hc
    · exact .inr (hu.ink c hc)
    · exact (ih hc).imp_left (mem_cons_of_mem _)

/-- An escape begins with a backslash. -/
theorem Escapes.head? {u : List Char} (h : Escapes c u) : u.head? = some '\\' := by
  cases h <;> rfl

/-- Without a backslash, what a spelling begins with is what the string begins with. -/
theorem Spells.prefix_of_spelled {needle : List Char} (h : Spells s t) (hneedle : '\\' ∉ needle)
    (hfront : needle <+: t) : needle <+: s := by
  induction h generalizing needle with
  | nil => exact hfront
  | raw _ _ _ _ ih =>
    cases needle with
    | nil => exact nil_prefix
    | cons d needle =>
      obtain ⟨rfl, hrest⟩ := cons_prefix_cons.mp hfront
      exact cons_prefix_cons.mpr ⟨rfl, ih (mt (mem_cons_of_mem d) hneedle) hrest⟩
  | @escape c u s t hu _ ih =>
    cases needle with
    | nil => exact nil_prefix
    | cons d needle =>
      have hhead : u.head? = some d := by
        obtain ⟨e, u, rfl⟩ := exists_cons_of_ne_nil hu.ne_nil
        exact congrArg some (cons_prefix_cons.mp hfront).1.symm
      rw [hu.head?] at hhead
      cases hhead
      exact absurd (.head _) hneedle

/-- A null in a spelling is one of the string, for no escape has a capital N in it. -/
theorem Spells.null_of_spelled (h : Spells s t) (hinside : ['N', 'o', 'n', 'e'] <:+: t) :
    ['N', 'o', 'n', 'e'] <:+: s := by
  induction h with
  | nil => exact hinside
  | raw hquote hslash hcontrol h ih =>
    rcases infix_cons_iff.mp hinside with hfront | hinside
    · exact ((h.raw hquote hslash hcontrol).prefix_of_spelled (by decide) hfront).isInfix
    · exact infix_cons (ih hinside)
  | @escape c u s t hu h ih =>
    have hN : 'N' ∉ u := fun hmem => absurd (hu.ink _ hmem) (by decide)
    exact infix_cons (ih ((Text.infix_append_iff hN).mp hinside))

/-- Numerals are ink. -/
theorem Numeral.ink (h : Numeral v t) : ∀ c ∈ t, isInk c = true := by
  have hsign : ∀ negative, ∀ c ∈ signText negative, isInk c = true := fun negative =>
    all_eq_true.mp (by cases negative <;> decide)
  have hdigits : ∀ {ds : List Char}, ds.all Char.isDigit = true → ∀ c ∈ ds, isInk c = true :=
    fun h c hc => isInk_of_isDigit (all_eq_true.mp h c hc)
  have hpoint : ∀ {fs : List Char}, fs.all Char.isDigit = true →
      ∀ c ∈ pointText fs, isInk c = true := by
    intro fs hfs
    rw [pointText]
    split
    · exact forall_mem_nil _
    · exact forall_mem_cons.mpr ⟨by decide, hdigits hfs⟩
  cases h with
  | whole negative hds =>
    exact forall_mem_append.mpr ⟨hsign negative, hdigits hds.2.1⟩
  | decimal negative hds hfs =>
    simp only [forall_mem_append]
    exact ⟨hsign negative, hdigits hds.2.1, hpoint hfs⟩
  | @scientific negative _ _ _ e _ hds hfs he hexponent hes =>
    have hmark : isInk e = true := by rcases he with rfl | rfl <;> decide
    have hsigns : ∀ sign ∈ exponentSigns, sign.1.all isInk = true := by decide
    simp only [forall_mem_append, forall_mem_cons]
    exact ⟨hsign negative, hdigits hds.2.1, hpoint hfs, hmark,
      all_eq_true.mp (hsigns _ hexponent), hdigits hes⟩

/-- The text of a scalar is a quoted string, or has nothing to clean. -/
theorem Scalar.quoted_or_ink (h : Scalar v t) :
    (∃ s u, v = .str s ∧ Spells s.toList u ∧ t = '"' :: (u ++ ['"'])) ∨
      t ≠ [] ∧ ∀ c ∈ t, isInk c = true := by
  cases h with
  | null | isTrue | isFalse => exact .inr ⟨cons_ne_nil _ _, all_eq_true.mp (by decide)⟩
  | numeral h =>
    obtain ⟨c, cs, hcs, -⟩ := (Scalar.numeral h).opens
    exact .inr ⟨by simp [hcs], h.ink⟩
  | string h => exact .inl ⟨_, _, rfl, h, rfl⟩

/-- A token **made** from some texts: ink, a comma, a comma with a closing bracket or brace, or one
of the texts in quotation marks. -/
inductive Made (texts : List String) : Token → Prop where
  | ink (gap : Gap) {cs : List Char} (hne : cs ≠ []) (h : ∀ c ∈ cs, isInk c = true) :
    Made texts ⟨gap, cs, false⟩
  | comma (gap : Gap) : Made texts (mark ',' gap)
  | closing (gap gap' : Gap) {c : Char} (hc : c = ']' ∨ c = '\x7d') :
    Made texts (closing c gap (some gap'))
  | quoted (gap : Gap) {s : String} {u : List Char} (hs : s ∈ texts) (hu : Spells s.toList u) :
    Made texts ⟨gap, '"' :: (u ++ ['"']), false⟩

section

variable {texts : List String} {motive : List Token → Prop}

/-- The steps of an **induction along tokens**: one token, two parts, and a comma that is not
extra. -/
structure Steps (texts : List String) (motive : List Token → Prop) : Prop where
  single {t : Token} (ht : Made texts t) (hcomma : t.text ≠ [',']) : motive [t]
  append {ts us : List Token} (hts : motive ts) (hus : motive us) : motive (ts ++ us)
  comma (gap : Gap) {us : List Token} (hbegins : Begins opensValue us) (hus : motive us) :
    motive (mark ',' gap :: us)

variable (h : Steps texts motive)
include h

/-- The step at a mark. -/
theorem Steps.mark (hc : isInk c = true) (gap : Gap) : motive [mark c gap] :=
  h.single (.ink gap (cons_ne_nil c []) (by simpa using hc)) (by
    rintro ⟨⟩
    revert hc
    decide)

/-- The step at a closing mark. -/
theorem Steps.closing {c : Char} (hc : c = ']' ∨ c = '\x7d') (gap : Gap) (extra : Option Gap) :
    motive [closing c gap extra] := by
  cases extra with
  | none =>
    refine h.mark ?_ gap
    rcases hc with rfl | rfl <;> decide
  | some gap' => exact h.single (.closing gap gap' hc) (by simp [Json.closing])

/-- The step at a key. -/
theorem Steps.keyTokens {k : String} (hk : Spells k.toList t) (hmem : k ∈ texts) (gap gap' : Gap) :
    motive (keyTokens gap t gap') :=
  h.append (h.single (.quoted gap hmem hk) (by simp)) (h.mark (by decide) gap')

mutual

/-- **Induction along the tokens** of a value. -/
theorem Writes.tokens : ∀ {v : Value} {ts : List Token}, Writes v ts →
    (∀ s ∈ v.texts, s ∈ texts) → motive ts
  | _, _, .scalar gap hv, htexts => by
    rcases hv.quoted_or_ink with ⟨s, u, rfl, hu, rfl⟩ | ⟨hne, hink⟩
    · exact h.single (.quoted gap (htexts s (by simp [Value.texts])) hu) (by simp)
    · refine h.single (.ink gap hne hink) ?_
      rintro rfl
      exact absurd (hink ',' (.head _)) (by decide)
  | _, _, .empty gap gap', _ => h.append (h.mark (by decide) gap) (h.mark (by decide) gap')
  | _, _, .list gap hitems, htexts => h.append (h.mark (by decide) gap) (hitems.tokens htexts)
  | _, _, .emptyObject gap gap', _ => h.append (h.mark (by decide) gap) (h.mark (by decide) gap')
  | _, _, .object gap hfields, htexts => h.append (h.mark (by decide) gap) (hfields.tokens htexts)

/-- The induction along the tokens of items. -/
theorem WritesItems.tokens : ∀ {items : List Value} {ts : List Token}, WritesItems items ts →
    (∀ s ∈ Value.textsItems items, s ∈ texts) → motive ts
  | _, _, .last extra gap hv, htexts =>
    h.append (hv.tokens fun s hs => htexts s (by simpa [Value.textsItems] using hs))
      (h.closing (.inl rfl) gap extra)
  | _, _, .cons gap hv hrest, htexts => by
    simp only [Value.textsItems, forall_mem_append] at htexts
    exact h.append (hv.tokens htexts.1) (h.comma gap hrest.begins (hrest.tokens htexts.2))

/-- The induction along the tokens of fields. -/
theorem WritesFields.tokens : ∀ {fields : Fields} {ts : List Token}, WritesFields fields ts →
    (∀ s ∈ Value.textsFields fields, s ∈ texts) → motive ts
  | _, _, .last gap gap' extra gap'' hk hv, htexts => by
    simp only [Value.textsFields, forall_mem_cons, forall_mem_append] at htexts
    exact h.append (h.append (h.keyTokens hk htexts.1 gap gap') (hv.tokens htexts.2.1))
      (h.closing (.inr rfl) gap'' extra)
  | _, _, .cons gap gap' gap'' hk hv hrest, htexts => by
    simp only [Value.textsFields, forall_mem_cons, forall_mem_append] at htexts
    exact h.append (h.append (h.keyTokens hk htexts.1 gap gap') (hv.tokens htexts.2.1))
      (h.comma gap'' hrest.begins (hrest.tokens htexts.2.2))

end

end

/-- Every token of a value is **made** from the texts of the value. -/
theorem Writes.made {ts : List Token} (h : Writes v ts) : ∀ t ∈ ts, Made v.texts t := by
  have hsteps : Steps v.texts fun ts => ∀ t ∈ ts, Made v.texts t :=
    { single := fun ht _ => forall_mem_singleton.mpr ht
      append := fun hts hus => forall_mem_append.mpr ⟨hts, hus⟩
      comma := fun gap _ _ hus => forall_mem_cons.mpr ⟨.comma gap, hus⟩ }
  exact h.tokens hsteps fun _ hs => hs

/-! ### Tokens laid out anew -/

/-- A token **laid out anew**: with other white space, or without its extra comma. -/
structure Relaid (t u : Token) : Prop where
  plain (h : t.isExtra = false) : u = ⟨u.gap, t.text, false⟩
  extra {c : Char} {gap gap' : Gap} (hc : c = ']' ∨ c = '\x7d')
    (h : t = closing c gap (some gap')) : ∃ gap'' comma, u = closing c gap'' comma

/-- Only the white space before a token changes. -/
theorem relaid_plain (gap gap' : Gap) (cs : List Char) :
    Relaid ⟨gap, cs, false⟩ ⟨gap', cs, false⟩ :=
  ⟨fun _ => rfl, fun _ h => absurd (congrArg Token.isExtra h) Bool.false_ne_true⟩

/-- An extra comma may be dropped. -/
theorem relaid_closing (c : Char) (gap gap' gap'' : Gap) (comma : Option Gap) :
    Relaid (closing c gap (some gap')) (closing c gap'' comma) := by
  refine ⟨nofun, fun _ h => ⟨gap'', comma, ?_⟩⟩
  -- the last character tells which bracket closes
  have hlast := congrArg (fun t => t.text.getLast?) h
  simp only [closing, ← cons_append, getLast?_concat, Option.some.injEq] at hlast
  rw [hlast]

section

variable {f : Token → Token}

/-- A closing token stays one, with a comma or without. -/
theorem Relaid.closing {c : Char} {gap : Gap} {comma : Option Gap} {u : Token}
    (h : Relaid (closing c gap comma) u) (hc : c = ']' ∨ c = '\x7d') :
    ∃ gap' comma', u = Json.closing c gap' comma' := by
  cases comma with
  | none => exact ⟨u.gap, none, h.plain rfl⟩
  | some gap' => exact h.extra hc rfl

/-- A key stays a key. -/
theorem relaid_keyTokens {gap gap' : Gap} (h : ∀ u ∈ keyTokens gap t gap', Relaid u (f u)) :
    ∃ before between, (keyTokens gap t gap').map f = keyTokens before t between := by
  obtain ⟨hkey, hcolon⟩ := forall_mem_cons.mp h
  have hcolon := (hcolon _ (.head _)).plain rfl
  refine ⟨(f ⟨gap, '"' :: (t ++ ['"']), false⟩).gap, (f (mark ':' gap')).gap, ?_⟩
  rw [keyTokens, map_cons, map_singleton, hkey.plain rfl, hcolon]
  rfl

mutual

/-- Tokens laid out anew **write the same value**. -/
theorem Writes.relaid : ∀ {v : Value} {ts : List Token}, Writes v ts →
    (∀ t ∈ ts, Relaid t (f t)) → Writes v (ts.map f)
  | _, _, .scalar gap hv, h => by
    rw [map_singleton, (h _ (.head _)).plain rfl]
    exact .scalar _ hv
  | _, _, .empty gap gap', h => by
    obtain ⟨hopen, hclose⟩ := forall_mem_cons.mp h
    rw [map_cons, map_singleton, hopen.plain rfl, (hclose _ (.head _)).plain rfl]
    exact .empty _ _
  | _, _, .list gap hitems, h => by
    obtain ⟨hopen, hrest⟩ := forall_mem_cons.mp h
    rw [map_cons, hopen.plain rfl]
    exact .list _ (hitems.relaid hrest)
  | _, _, .emptyObject gap gap', h => by
    obtain ⟨hopen, hclose⟩ := forall_mem_cons.mp h
    rw [map_cons, map_singleton, hopen.plain rfl, (hclose _ (.head _)).plain rfl]
    exact .emptyObject _ _
  | _, _, .object gap hfields, h => by
    obtain ⟨hopen, hrest⟩ := forall_mem_cons.mp h
    rw [map_cons, hopen.plain rfl]
    exact .object _ (hfields.relaid hrest)

/-- Items are still written after relaying. -/
theorem WritesItems.relaid : ∀ {items : List Value} {ts : List Token}, WritesItems items ts →
    (∀ t ∈ ts, Relaid t (f t)) → WritesItems items (ts.map f)
  | _, _, .last extra gap hv, h => by
    obtain ⟨hts, hclose⟩ := forall_mem_append.mp h
    obtain ⟨_, _, heq⟩ := (hclose _ (.head _)).closing (.inl rfl)
    rw [map_append, map_singleton, heq]
    exact .last _ _ (hv.relaid hts)
  | _, _, .cons gap hv hrest, h => by
    obtain ⟨hts, h⟩ := forall_mem_append.mp h
    obtain ⟨hcomma, hus⟩ := forall_mem_cons.mp h
    rw [map_append, map_cons, hcomma.plain rfl]
    exact .cons _ (hv.relaid hts) (hrest.relaid hus)

/-- Fields are still written after relaying. -/
theorem WritesFields.relaid : ∀ {fields : Fields} {ts : List Token}, WritesFields fields ts →
    (∀ t ∈ ts, Relaid t (f t)) → WritesFields fields (ts.map f)
  | _, _, .last gap gap' extra gap'' hk hv, h => by
    obtain ⟨hts, hclose⟩ := forall_mem_append.mp h
    obtain ⟨hkey, hts⟩ := forall_mem_append.mp hts
    obtain ⟨_, _, heq⟩ := relaid_keyTokens hkey
    obtain ⟨_, _, heq'⟩ := (hclose _ (.head _)).closing (.inr rfl)
    rw [map_append, map_append, heq, map_singleton, heq']
    exact .last _ _ _ _ hk (hv.relaid hts)
  | _, _, .cons gap gap' gap'' hk hv hrest, h => by
    obtain ⟨hts, h⟩ := forall_mem_append.mp h
    obtain ⟨hkey, hts⟩ := forall_mem_append.mp hts
    obtain ⟨hcomma, hus⟩ := forall_mem_cons.mp h
    obtain ⟨_, _, heq⟩ := relaid_keyTokens hkey
    rw [map_append, map_append, heq, map_cons, hcomma.plain rfl]
    exact .cons _ _ _ hk (hv.relaid hts) (hrest.relaid hus)

end

end

end Json

end DocTree
