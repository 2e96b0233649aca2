import DocTree.Json.Printer
import DocTree.Proofs.JsonTokens

/-!
# Printed values

On one line, whole numbers are printed as numerals and strings are spelled, so both can be read
back. Whatever is printed leads from outside strings to outside.
-/

namespace DocTree

open List

namespace Value

mutual

/-- The value with every text **rewritten**, keys included. -/
def mapTexts (f : String → String) : Value → Value
  | .str s => .str (f s)
  | .list items => .list (mapTextsItems f items)
  | .object fields => .object (mapTextsFields f fields)
  | v => v

/-- Some values with every text rewritten. -/
def mapTextsItems (f : String → String) : List Value → List Value
  | [] => []
  | v :: rest => mapTexts f v :: mapTextsItems f rest

/-- Some fields with every text rewritten. -/
def mapTextsFields (f : String → String) : List (String × Value) → List (String × Value)
  | [] => []
  | (k, v) :: rest => (f k, mapTexts f v) :: mapTextsFields f rest

end

mutual

/-- A **plain** value has no fraction, and no whole number of too many digits. -/
def Plain : Value → Prop
  | .int n => (Nat.toDigits 10 n.natAbs).length ≤ Text.digitLimit
  | .float _ => False
  | .list items => PlainItems items
  | .object fields => PlainFields fields
  | _ => True

def PlainItems : List Value → Prop
  | [] => True
  | v :: rest => Plain v ∧ PlainItems rest

def PlainFields : List (String × Value) → Prop
  | [] => True
  | (_, v) :: rest => Plain v ∧ PlainFields rest

end

section

variable (f : String → String)

mutual

/-- Changing texts keeps the nesting. -/
theorem depth_mapTexts : ∀ v : Value, (v.mapTexts f).depth = v.depth
  | .null | .bool _ | .int _ | .float _ | .str _ => rfl
  | .list items => congrArg (· + 1) (depth_mapTextsItems items)
  | .object fields => congrArg (· + 1) (depth_mapTextsFields fields)

/-- The same for items. -/
theorem depth_mapTextsItems : ∀ items, depthItems (mapTextsItems f items) = depthItems items
  | [] => rfl
  | v :: rest => congrArg₂ max (depth_mapTexts v) (depth_mapTextsItems rest)

/-- The same for fields. -/
theorem depth_mapTextsFields : ∀ fields, depthFields (mapTextsFields f fields) = depthFields fields
  | [] => rfl
  | (_, v) :: rest => congrArg₂ max (depth_mapTexts v) (depth_mapTextsFields rest)

end

variable {f}

mutual

/-- A change of no text is none. -/
theorem mapTexts_eq_self : ∀ {v : Value}, (∀ s ∈ v.texts, f s = s) → v.mapTexts f = v
  | .null, _ | .bool _, _ | .int _, _ | .float _, _ => rfl
  | .str s, h => congrArg Value.str (h s (.head _))
  | .list _, h => congrArg Value.list (mapTextsItems_eq_self h)
  | .object _, h => congrArg Value.object (mapTextsFields_eq_self h)

/-- The same for items. -/
theorem mapTextsItems_eq_self : ∀ {items : List Value}, (∀ s ∈ textsItems items, f s = s) →
    mapTextsItems f items = items
  | [], _ => rfl
  | v :: rest, h => by
    obtain ⟨hv, hrest⟩ := forall_mem_append.mp h
    rw [mapTextsItems, mapTexts_eq_self hv, mapTextsItems_eq_self hrest]

/-- The same for fields. -/
theorem mapTextsFields_eq_self : ∀ {fields : Fields}, (∀ s ∈ textsFields fields, f s = s) →
    mapTextsFields f fields = fields
  | [], _ => rfl
  | (k, v) :: rest, h => by
    obtain ⟨hk, h⟩ := forall_mem_cons.mp h
    obtain ⟨hv, hrest⟩ := forall_mem_append.mp h
    rw [mapTextsFields, hk, mapTexts_eq_self hv, mapTextsFields_eq_self hrest]

end

end

end Value

namespace Json

/-! ### Printed numbers and strings -/

/-- Only zero begins with a zero. -/
theorem eq_zero_of_head?_toDigits {n : Nat} (h : (Nat.toDigits 10 n).head? = some '0') :
    n = 0 := by
  induction n using Nat.strong_induction_on with
  | h n ih =>
    rcases Nat.lt_or_ge n 10 with hn | hn
    · have hdigit : ∀ m < 10, Nat.digitChar m = '0' → m = 0 := by decide
      rw [Nat.toDigits_of_lt_base hn] at h
      exact hdigit n hn (Option.some.inj h)
    · rw [Nat.toDigits_of_base_le (by decide) hn,
        head?_append_of_ne_nil _ Nat.toDigits_ne_nil] at h
      have hzero := ih (n / 10) (by omega) h
      omega

/-- A whole number is printed as its **numeral**. -/
theorem numeral_intText {n : Int} (h : (Nat.toDigits 10 n.natAbs).length ≤ Text.digitLimit) :
    Numeral (.int n) (Decimal.intText n).toList := by
  have hwhole : IsWhole (Nat.toDigits 10 n.natAbs) := by
    refine ⟨Nat.toDigits_ne_nil, ?_, fun hzero => ?_⟩
    · exact all_eq_true.mpr fun c hc => Nat.isDigit_of_mem_toDigits (by decide) (by decide) hc
    · rw [eq_zero_of_head?_toDigits hzero]
      rfl
  have hvalue : digitsValue (Nat.toDigits 10 n.natAbs) = n.natAbs :=
    Nat.ofDigitChars_toDigits (by decide) (by decide)
  have hnumeral := Numeral.whole (decide (n < 0)) hwhole h
  rw [hvalue] at hnumeral
  rw [Decimal.intText]
  split
  · rename_i hn
    have hint : -(n.natAbs : Int) = n := by omega
    simp only [hn, decide_true, if_true, hint] at hnumeral
    simpa [Decimal.natText, signText] using hnumeral
  · rename_i hn
    have hint : (n.natAbs : Int) = n := by omega
    simp only [hn, decide_false, Bool.false_eq_true, if_false, hint] at hnumeral
    simpa [Decimal.natText, signText] using hnumeral

/-- The last hexadecimal digit. -/
theorem hexDigits_succ {w : Nat} (hw : 0 < w) (n : Nat) :
    Text.hexDigits (w + 1) n = Text.hexDigits w (n / 16) ++ [Nat.digitChar (n % 16)] := by
  rcases Nat.lt_or_ge n 16 with hn | hn
  · obtain ⟨w, rfl⟩ := Nat.exists_eq_add_one.mpr hw
    simp [Text.hexDigits, Nat.toDigits_of_lt_base hn, Nat.div_eq_of_lt hn, Nat.mod_eq_of_lt hn,
      replicate_succ']
  · simp [Text.hexDigits, Nat.toDigits_of_base_le (b := 16) (by decide) hn]

/-- Four printed digits are read back as the unit that they stand for. -/
theorem hexUnit?_hexDigits {n : Nat} (h : n < 0x10000) :
    hexUnit? (Text.hexDigits 4 n) = some (n, []) := by
  have hdigit : ∀ m < 16, hexValue? (Nat.digitChar m) = some m := by decide
  have hlast : Text.hexDigits 1 (n / 16 / 16 / 16) = [Nat.digitChar (n / 16 / 16 / 16)] := by
    rw [Text.hexDigits, Nat.toDigits_of_lt_base (by omega)]
    rfl
  have hmod : ∀ m, hexValue? (Nat.digitChar (m % 16)) = some (m % 16) := fun m =>
    hdigit _ (Nat.mod_lt m (by decide))
  rw [hexDigits_succ (by decide), hexDigits_succ (by decide), hexDigits_succ (by decide), hlast]
  simp [hexUnit?, hmod, hdigit (n / 16 / 16 / 16) (by omega)]
  omega

/-- Whether a character belongs to a **run** in a printed string: white space that is printed as it
is. -/
def isRun (ascii : Bool) (c : Char) : Bool :=
  Text.isBlank c && 0x20 ≤ c.toNat && !(ascii && 0x7f ≤ c.toNat)

/-- A surrogate pair escapes one character. -/
theorem escapes_pair {m n : Nat} (hm : m < 0x400) (hn : n < 0x400) :
    Escapes (Char.ofNat (0x10000 + m * 0x400 + n))
      (escapeUnit (0xd800 + m) ++ escapeUnit (0xdc00 + n)) := by
  have hescape := Escapes.pair (hexUnit?_hexDigits (show 0xd800 + m < 0x10000 by omega))
    (hexUnit?_hexDigits (show 0xdc00 + n < 0x10000 by omega)) (by omega) (by omega)
  rwa [Nat.add_sub_cancel_left, Nat.add_sub_cancel_left] at hescape

/-- A character is **escaped** when it is printed, or stands for itself. -/
theorem escapeChar_cases (ascii : Bool) (c : Char) :
    (escapeChar ascii c = [c] ∧ (∀ {s t}, Spells s t → Spells (c :: s) (c :: t)) ∧
      isRun ascii c = Text.isBlank c) ∨
      Escapes c (escapeChar ascii c) ∧ isRun ascii c = false := by
  have hcode : Char.ofNat c.toNat = c := Char.ofNat_toNat c
  have hvalid : c.toNat < 0xd800 ∨ 0xdfff < c.toNat ∧ c.toNat < 0x110000 := c.valid
  have hletter : ∀ {d e : Char}, c = d → escapedLetter? e = some d → isRun ascii d = false →
      Escapes c ['\\', e] ∧ isRun ascii c = false := by
    rintro d e rfl he hrun
    exact ⟨.letter he, hrun⟩
  have hunit : c.toNat < 0x10000 → Escapes c (escapeUnit c.toNat) := by
    intro hc
    have hescape := Escapes.unit (hexUnit?_hexDigits hc) (by omega)
    rwa [hcode] at hescape
  unfold escapeChar
  split_ifs with hquote hslash hfeed hreturn htab hback hform hcontrol hbeyond
  · exact .inr (hletter hquote rfl rfl)
  · exact .inr (hletter hslash rfl rfl)
  · exact .inr (hletter hfeed rfl rfl)
  · exact .inr (hletter hreturn rfl rfl)
  · exact .inr (hletter htab rfl rfl)
  · exact .inr (hletter (hcode.symm.trans (congrArg Char.ofNat hback)) rfl rfl)
  · exact .inr (hletter (hcode.symm.trans (congrArg Char.ofNat hform)) rfl rfl)
  · exact .inr ⟨hunit (by omega), by simp [isRun, Nat.not_le.mpr hcontrol]⟩
  · have hbeyond := Bool.and_eq_true_iff.mp hbeyond
    refine .inr ⟨?_, by simp [isRun, hbeyond]⟩
    rw [escapePoint]
    split_ifs with hc
    · exact hunit hc
    · have hescape := escapes_pair (show (c.toNat - 0x10000) / 0x400 < 0x400 by omega)
        (Nat.mod_lt (c.toNat - 0x10000) (show 0 < 0x400 by decide))
      have hpoint : 0x10000 + (c.toNat - 0x10000) / 0x400 * 0x400 + (c.toNat - 0x10000) % 0x400 =
          c.toNat := by omega
      rwa [hpoint, hcode] at hescape
  · refine .inl ⟨rfl, .raw hquote hslash (by omega), ?_⟩
    have hcontrol : 0x20 ≤ c.toNat := by omega
    simp only [isRun, hcontrol, hbeyond]
    simp

/-- A printed string **spells** its characters. -/
theorem spells_flatMap (ascii : Bool) (cs : List Char) :
    Spells cs (cs.flatMap (escapeChar ascii)) := by
  induction cs with
  | nil => exact .nil
  | cons c cs ih =>
    rw [flatMap_cons]
    rcases escapeChar_cases ascii c with ⟨hc, hraw, -⟩ | ⟨hc, -⟩
    · rw [hc]
      exact hraw ih
    · exact .escape hc ih

/-- Items on one line stand between brackets, with commas and spaces between them. -/
theorem toList_enclose (ascii : Bool) (level : Nat) (opening closing : String)
    {items : List String} (hne : items ≠ []) :
    (enclose ⟨ascii, none⟩ level opening closing items).toList =
      opening.toList ++ ((Text.join ", " items).toList ++ closing.toList) := by
  rw [enclose, if_neg (by simpa using hne)]
  simp [lineBreak, separator]

/-! ### Where a printed text leads -/

/-- The marks of numbers are plain. -/
theorem isPlain_marks : isPlain '0' = true ∧ isPlain '.' = true ∧ isPlain '-' = true ∧
    isPlain '+' = true ∧ isPlain 'e' = true := by
  decide

/-- Numerals are plain. -/
theorem plain_toDigits (n : Nat) : (Nat.toDigits 10 n).all isPlain = true :=
  all_eq_true.mpr fun _ hc =>
    isPlain_of_isDigit _ (Nat.isDigit_of_mem_toDigits (by decide) (by decide) hc)

/-- Filling with zeros stays plain. -/
theorem plain_zeroFill {width : Nat} {s : String} (h : s.toList.all isPlain = true) :
    (Decimal.zeroFill width s).toList.all isPlain = true := by
  unfold Decimal.zeroFill
  split
  case h_3 => simp [isPlain_marks, h]
  all_goals simp_all [isPlain_marks]

/-- A laid out number is plain. -/
theorem plain_layout {digits : List Char} (h : digits.all isPlain = true) (point : Int) :
    (Double.layout digits point).toList.all isPlain = true := by
  have hexponent := @plain_zeroFill 2 (Decimal.natText (point - 1).natAbs)
    (by simpa [Decimal.natText] using plain_toDigits _)
  have hmem := all_eq_true.mp h
  unfold Double.layout
  dsimp only
  split
  · have hmark : (if point - 1 < 0 then "e-" else "e+").toList.all isPlain = true := by
      split <;> simp [isPlain_marks]
    rcases digits with _ | ⟨d, _ | ⟨f, digits⟩⟩
    all_goals simp_all [isPlain_marks]
  split
  · simp [isPlain_marks, h]
  split
  · simp [isPlain_marks, h]
  · have htake : (digits.take point.toNat).all isPlain = true :=
      all_eq_true.mpr fun c hc => hmem c (mem_of_mem_take hc)
    have hdrop : (digits.drop point.toNat).all isPlain = true :=
      all_eq_true.mpr fun c hc => hmem c (mem_of_mem_drop hc)
    simp [isPlain_marks, htake, hdrop]

/-- Significant digits are plain. -/
theorem plain_significant (n : Nat) : (Double.significant n).all isPlain = true := by
  refine all_eq_true.mpr fun c hc => all_eq_true.mp (plain_toDigits n) c ?_
  exact mem_reverse.mp ((dropWhile_suffix _).subset (mem_reverse.mp hc))

/-- Printed fractions are plain. -/
theorem plain_floatText (x : Double) : (floatText x).toList.all isPlain = true := by
  cases x with
  | nan => decide
  | infinite negative => cases negative <;> decide
  | finite negative m e =>
    cases m with
    | zero => cases negative <;> simp [floatText, Double.text, isPlain_marks]
    | succ m =>
      have hlayout := @plain_layout (Double.shortest (m + 1) e).1 (plain_significant _)
        (Double.shortest (m + 1) e).2
      cases negative <;> simpa [floatText, Double.text, isPlain_marks] using hlayout

/-- A text that is read **from outside to outside**, whatever follows. -/
def Crosses (cs : List Char) : Prop :=
  ∀ rest, ∃ q : Place, q.isOutside = true ∧ Reaches .outside (cs ++ rest) q rest

section

variable {c : Char} {cs ds : List Char}

/-- Plain text crosses. -/
theorem crosses_of_plain (h : cs.all isPlain = true) : Crosses cs :=
  fun _ => ⟨.outside, rfl, .plains (all_eq_true.mp h)⟩

/-- A quoted string crosses. -/
theorem crosses_quoteList (ascii : Bool) (cs : List Char) : Crosses (quoteList ascii cs) := by
  intro rest
  have hstring := (spells_flatMap ascii cs).stringRest (Nat.lt_succ_self _) [] rest
  refine ⟨.outside, rfl, ?_⟩
  rw [quoteList, cons_append, append_assoc, singleton_append]
  exact .step rfl (.stringRest hstring)

/-- Two texts with a plain character between them. -/
theorem Crosses.append_cons (h : Crosses cs) (hc : isPlain c = true) (h' : Crosses ds) :
    Crosses (cs ++ c :: ds) := by
  intro rest
  obtain ⟨q, hq, hcs⟩ := h (c :: (ds ++ rest))
  obtain ⟨r, hr, hds⟩ := h' rest
  rw [append_assoc, cons_append]
  exact ⟨r, hr, hcs.trans ((Reaches.plain hc hq).trans hds)⟩

/-- The empty text crosses. -/
theorem crosses_nil : Crosses [] := crosses_of_plain rfl

/-- A plain character before a crossing. -/
theorem Crosses.cons (hc : isPlain c = true) (h : Crosses cs) : Crosses (c :: cs) :=
  crosses_nil.append_cons hc h

/-- A brace behind a crossing. -/
theorem Crosses.append_brace (h : Crosses cs) : Crosses (cs ++ ['\x7d']) := by
  intro rest
  obtain ⟨q, hq, hcs⟩ := h ('\x7d' :: rest)
  rw [append_assoc]
  exact ⟨.closed, rfl, hcs.trans (.close hq)⟩

end

section

variable (ascii : Bool)

mutual

/-- **A printed value** is read from outside to outside. -/
theorem crosses_renderAt : ∀ (level : Nat) (v : Value),
    Crosses (renderAt ⟨ascii, none⟩ level v).toList
  | _, .null | _, .bool true | _, .bool false => by
    rw [renderAt]
    exact crosses_of_plain (by decide)
  | _, .int n => by
    refine crosses_of_plain ?_
    rw [renderAt, Decimal.intText]
    split <;> simpa [Decimal.natText, isPlain_marks] using plain_toDigits n.natAbs
  | _, .float x => crosses_of_plain (plain_floatText x)
  | _, .str s => by
    rw [renderAt, quote, String.toList_ofList]
    exact crosses_quoteList ascii s.toList
  | _, .list [] => by
    rw [renderAt, renderItems]
    exact crosses_of_plain (show ("[" ++ "]").toList.all isPlain = true by decide)
  | level, .list (v :: rest) => by
    have hitems := crosses_renderItems (level + 1) (v :: rest)
    rw [renderAt, toList_enclose _ _ _ _ (by simp [renderItems])]
    exact .cons (by decide) (hitems.append_cons (by decide) crosses_nil)
  | _, .object [] => by
    have hbraces := crosses_nil.append_brace.cons (c := '\x7b') (by decide)
    simpa [renderAt, renderFields, enclose] using hbraces
  | level, .object (f :: rest) => by
    have hfields := crosses_renderFields (level + 1) (f :: rest)
    rw [renderAt, toList_enclose _ _ _ _ (by simp [renderFields])]
    exact .cons (by decide) hfields.append_brace

/-- Printed items cross. -/
theorem crosses_renderItems : ∀ (level : Nat) (items : List Value),
    Crosses (Text.join ", " (renderItems ⟨ascii, none⟩ level items)).toList
  | _, [] => crosses_nil
  | level, [v] => crosses_renderAt level v
  | level, v :: w :: rest => by
    have hrest := (crosses_renderItems level (w :: rest)).cons (c := ' ') (by decide)
    simpa [renderItems, Text.join] using
      (crosses_renderAt level v).append_cons (c := ',') (by decide) hrest

/-- Printed fields cross. -/
theorem crosses_renderFields : ∀ (level : Nat) (fields : Fields),
    Crosses (Text.join ", " (renderFields ⟨ascii, none⟩ level fields)).toList
  | _, [] => crosses_nil
  | level, [(k, v)] => by
    have hvalue := (crosses_renderAt level v).cons (c := ' ') (by decide)
    simpa [renderFields, Text.join, quote] using
      (crosses_quoteList ascii k.toList).append_cons (c := ':') (by decide) hvalue
  | level, (k, v) :: f :: rest => by
    have hrest := (crosses_renderFields level (f :: rest)).cons (c := ' ') (by decide)
    have hvalue := ((crosses_renderAt level v).append_cons (c := ',') (by decide) hrest).cons
      (c := ' ') (by decide)
    simpa [renderFields, Text.join, quote] using
      (crosses_quoteList ascii k.toList).append_cons (c := ':') (by decide) hvalue

end

end

end Json

end DocTree
