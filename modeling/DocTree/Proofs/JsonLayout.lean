import DocTree.Json.Reader
import DocTree.Proofs.Value
import Mathlib.Data.List.TakeWhile

/-!
# Texts that write a value

A text is a list of tokens, each with the white space before it. Reading it gives the value that it
writes, unless it has an extra comma or is nested too deeply.
-/

namespace DocTree

open List

variable {c : Char} {fields : Fields} {cs t u : List Char} {fuel room : Nat}

/-! ### Nesting -/

namespace Value

mutual

/-- How **deeply** lists and objects are nested in a value. -/
def depth : Value → Nat
  | .list items => depthItems items + 1
  | .object fields => depthFields fields + 1
  | _ => 0

/-- How deeply lists and objects are nested in some values. -/
def depthItems : List Value → Nat
  | [] => 0
  | v :: rest => max (depth v) (depthItems rest)

/-- How deeply lists and objects are nested in some fields. -/
def depthFields : List (String × Value) → Nat
  | [] => 0
  | (_, v) :: rest => max (depth v) (depthFields rest)

end

end Value

/-- A key that is still to come is new. -/
theorem Fields.not_mem_keys_of_nodup {acc : Fields} {k : String} {v : Value}
    (h : (Fields.keys (acc ++ (k, v) :: fields)).Nodup) : k ∉ acc.keys := by
  rw [Fields.keys, map_append] at h
  intro hk
  exact (nodup_append.mp h).2.2 k hk k (.head _) rfl

namespace Json

/-! ### Numerals -/

/-- Digits of a **whole number**: a zero stands in front of no other digit. -/
def IsWhole (ds : List Char) : Prop :=
  ds ≠ [] ∧ ds.all Char.isDigit = true ∧ (ds.head? = some '0' → ds = ['0'])

def signText (negative : Bool) : List Char := if negative then ['-'] else []

/-- A point and the digits behind it, if there are any. -/
def pointText (fs : List Char) : List Char := if fs.isEmpty then [] else '.' :: fs

def exponentSigns : List (List Char × Int) := [([], 1), (['+'], 1), (['-'], -1)]

/-- **Numerals**: the texts of numbers. A number with neither a point nor an exponent is whole. -/
inductive Numeral : Value → List Char → Prop where
  | whole (negative : Bool) {ds : List Char} (hds : IsWhole ds)
      (hlimit : ds.length ≤ Text.digitLimit) :
    Numeral (.int (if negative then -(digitsValue ds : Int) else digitsValue ds))
      (signText negative ++ ds)
  | decimal (negative : Bool) {ds fs : List Char} (hds : IsWhole ds)
      (hfs : fs.all Char.isDigit = true) (hne : fs ≠ []) :
    Numeral (.float (Double.ofDecimal negative (digitsValue (ds ++ fs)) (-(fs.length : Int))))
      (signText negative ++ (ds ++ pointText fs))
  | scientific (negative : Bool) {ds fs es : List Char} {e : Char} {sign : List Char × Int}
      (hds : IsWhole ds) (hfs : fs.all Char.isDigit = true) (he : e = 'e' ∨ e = 'E')
      (hsign : sign ∈ exponentSigns) (hes : es.all Char.isDigit = true) (hne : es ≠ []) :
    Numeral (.float (Double.ofDecimal negative (digitsValue (ds ++ fs))
        (sign.2 * (digitsValue es : Int) - (fs.length : Int))))
      (signText negative ++ (ds ++ (pointText fs ++ e :: (sign.1 ++ es))))

/-- A text that does not **go on** with a number before it. -/
def EndsNumber (rest : List Char) : Prop :=
  ∀ c ∈ rest.head?, c.isDigit = false ∧ c ≠ '.' ∧ c ≠ 'e' ∧ c ≠ 'E'

variable {ds fs es rest : List Char}

/-- Digits are taken up to the next other character. -/
theorem takeWhile_digits (hds : ds.all Char.isDigit = true)
    (hrest : ∀ c ∈ rest.head?, c.isDigit = false) :
    (ds ++ rest).takeWhile Char.isDigit = ds ∧ (ds ++ rest).dropWhile Char.isDigit = rest := by
  have hall := all_eq_true.mp hds
  rw [takeWhile_append_of_pos hall, dropWhile_append_of_pos hall]
  cases rest with
  | nil => simp
  | cons c rest => simp [hrest c rfl]

/-- A whole number is read. -/
theorem wholeDigits?_append (hds : IsWhole ds) (hrest : ∀ c ∈ rest.head?, c.isDigit = false) :
    wholeDigits? (ds ++ rest) = some (ds, rest) := by
  obtain ⟨hne, hall, hzero⟩ := hds
  obtain ⟨c, ds, rfl⟩ := exists_cons_of_ne_nil hne
  obtain ⟨hc, hds⟩ : c.isDigit = true ∧ ds.all Char.isDigit = true := by simpa using hall
  obtain ⟨htake, hdrop⟩ := takeWhile_digits hds hrest
  rw [cons_append, wholeDigits?.eq_def]
  split
  · rename_i heq
    cases heq
    cases hzero rfl
    rfl
  · rename_i heq
    cases heq
    rw [if_pos hc, htake, hdrop]
  · rename_i heq
    cases heq

/-- A fraction is read. -/
theorem fractionDigits_append (hfs : fs.all Char.isDigit = true)
    (hrest : ∀ c ∈ rest.head?, c.isDigit = false ∧ c ≠ '.') :
    fractionDigits (pointText fs ++ rest) = (fs, rest) := by
  have hend := fun c hc => (hrest c hc).1
  cases fs with
  | nil =>
    cases rest with
    | nil => rfl
    | cons c rest =>
      change fractionDigits (c :: rest) = _
      rw [fractionDigits.eq_def]
      split
      · rename_i heq
        cases heq
        exact absurd rfl (hrest _ rfl).2
      · rfl
  | cons c fs =>
    obtain ⟨hc, hfs⟩ : c.isDigit = true ∧ fs.all Char.isDigit = true := by simpa using hfs
    obtain ⟨htake, hdrop⟩ := takeWhile_digits hfs hend
    change fractionDigits ('.' :: c :: (fs ++ rest)) = _
    rw [fractionDigits, if_pos hc, htake, hdrop]

/-- There is no exponent where a number ends. -/
theorem exponent?_eq_none (hrest : EndsNumber rest) : exponent? rest = none := by
  cases rest with
  | nil => rfl
  | cons c rest =>
    obtain ⟨-, -, he, hE⟩ := hrest c rfl
    simp [exponent?, he, hE]

/-- An exponent is read. -/
theorem exponent?_append {e : Char} {sign : List Char × Int} (he : e = 'e' ∨ e = 'E')
    (hsign : sign ∈ exponentSigns) (hes : es.all Char.isDigit = true) (hne : es ≠ [])
    (hrest : EndsNumber rest) :
    exponent? (e :: (sign.1 ++ es) ++ rest) = some (sign.2 * (digitsValue es : Int), rest) := by
  obtain ⟨htake, hdrop⟩ := takeWhile_digits hes fun c hc => (hrest c hc).1
  have hmark : (e = 'e' || e = 'E') = true := by simpa using he
  obtain ⟨c, es, rfl⟩ := exists_cons_of_ne_nil hne
  have hc : c.isDigit = true := (by simpa using hes : _ ∧ _).1
  have hplus : c ≠ '+' := by
    rintro rfl
    cases hc
  have hminus : c ≠ '-' := by
    rintro rfl
    cases hc
  simp only [exponentSigns, mem_cons, not_mem_nil, or_false] at hsign
  rcases hsign with rfl | rfl | rfl
  all_goals
    simp only [cons_append, nil_append] at htake hdrop ⊢
    simp [exponent?, hmark, htake, hdrop, hplus, hminus]

/-- A word does not begin with a digit, or with a sign and a digit. -/
theorem word?_signText (hc : c.isDigit = true) (negative : Bool) (cs : List Char) :
    word? (signText negative ++ c :: cs) = none := by
  have hne : ∀ d : Char, d.isDigit = false → d ≠ c := by
    rintro d hd rfl
    rw [hc] at hd
    cases hd
  have hwords : wordValues = [(['n', 'u', 'l', 'l'], .null), (['t', 'r', 'u', 'e'], .bool true),
      (['f', 'a', 'l', 's', 'e'], .bool false), (['N', 'a', 'N'], .float .nan),
      (['I', 'n', 'f', 'i', 'n', 'i', 't', 'y'], .float (.infinite false)),
      (['-', 'I', 'n', 'f', 'i', 'n', 'i', 't', 'y'], .float (.infinite true))] := by
    decide +kernel
  cases negative <;>
    simp [word?, hwords, signText, Text.after?, hne 'n' rfl, hne 't' rfl, hne 'f' rfl, hne 'N' rfl,
      hne 'I' rfl, hne '-' rfl]

/-- A sign and a digit open a number. -/
theorem value_signText (hc : c.isDigit = true) (negative : Bool) (cs : List Char) :
    value (fuel + 1) room (signText negative ++ c :: cs) = number negative (c :: cs) := by
  have hword := word?_signText hc negative cs
  cases negative with
  | true =>
    change word? ('-' :: c :: cs) = none at hword
    change value (fuel + 1) room ('-' :: c :: cs) = _
    rw [value, hword]
  | false =>
    change word? (c :: cs) = none at hword
    change value (fuel + 1) room (c :: cs) = _
    rw [value]
    · rw [hword]
    all_goals
      rintro rest heq
      cases heq
      cases hc

/-- **A numeral is read** as its number. -/
theorem value_numeral {v : Value} (h : Numeral v t) (hrest : EndsNumber rest) (fuel room : Nat) :
    value (fuel + 1) room (t ++ rest) = .ok (v, rest) := by
  have hsigned : ∀ {ds more : List Char} (negative : Bool), IsWhole ds →
      value (fuel + 1) room (signText negative ++ (ds ++ more)) = number negative (ds ++ more) := by
    rintro ds more negative ⟨hne, hall, -⟩
    obtain ⟨c, ds, rfl⟩ := exists_cons_of_ne_nil hne
    exact value_signText (by simpa using hall : _ ∧ _).1 negative _
  have hend := fun c hc => (hrest c hc).1
  have hpoint : ∀ c ∈ rest.head?, c.isDigit = false ∧ c ≠ '.' := fun c hc =>
    ⟨hend c hc, (hrest c hc).2.1⟩
  have hnone := exponent?_eq_none hrest
  cases h with
  | whole negative hds hlimit =>
    have hfraction : fractionDigits rest = ([], rest) := @fractionDigits_append [] _ rfl hpoint
    rw [append_assoc, hsigned negative hds]
    simp only [number, wholeDigits?_append hds hend, hfraction, hnone,
      if_neg (Nat.not_lt.mpr hlimit)]
  | @decimal negative ds fs hds hfs hne =>
    have hfraction := fractionDigits_append hfs hpoint
    obtain ⟨f, fs, rfl⟩ := exists_cons_of_ne_nil hne
    rw [append_assoc, append_assoc, hsigned negative hds]
    have hdot : ∀ c ∈ (pointText (f :: fs) ++ rest).head?, c.isDigit = false := by
      rintro c ⟨⟩
      rfl
    simp only [number, wholeDigits?_append hds hdot, hfraction, hnone]
  | @scientific negative ds fs es e sign hds hfs he hsign hes hne =>
    have hexponent := exponent?_append he hsign hes hne hrest
    have hmark : e.isDigit = false ∧ e ≠ '.' := by rcases he with rfl | rfl <;> decide
    have hfraction : fractionDigits (pointText fs ++ (e :: (sign.1 ++ es) ++ rest)) =
        (fs, e :: (sign.1 ++ es) ++ rest) := by
      refine fractionDigits_append hfs ?_
      rintro c ⟨⟩
      exact hmark
    have hdot : ∀ c ∈ (pointText fs ++ (e :: (sign.1 ++ es) ++ rest)).head?, c.isDigit = false := by
      rw [pointText]
      split
      · rintro c ⟨⟩
        exact hmark.1
      · rintro c ⟨⟩
        rfl
    rw [append_assoc, append_assoc, append_assoc, hsigned negative hds]
    simp only [number, wholeDigits?_append hds hdot, hfraction, hexponent]

/-! ### Strings -/

/-- A text **escapes** a character, by a letter or by its UTF-16 units. -/
inductive Escapes : Char → List Char → Prop where
  | letter {e c : Char} (he : escapedLetter? e = some c) : Escapes c ['\\', e]
  | unit {n : Nat} {u : List Char} (hu : hexUnit? u = some (n, []))
      (hn : n < 0xd800 ∨ 0xe000 ≤ n) : Escapes (Char.ofNat n) ('\\' :: 'u' :: u)
  | pair {high low : Nat} {u w : List Char} (hu : hexUnit? u = some (high, []))
      (hw : hexUnit? w = some (low, [])) (hhigh : 0xd800 ≤ high ∧ high < 0xdc00)
      (hlow : 0xdc00 ≤ low ∧ low < 0xe000) :
    Escapes (Char.ofNat (0x10000 + (high - 0xd800) * 0x400 + (low - 0xdc00)))
      ('\\' :: 'u' :: (u ++ '\\' :: 'u' :: w))

/-- A text **spells** characters inside a JSON string: each of them stands for itself or is
escaped. -/
inductive Spells : List Char → List Char → Prop where
  | nil : Spells [] []
  | raw {c : Char} {s t : List Char} (hquote : c ≠ '"') (hslash : c ≠ '\\')
      (hcontrol : 0x20 ≤ c.toNat) (h : Spells s t) : Spells (c :: s) (c :: t)
  | escape {c : Char} {u s t : List Char} (hu : Escapes c u) (h : Spells s t) :
    Spells (c :: s) (u ++ t)

/-- Four hexadecimal digits are read before any text. -/
theorem exists_of_hexUnit? {n : Nat} (h : hexUnit? u = some (n, [])) :
    (∀ c ∈ u, (hexValue? c).isSome = true) ∧ ∀ rest, hexUnit? (u ++ rest) = some (n, rest) := by
  rcases u with _ | ⟨a, _ | ⟨b, _ | ⟨c, _ | ⟨d, u⟩⟩⟩⟩
  iterate 4 cases h
  obtain ⟨a', ha, h⟩ := Option.bind_eq_some_iff.mp h
  obtain ⟨b', hb, h⟩ := Option.bind_eq_some_iff.mp h
  obtain ⟨c', hc, h⟩ := Option.bind_eq_some_iff.mp h
  obtain ⟨d', hd, h⟩ := Option.bind_eq_some_iff.mp h
  cases h
  exact ⟨by simp [ha, hb, hc, hd], fun rest => by simp [hexUnit?, ha, hb, hc, hd]⟩

/-- An escaped character is read in one step. -/
theorem Escapes.stringRest (h : Escapes c u) (fuel : Nat) (acc rest : List Char) :
    stringRest (fuel + 1) acc (u ++ rest) = stringRest fuel (c :: acc) rest := by
  cases h with
  | @letter e c he =>
    rw [cons_append, cons_append, Json.stringRest.eq_def]
    simp only [Char.reduceEq, if_false, if_true]
    split
    · rename_i heq
      cases heq
      cases he
    · rename_i heq
      cases heq
      simp [he]
    · rename_i heq
      cases heq
  | @unit n u hu hn =>
    have hhigh : ¬ (0xd800 ≤ n ∧ n < 0xdc00) := by omega
    have hlone : ¬ (0xd800 ≤ n ∧ n < 0xe000) := by omega
    simp [Json.stringRest, escapedUnits?, (exists_of_hexUnit? hu).2 rest, loneUnit, hhigh, hlone]
  | pair hu hw hhigh hlow =>
    simp [Json.stringRest, escapedUnits?, (exists_of_hexUnit? hu).2, (exists_of_hexUnit? hw).2,
      hhigh, hlow]

/-- An escape is not empty. -/
theorem Escapes.ne_nil (h : Escapes c u) : u ≠ [] := by
  cases h <;> exact cons_ne_nil _ _

/-- A spelled string is read up to its quotation mark. -/
theorem Spells.stringRest {s : List Char} (h : Spells s t) (hfuel : t.length < fuel)
    (acc rest : List Char) :
    stringRest fuel acc (t ++ '"' :: rest) = .ok (acc.reverse ++ s, rest) := by
  obtain ⟨fuel, rfl⟩ := Nat.exists_eq_add_one.mpr (Nat.zero_lt_of_lt hfuel)
  induction h generalizing fuel acc with
  | nil => simp [Json.stringRest]
  | raw hquote hslash hcontrol h ih =>
    rw [length_cons] at hfuel
    obtain _ | fuel := fuel
    · omega
    have hrest := fun acc => ih acc fuel (by omega)
    simp [Json.stringRest, hquote, hslash, Nat.not_lt.mpr hcontrol, hrest]
  | escape hu h ih =>
    have hpos := length_pos_iff.mpr hu.ne_nil
    rw [length_append] at hfuel
    obtain _ | fuel := fuel
    · omega
    rw [append_assoc, hu.stringRest, ih _ _ (by omega)]
    simp

/-- **A spelled string is read** as its characters. -/
theorem Spells.string {s : List Char} (h : Spells s t) (rest : List Char) :
    string (t ++ '"' :: rest) = .ok (String.ofList s, rest) := by
  rw [Json.string, h.stringRest (by rw [length_append, length_cons]; omega)]
  rfl

/-! ### Tokens -/

/-- White space of the format. -/
abbrev Gap := { cs : List Char // cs.all isSpace = true }

/-- A **token** with the white space before it. An extra comma makes one token with the closing mark
behind it. -/
structure Token where
  gap : Gap
  text : List Char
  isExtra : Bool

/-- A token of one character. -/
def mark (c : Char) (gap : Gap) : Token := ⟨gap, [c], false⟩

/-- A closing bracket or brace, with an extra comma and white space before it or not. -/
def closing (c : Char) (gap : Gap) : Option Gap → Token
  | none => mark c gap
  | some gap' => ⟨gap, ',' :: (gap' ++ [c]), true⟩

/-- A key and the colon behind it. -/
def keyTokens (gap : Gap) (t : List Char) (gap' : Gap) : List Token :=
  [⟨gap, '"' :: (t ++ ['"']), false⟩, mark ':' gap']

def textOf (ts : List Token) : List Char := ts.flatMap fun t => t.gap ++ t.text

def HasExtra (ts : List Token) : Prop := ∃ t ∈ ts, t.isExtra = true

/-- The text of a value that is neither a list nor an object. -/
inductive Scalar : Value → List Char → Prop where
  | null : Scalar .null ['n', 'u', 'l', 'l']
  | isTrue : Scalar (.bool true) ['t', 'r', 'u', 'e']
  | isFalse : Scalar (.bool false) ['f', 'a', 'l', 's', 'e']
  | numeral {v : Value} {t : List Char} (h : Numeral v t) : Scalar v t
  | string {s : String} {t : List Char} (h : Spells s.toList t) :
    Scalar (.str s) ('"' :: (t ++ ['"']))

mutual

/-- Some tokens **write** a value, with any white space between them and with extra commas. -/
inductive Writes : Value → List Token → Prop where
  | scalar {v : Value} {t : List Char} (gap : Gap) (h : Scalar v t) : Writes v [⟨gap, t, false⟩]
  | empty (gap gap' : Gap) : Writes (.list []) [mark '[' gap, mark ']' gap']
  | list {items : List Value} {ts : List Token} (gap : Gap) (h : WritesItems items ts) :
    Writes (.list items) (mark '[' gap :: ts)
  | emptyObject (gap gap' : Gap) : Writes (.object []) [mark '\x7b' gap, mark '\x7d' gap']
  | object {fields : Fields} {ts : List Token} (gap : Gap) (h : WritesFields fields ts) :
    Writes (.object fields) (mark '\x7b' gap :: ts)

/-- Some tokens write the items of a list up to its closing bracket. -/
inductive WritesItems : List Value → List Token → Prop where
  | last {v : Value} {ts : List Token} (extra : Option Gap) (gap : Gap) (h : Writes v ts) :
    WritesItems [v] (ts ++ [closing ']' gap extra])
  | cons {v : Value} {items : List Value} {ts us : List Token} (gap : Gap) (h : Writes v ts)
      (hrest : WritesItems items us) : WritesItems (v :: items) (ts ++ mark ',' gap :: us)

/-- Some tokens write the fields of an object up to its closing brace. -/
inductive WritesFields : Fields → List Token → Prop where
  | last {k : String} {v : Value} {t : List Char} {ts : List Token} (gap gap' : Gap)
      (extra : Option Gap) (gap'' : Gap) (hk : Spells k.toList t) (h : Writes v ts) :
    WritesFields [(k, v)] (keyTokens gap t gap' ++ ts ++ [closing '\x7d' gap'' extra])
  | cons {k : String} {v : Value} {t : List Char} {fields : Fields} {ts us : List Token}
      (gap gap' gap'' : Gap) (hk : Spells k.toList t) (h : Writes v ts)
      (hrest : WritesFields fields us) :
    WritesFields ((k, v) :: fields) (keyTokens gap t gap' ++ ts ++ mark ',' gap'' :: us)

end

/-! ### What tokens begin with -/

variable {v : Value} {ts us : List Token}

/-- The text of a token and those behind it. -/
theorem textOf_cons (t : Token) (ts : List Token) :
    textOf (t :: ts) = t.gap ++ t.text ++ textOf ts :=
  flatMap_cons

/-- The text of two parts. -/
theorem textOf_append (ts us : List Token) : textOf (ts ++ us) = textOf ts ++ textOf us :=
  flatMap_append

/-- The text of tokens from the first one on, without the white space before it. -/
theorem skipSpace_textOf {t : Token} {c : Char} {cs : List Char} (ht : t.text = c :: cs)
    (hc : isSpace c = false) (ts : List Token) (rest : List Char) :
    skipSpace (textOf (t :: ts) ++ rest) = c :: (cs ++ (textOf ts ++ rest)) := by
  rw [textOf_cons, ht, append_assoc, append_assoc, skipSpace,
    dropWhile_append_of_pos (all_eq_true.mp t.gap.2), cons_append,
    dropWhile_cons_of_neg (by simp [hc])]

/-- Whether a character may **begin a value**: no white space and nothing that ends one. -/
def opensValue (c : Char) : Bool := !isSpace c && c != ']' && c != '\x7d' && c != ','

/-- Tokens begin with a character of a kind. -/
def Begins (p : Char → Bool) (ts : List Token) : Prop :=
  ∃ t us c cs, ts = t :: us ∧ t.text = c :: cs ∧ p c = true

/-- What begins tokens begins longer ones. -/
theorem Begins.append {p : Char → Bool} (h : Begins p ts) (us : List Token) :
    Begins p (ts ++ us) := by
  obtain ⟨t, ts, c, cs, rfl, ht, hc⟩ := h
  exact ⟨t, ts ++ us, c, cs, rfl, ht, hc⟩

/-- A signed whole number opens a value. -/
theorem IsWhole.opens (h : IsWhole ds) (negative : Bool) :
    ∃ c cs, signText negative ++ (ds ++ rest) = c :: cs ∧ opensValue c = true := by
  obtain ⟨hne, hall, -⟩ := h
  obtain ⟨c, ds, rfl⟩ := exists_cons_of_ne_nil hne
  have hc : c.isDigit = true := (by simpa using hall : _ ∧ _).1
  cases negative with
  | true => exact ⟨'-', _, rfl, rfl⟩
  | false =>
    refine ⟨c, _, rfl, ?_⟩
    have hne : ∀ d : Char, d.isDigit = false → c ≠ d := by
      rintro d hd rfl
      rw [hc] at hd
      cases hd
    simp [opensValue, isSpace, hne ' ' rfl, hne '\t' rfl, hne '\n' rfl, hne '\r' rfl, hne ']' rfl,
      hne '\x7d' rfl, hne ',' rfl]

/-- A scalar opens a value. -/
theorem Scalar.opens {t : List Char} (h : Scalar v t) :
    ∃ c cs, t = c :: cs ∧ opensValue c = true := by
  cases h with
  | null | isTrue | isFalse | string => exact ⟨_, _, rfl, rfl⟩
  | numeral h =>
    cases h with
    | whole negative hds => simpa using @IsWhole.opens _ [] hds negative
    | decimal negative hds | scientific negative hds => exact hds.opens negative

/-- What writes a value opens one. -/
theorem Writes.begins (h : Writes v ts) : Begins opensValue ts := by
  cases h with
  | scalar gap h =>
    obtain ⟨c, cs, rfl, hc⟩ := h.opens
    exact ⟨_, _, c, cs, rfl, rfl, hc⟩
  | empty | list | emptyObject | object => exact ⟨_, _, _, _, rfl, rfl, rfl⟩

/-- What writes items opens a value. -/
theorem WritesItems.begins {items : List Value} (h : WritesItems items ts) :
    Begins opensValue ts := by
  cases h with
  | last extra gap h | cons gap h => exact h.begins.append _

/-- What writes fields opens a value. -/
theorem WritesFields.begins (h : WritesFields fields ts) : Begins opensValue ts := by
  cases h with
  | last | cons => exact ⟨_, _, _, _, rfl, rfl, rfl⟩

/-! ### Reading -/

/-- **What comes of reading** tokens: what they write, unless they have an extra comma or are nested
too deeply. -/
inductive Outcome {α : Type} (fits extra : Prop) (a : α) : Except Fault α → Prop where
  | ok (hfits : fits) (hextra : ¬ extra) : Outcome fits extra a (.ok a)
  | malformed (hfits : fits) (hextra : extra) : Outcome fits extra a (.error .malformed)
  | tooDeep (fault : Fault) (hfits : ¬ fits) (hfault : fault = .malformed → extra) :
    Outcome fits extra a (.error fault)

section

variable {α β : Type} {fits fits' extra extra' : Prop} {a : α} {b : β} {found : Except Fault α}
  {next : α → Except Fault β}

/-- Outcomes under equivalent conditions. -/
theorem Outcome.congr (h : Outcome fits extra a found) (hfits : fits ↔ fits')
    (hextra : extra ↔ extra') : Outcome fits' extra' a found := by
  rwa [← propext hfits, ← propext hextra]

/-- Reading two parts, one after the other. -/
theorem Outcome.bind (h : Outcome fits extra a found) (hnext : Outcome fits' extra' b (next a)) :
    Outcome (fits ∧ fits') (extra ∨ extra') b (found >>= next) := by
  cases h with
  | ok hfits hextra =>
    change Outcome _ _ _ (next a)
    exact hnext.congr (by simp [hfits]) (by simp [hextra])
  | malformed hfits hextra =>
    by_cases hfits' : fits'
    · exact .malformed ⟨hfits, hfits'⟩ (.inl hextra)
    · exact .tooDeep _ (fun h => hfits' h.2) fun _ => .inl hextra
  | tooDeep fault hfits hfault => exact .tooDeep fault (fun h => hfits h.1) fun h => .inl (hfault h)

/-- Reading that goes on well. -/
theorem Outcome.bind_ok (h : Outcome fits extra a found) (hnext : next a = .ok b) :
    Outcome fits extra b (found >>= next) := by
  have hok : Outcome True False b (next a) := hnext ▸ .ok trivial not_false
  exact (h.bind hok).congr (by simp) (by simp)

/-- Reading that stops at an extra comma. -/
theorem Outcome.bind_malformed (h : Outcome fits extra a found) (hextra : extra')
    (hnext : next a = .error .malformed) :
    Outcome fits (extra ∨ extra') b (found >>= next) := by
  have herror : Outcome True extra' b (next a) := hnext ▸ .malformed trivial hextra
  exact (h.bind herror).congr (by simp) Iff.rfl

end

/-- White space ends a number. -/
theorem EndsNumber.gap_append (h : EndsNumber rest) (gap : Gap) : EndsNumber (gap ++ rest) := by
  obtain ⟨_ | ⟨d, gap⟩, hgap⟩ := gap
  · exact h
  · rintro d ⟨⟩
    have hd : isSpace d = true := (by simpa using hgap : _ ∧ _).1
    simp only [isSpace, Bool.or_eq_true, beq_iff_eq] at hd
    rcases hd with ((rfl | rfl) | rfl) | rfl <;> decide

/-- A comma or a closing mark ends a number. -/
theorem endsNumber_textOf (t : Token) (ht : t.text = c :: cs)
    (hc : c = ',' ∨ c = ']' ∨ c = '\x7d') :
    EndsNumber (textOf (t :: ts) ++ rest) := by
  rw [textOf_cons, append_assoc, append_assoc, ht]
  refine EndsNumber.gap_append ?_ t.gap
  rintro d ⟨⟩
  rcases hc with rfl | rfl | rfl <;> decide

/-- A scalar is read. -/
theorem value_scalar (h : Scalar v t) (hrest : EndsNumber rest) (fuel room : Nat) :
    value (fuel + 1) room (t ++ rest) = .ok (v, rest) := by
  cases h with
  | null | isTrue | isFalse => rfl
  | numeral h => exact value_numeral h hrest fuel room
  | string h =>
    rw [cons_append, append_assoc, singleton_append, value, h.string,
      String.ofList_toList]
    rfl

/-- A scalar is not nested. -/
theorem Scalar.depth_eq (h : Scalar v t) : v.depth = 0 := by
  cases h with
  | numeral h => cases h <;> rfl
  | null | isTrue | isFalse | string => rfl

/-- A list with items is read item by item. -/
theorem value_list (h : ∀ more, skipSpace cs ≠ ']' :: more) :
    value (fuel + 1) (room + 1) ('[' :: cs) =
      listItems fuel room (skipSpace cs) >>= fun found => pure (.list found.1, found.2) := by
  rw [value]
  split
  · rename_i heq
    exact absurd heq (h _)
  · rfl

/-- An object with fields is read field by field. -/
theorem value_object (h : ∀ more, skipSpace cs ≠ '\x7d' :: more) :
    value (fuel + 1) (room + 1) ('\x7b' :: cs) = objectFields fuel room [] (skipSpace cs) >>=
      fun found => pure (.object found.1, found.2) := by
  rw [value]
  split
  · rename_i heq
    exact absurd heq (h _)
  · rfl

/-- What opens a value. -/
theorem opensValue_iff :
    opensValue c = true ↔ isSpace c = false ∧ c ≠ ']' ∧ c ≠ '\x7d' ∧ c ≠ ',' := by
  simp [opensValue, and_assoc]

/-- Behind an extra comma there is no item. -/
theorem listItems_bracket (fuel room : Nat) (cs : List Char) :
    listItems fuel room (']' :: cs) = .error .malformed := by
  rcases fuel with _ | _ | fuel
  all_goals rfl

/-- An extra comma is in one of two parts. -/
theorem hasExtra_append : HasExtra (ts ++ us) ↔ HasExtra ts ∨ HasExtra us := by
  simp [HasExtra, or_and_right, exists_or]

/-- A mark is no extra comma. -/
theorem hasExtra_mark_cons {gap : Gap} : HasExtra (mark c gap :: ts) ↔ HasExtra ts := by
  simp [HasExtra, mark]

/-- A key has no extra comma. -/
theorem hasExtra_keyTokens_append {gap gap' : Gap} :
    HasExtra (keyTokens gap t gap' ++ ts) ↔ HasExtra ts := by
  simp [HasExtra, keyTokens, mark]

/-- A closing mark may have one. -/
theorem hasExtra_closing {gap : Gap} {extra : Option Gap} :
    HasExtra [closing c gap extra] ↔ extra.isSome = true := by
  cases extra <;> simp [HasExtra, closing, mark]

section

variable {fuel room : Nat} {cs : List Char} {fits fits' extra extra' : Prop} {gap : Gap}
  {items : List Value} {acc : Fields} {k : String}

/-- White space before a mark is skipped. -/
theorem skipSpace_mark (hc : isSpace c = false) (gap : Gap) (ts : List Token) (rest : List Char) :
    skipSpace (textOf (mark c gap :: ts) ++ rest) = c :: (textOf ts ++ rest) :=
  @skipSpace_textOf (mark c gap) c [] rfl hc ts rest

/-- White space before an extra comma is skipped. -/
theorem skipSpace_extra (c : Char) (gap gap' : Gap) (rest : List Char) :
    skipSpace (textOf [closing c gap (some gap')] ++ rest) =
      ',' :: (textOf [mark c gap'] ++ rest) := by
  have h := @skipSpace_textOf (closing c gap (some gap')) ',' (gap' ++ [c]) rfl rfl [] rest
  simpa [textOf, mark] using h

/-- The last item of a list is read, unless there is a comma behind it. -/
theorem outcome_last_item {comma : Option Gap}
    (h : Outcome fits extra (v, textOf [closing ']' gap comma] ++ rest) (value fuel room cs)) :
    Outcome fits (extra ∨ comma.isSome = true) ([v], rest) (listItems (fuel + 1) room cs) := by
  rw [listItems]
  cases comma with
  | none =>
    refine (h.bind_ok ?_).congr Iff.rfl (by simp)
    simp only [closing, skipSpace_mark (c := ']') rfl]
    rfl
  | some gap' =>
    refine h.bind_malformed rfl ?_
    simp only [skipSpace_extra, skipSpace_mark (c := ']') rfl, listItems_bracket]
    rfl

/-- An item and a comma are read, and then the items behind them. -/
theorem outcome_next_item
    (h : Outcome fits extra (v, textOf (mark ',' gap :: us) ++ rest) (value fuel room cs))
    (hrest : Outcome fits' extra' (items, rest)
      (listItems fuel room (skipSpace (textOf us ++ rest)))) :
    Outcome (fits ∧ fits') (extra ∨ extra') (v :: items, rest) (listItems (fuel + 1) room cs) := by
  rw [listItems]
  refine h.bind ?_
  simp only [skipSpace_mark (c := ',') rfl]
  exact hrest.bind_ok rfl

/-- White space before a key is skipped. -/
theorem skipSpace_keyTokens (gap : Gap) (t : List Char) (gap' : Gap) (ts : List Token)
    (rest : List Char) : skipSpace (textOf (keyTokens gap t gap' ++ ts) ++ rest) =
      '"' :: (t ++ '"' :: (textOf (mark ':' gap' :: ts) ++ rest)) := by
  have h := @skipSpace_textOf ⟨gap, '"' :: (t ++ ['"']), false⟩ '"' (t ++ ['"']) rfl rfl
    (mark ':' gap' :: ts) rest
  rwa [append_assoc, singleton_append] at h

/-- Going on from a result. -/
theorem ok_bind {α β : Type} (a : α) (next : α → Except Fault β) :
    (Except.ok a >>= next) = next a := rfl

/-- The last field of an object is read, unless there is a comma behind it. -/
theorem outcome_last_field {more : List Char} {gap' gap'' : Gap} {comma : Option Gap}
    (hk : Spells k.toList t) (hacc : k ∉ acc.keys)
    (h : Outcome fits extra (v, textOf [closing '\x7d' gap'' comma] ++ rest)
      (value fuel room (skipSpace (textOf ts ++ more)))) :
    Outcome fits (extra ∨ comma.isSome = true) (acc ++ [(k, v)], rest)
      (objectFields (fuel + 1) room acc (skipSpace
        (textOf (keyTokens gap t gap' ++ ts) ++ more))) := by
  rw [skipSpace_keyTokens, objectFields, hk.string, String.ofList_toList]
  simp only [ok_bind, skipSpace_mark (c := ':') rfl]
  cases comma with
  | none =>
    refine (h.bind_ok ?_).congr Iff.rfl (by simp)
    simp only [closing, skipSpace_mark (c := '\x7d') rfl, Fields.set_of_not_mem_keys hacc]
    rfl
  | some gap₀ =>
    refine h.bind_malformed rfl ?_
    simp only [skipSpace_extra, skipSpace_mark (c := '\x7d') rfl]
    cases fuel <;> rfl

/-- A field and a comma are read, and then the fields behind them. -/
theorem outcome_next_field {more : List Char} {gap' gap'' : Gap} (hk : Spells k.toList t)
    (hacc : k ∉ acc.keys) (h : Outcome fits extra (v, textOf (mark ',' gap'' :: us) ++ rest)
      (value fuel room (skipSpace (textOf ts ++ more))))
    (hrest : Outcome fits' extra' (acc ++ [(k, v)] ++ fields, rest)
      (objectFields fuel room (acc ++ [(k, v)]) (skipSpace (textOf us ++ rest)))) :
    Outcome (fits ∧ fits') (extra ∨ extra') (acc ++ (k, v) :: fields, rest)
      (objectFields (fuel + 1) room acc (skipSpace
        (textOf (keyTokens gap t gap' ++ ts) ++ more))) := by
  rw [skipSpace_keyTokens, objectFields, hk.string, String.ofList_toList]
  simp only [ok_bind, skipSpace_mark (c := ':') rfl]
  refine h.bind ?_
  simp only [skipSpace_mark (c := ',') rfl, Fields.set_of_not_mem_keys hacc]
  rwa [append_assoc, singleton_append] at hrest

end

/-- The length of a mark and what follows. -/
theorem length_textOf_mark (c : Char) (gap : Gap) (ts : List Token) :
    (textOf (mark c gap :: ts)).length = gap.1.length + 1 + (textOf ts).length := by
  rw [textOf_cons, length_append, length_append]
  rfl

/-- A closing mark is not empty. -/
theorem length_closing_pos (c : Char) (gap : Gap) (extra : Option Gap) :
    0 < (textOf [closing c gap extra]).length := by
  cases extra <;> grind [textOf, closing, mark]

/-- A closing mark ends a number. -/
theorem endsNumber_closing (hc : c = ']' ∨ c = '\x7d') {gap : Gap} {extra : Option Gap} :
    EndsNumber (textOf [closing c gap extra] ++ rest) := by
  cases extra with
  | none => exact endsNumber_textOf (mark c gap) rfl (.inr hc)
  | some gap' => exact endsNumber_textOf (closing c gap (some gap')) rfl (.inl rfl)

/-- What begins tokens stands behind the white space. -/
theorem Begins.skipSpace_ne {d : Char} (h : Begins opensValue ts) (hd : opensValue d = false)
    (rest more : List Char) : skipSpace (textOf ts ++ rest) ≠ d :: more := by
  obtain ⟨t, us, c, cs, rfl, ht, hc⟩ := h
  rw [skipSpace_textOf ht (opensValue_iff.mp hc).1]
  intro heq
  cases heq
  rw [hc] at hd
  cases hd

mutual

/-- **What comes of reading** the tokens of a value. -/
theorem Writes.reads : ∀ {v : Value} {ts : List Token}, Writes v ts → v.DistinctKeys →
    ∀ {fuel : Nat} (room : Nat) (rest : List Char), EndsNumber rest →
    2 * (textOf ts).length ≤ fuel →
    Outcome (v.depth ≤ room) (HasExtra ts) (v, rest)
      (value fuel room (skipSpace (textOf ts ++ rest)))
  | v, _, .scalar gap h, _, fuel, room, rest, hrest, hfuel => by
    obtain ⟨c, cs, rfl, hc⟩ := h.opens
    obtain _ | fuel := fuel
    · simp [textOf] at hfuel
    have hread := value_scalar h hrest fuel room
    rw [cons_append] at hread
    rw [skipSpace_textOf rfl (opensValue_iff.mp hc).1]
    change Outcome _ _ _ (value (fuel + 1) room (c :: (cs ++ rest)))
    rw [hread]
    exact .ok (h.depth_eq ▸ Nat.zero_le room) (by simp [HasExtra])
  | _, _, .empty gap gap', _, fuel, room, rest, hrest, hfuel => by
    rw [length_textOf_mark] at hfuel
    obtain _ | fuel := fuel
    · omega
    rw [skipSpace_mark rfl]
    cases room with
    | zero => exact .tooDeep _ (by simp [Value.depth]) nofun
    | succ room =>
      rw [value, skipSpace_mark rfl]
      exact .ok (by simp [Value.depth, Value.depthItems]) (by simp [HasExtra, mark])
  | _, _, @Writes.list items ts gap h, hd, fuel, room, rest, hrest, hfuel => by
    rw [length_textOf_mark] at hfuel
    obtain _ | fuel := fuel
    · omega
    rw [skipSpace_mark rfl]
    cases room with
    | zero => exact .tooDeep _ (by simp [Value.depth]) nofun
    | succ room =>
      rw [value_list (h.begins.skipSpace_ne (by decide) rest)]
      have hitems := h.reads hd room rest (show 2 * (textOf ts).length ≤ fuel by omega)
      refine (hitems.bind_ok ?_).congr Nat.add_le_add_iff_right.symm hasExtra_mark_cons.symm
      rfl
  | _, _, .emptyObject gap gap', _, fuel, room, rest, hrest, hfuel => by
    rw [length_textOf_mark] at hfuel
    obtain _ | fuel := fuel
    · omega
    rw [skipSpace_mark rfl]
    cases room with
    | zero => exact .tooDeep _ (by simp [Value.depth]) nofun
    | succ room =>
      rw [value, skipSpace_mark rfl]
      exact .ok (by simp [Value.depth, Value.depthFields]) (by simp [HasExtra, mark])
  | _, _, @Writes.object fields ts gap h, ⟨hkeys, hd⟩, fuel, room, rest, hrest, hfuel => by
    rw [length_textOf_mark] at hfuel
    obtain _ | fuel := fuel
    · omega
    rw [skipSpace_mark rfl]
    cases room with
    | zero => exact .tooDeep _ (by simp [Value.depth]) nofun
    | succ room =>
      rw [value_object (h.begins.skipSpace_ne (by decide) rest)]
      have hfields := h.reads hd room [] rest hkeys (show 2 * (textOf ts).length ≤ fuel by omega)
      refine (hfields.bind_ok ?_).congr Nat.add_le_add_iff_right.symm hasExtra_mark_cons.symm
      rfl

/-- Written items are read. -/
theorem WritesItems.reads : ∀ {items : List Value} {ts : List Token}, WritesItems items ts →
    Value.DistinctKeysList items → ∀ {fuel : Nat} (room : Nat) (rest : List Char),
    2 * (textOf ts).length ≤ fuel →
    Outcome (Value.depthItems items ≤ room) (HasExtra ts) (items, rest)
      (listItems fuel room (skipSpace (textOf ts ++ rest)))
  | _, _, @WritesItems.last v ts extra gap h, ⟨hd, _⟩, fuel, room, rest, hfuel => by
    have hpos := length_closing_pos ']' gap extra
    rw [textOf_append, length_append] at hfuel
    obtain _ | fuel := fuel
    · omega
    rw [textOf_append, append_assoc]
    refine (outcome_last_item (h.reads hd room _ (endsNumber_closing (.inl rfl)) (by omega))).congr
      ?_ ?_
    · simp [Value.depthItems]
    · rw [hasExtra_append, hasExtra_closing]
  | _, _, @WritesItems.cons v items ts us gap h hrest, ⟨hd, hds⟩, fuel, room, rest, hfuel => by
    rw [textOf_append, length_append, length_textOf_mark] at hfuel
    obtain _ | fuel := fuel
    · omega
    rw [textOf_append, append_assoc]
    refine (outcome_next_item (h.reads hd room _ (endsNumber_textOf _ rfl (.inl rfl)) (by omega))
      (hrest.reads hds room rest (by omega))).congr Nat.max_le.symm ?_
    rw [hasExtra_append, hasExtra_mark_cons]

/-- Written fields are read. -/
theorem WritesFields.reads : ∀ {fields : Fields} {ts : List Token}, WritesFields fields ts →
    Value.DistinctKeysFields fields → ∀ {fuel : Nat} (room : Nat) (acc : Fields) (rest : List Char),
    (Fields.keys (acc ++ fields)).Nodup → 2 * (textOf ts).length ≤ fuel →
    Outcome (Value.depthFields fields ≤ room) (HasExtra ts) (acc ++ fields, rest)
      (objectFields fuel room acc (skipSpace (textOf ts ++ rest)))
  | _, _, @WritesFields.last k v t ts gap gap' extra gap'' hk h, ⟨hd, _⟩, fuel, room, acc, rest,
      hkeys, hfuel => by
    have hpos := length_closing_pos '\x7d' gap'' extra
    simp only [textOf_append, length_append] at hfuel
    obtain _ | fuel := fuel
    · omega
    have hvalue := h.reads hd room (textOf [closing '\x7d' gap'' extra] ++ rest)
      (endsNumber_closing (.inr rfl)) (show 2 * (textOf ts).length ≤ fuel by omega)
    rw [textOf_append, append_assoc (textOf _)]
    refine (outcome_last_field hk (Fields.not_mem_keys_of_nodup hkeys) hvalue).congr ?_ ?_
    · simp [Value.depthFields]
    · rw [hasExtra_append, hasExtra_closing, hasExtra_keyTokens_append]
  | _, _, @WritesFields.cons k v t fields ts us gap gap' gap'' hk h hrest, ⟨hd, hds⟩, fuel, room,
      acc, rest, hkeys, hfuel => by
    simp only [textOf_append, length_append, length_textOf_mark] at hfuel
    obtain _ | fuel := fuel
    · omega
    have hvalue := h.reads hd room (textOf (mark ',' gap'' :: us) ++ rest)
      (endsNumber_textOf _ rfl (.inl rfl)) (show 2 * (textOf ts).length ≤ fuel by omega)
    have hkeys' : (Fields.keys (acc ++ [(k, v)] ++ fields)).Nodup := by
      rwa [append_assoc, singleton_append]
    rw [textOf_append, append_assoc (textOf _)]
    refine (outcome_next_field hk (Fields.not_mem_keys_of_nodup hkeys) hvalue
      (hrest.reads hds room _ rest hkeys' (by omega))).congr Nat.max_le.symm ?_
    rw [hasExtra_append, hasExtra_keyTokens_append, hasExtra_mark_cons]

end

/-- **What comes of reading** a text that writes a value; a space may be missing at its front. -/
theorem Writes.parseList (h : Writes v ts) (hd : v.DistinctKeys) {space : List Char}
    (hspace : space = [] ∨ space = [' ']) (hcs : space ++ cs = textOf ts) (nesting : Nat) :
    Outcome (v.depth ≤ nesting) (HasExtra ts) v (parseList nesting cs) := by
  have hskip : skipSpace (textOf ts ++ []) = skipSpace cs := by
    rcases hspace with rfl | rfl <;> simp [← hcs, skipSpace, isSpace]
  have hlength : (textOf ts).length ≤ cs.length + 1 := by
    rcases hspace with rfl | rfl <;> simp [← hcs]
  have hread := h.reads hd nesting [] nofun (show 2 * (textOf ts).length ≤ 2 * cs.length + 2 by
    omega)
  rw [hskip] at hread
  exact hread.bind_ok rfl

end Json

end DocTree
