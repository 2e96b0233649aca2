import DocTree.Json.Reader
import DocTree.Proofs.Blank
import DocTree.Proofs.Path
import DocTree.Proofs.Value

/-!
# Where the characters of a JSON text stand

A character of a JSON text stands outside its strings or inside one. Outside stand white space and
visible ASCII characters, and no string begins right behind a closing brace.
-/

namespace DocTree.Json

open List

variable {v : Value}

/-- **Where a character stands**: outside strings, outside right behind a closing brace, inside a
string, or inside behind a backslash. -/
inductive Place where
  | outside
  | closed
  | inside
  | escaped
deriving DecidableEq

namespace Place

def isOutside : Place → Bool
  | .outside | .closed => true
  | .inside | .escaped => false

/-- The place behind a character. -/
def after : Place → Char → Place
  | .inside, c => if c = '"' then .outside else if c = '\\' then .escaped else .inside
  | .escaped, _ => .inside
  | _, c => if c = '"' then .inside else if c = '\x7d' then .closed else .outside

/-- The place behind some characters. -/
def afterAll (p : Place) (cs : List Char) : Place := cs.foldl after p

/-- Whether a character may stand outside strings: white space of the format, or a visible ASCII
character other than a backtick. -/
def isOuter (c : Char) : Bool :=
  isSpace c || (0x21 ≤ c.toNat && c.toNat ≤ 0x7e && c != '\x60')

/-- Whether a character **may stand** at a place. -/
def admits : Place → Char → Bool
  | .outside, c => isOuter c
  | .closed, c => isOuter c && c != '"'
  | _, _ => true

end Place

/-! ### Conditions along a text -/

/-- Whether a condition holds at every place of a text, of the text from there on. -/
def holdsAlong (f : Place → List Char → Bool) : Place → List Char → Bool
  | _, [] => true
  | p, c :: cs => f p (c :: cs) && holdsAlong f (p.after c) cs

/-- What holds along a text holds at each of its characters. -/
theorem of_holdsAlong {f : Place → List Char → Bool} {p : Place} {cs ds : List Char} {c : Char}
    (h : holdsAlong f p (cs ++ c :: ds) = true) : f (p.afterAll cs) (c :: ds) = true := by
  induction cs generalizing p with
  | nil => exact (Bool.and_eq_true_iff.mp h).1
  | cons d cs ih => exact ih (Bool.and_eq_true_iff.mp h).2

/-- Whether a text is **compact**: no white space stands outside its strings. -/
def isCompact (cs : List Char) : Bool :=
  holdsAlong (fun p cs => !(p.isOutside && cs.head?.any isSpace)) .outside cs

/-- Whether **no string** of a text contains another text. -/
def stringsAvoid (part cs : List Char) : Bool :=
  holdsAlong (fun p cs => p.isOutside || !Text.beginsWith part cs) .outside cs

/-! ### Reading from place to place -/

/-- Reading goes from one place to another, over characters that **may stand** where they stand. -/
inductive Reaches : Place → List Char → Place → List Char → Prop where
  | refl {p : Place} {cs : List Char} : Reaches p cs p cs
  | step {p q : Place} {c : Char} {cs rest : List Char} (hc : p.admits c = true)
      (h : Reaches (p.after c) cs q rest) : Reaches p (c :: cs) q rest

variable {p q r : Place} {c : Char} {cs ds rest : List Char} {room fuel nesting : Nat}

/-- Places are reached one after the other. -/
theorem Reaches.trans {ds : List Char} (h : Reaches p cs q ds) (h' : Reaches q ds r rest) :
    Reaches p cs r rest := by
  induction h with
  | refl => exact h'
  | step hc _ ih => exact .step hc (ih h')

/-- Every character that is read may stand where it stands. -/
theorem Reaches.admits (h : Reaches p (cs ++ c :: ds) q []) : (p.afterAll cs).admits c = true := by
  induction cs generalizing p with
  | nil =>
    cases h with
    | step hc _ => exact hc
  | cons d cs ih =>
    cases h with
    | step _ h => exact ih h

/-- The place at the end of a text. -/
theorem Reaches.afterAll_eq (h : Reaches p cs q rest) (hrest : rest = []) : p.afterAll cs = q := by
  induction h with
  | refl => subst hrest; rfl
  | step _ _ ih => exact ih hrest

/-- A character that leads from outside to outside. -/
def isPlain (c : Char) : Bool :=
  Place.outside.admits c && Place.outside.after c == .outside && c != '"'

/-- A plain character leads outside. -/
theorem Reaches.plain (hc : isPlain c = true) (hp : p.isOutside = true) :
    Reaches p (c :: rest) .outside rest := by
  simp only [isPlain, Bool.and_eq_true, beq_iff_eq] at hc
  obtain ⟨⟨hadmits, hafter⟩, hquote⟩ := hc
  have hrest : Reaches (Place.outside.after c) rest .outside rest := by
    rw [hafter]
    exact .refl
  cases p with
  | outside => exact .step hadmits hrest
  | closed => exact .step (Bool.and_eq_true_iff.mpr ⟨hadmits, hquote⟩) hrest
  | inside | escaped => cases hp

/-- Plain characters stay outside. -/
theorem Reaches.plains (hcs : ∀ c ∈ cs, isPlain c = true) :
    Reaches .outside (cs ++ rest) .outside rest := by
  induction cs with
  | nil => exact .refl
  | cons c cs ih =>
    obtain ⟨hc, hcs⟩ := forall_mem_cons.mp hcs
    exact (Reaches.plain hc rfl).trans (ih hcs)

/-- Dropping plain characters stays outside. -/
theorem Reaches.dropWhile {f : Char → Bool} (hf : ∀ c, f c = true → isPlain c = true)
    (cs : List Char) : Reaches .outside cs .outside (cs.dropWhile f) := by
  have hread : Reaches .outside (cs.takeWhile f ++ cs.dropWhile f) .outside (cs.dropWhile f) :=
    .plains fun c hc => hf c (mem_takeWhile_imp hc)
  rwa [takeWhile_append_dropWhile] at hread

/-- White space is plain. -/
theorem isPlain_of_isSpace (c : Char) (h : isSpace c = true) : isPlain c = true := by
  simp only [isSpace, Bool.or_eq_true, beq_iff_eq] at h
  rcases h with ((rfl | rfl) | rfl) | rfl <;> decide

/-- Digits are plain. -/
theorem isPlain_of_isDigit (c : Char) (h : c.isDigit = true) : isPlain c = true := by
  have hrange := Text.toNat_of_isDigit h
  have hne : ∀ d : Char, 0x39 < d.toNat ∨ d.toNat < 0x30 → c ≠ d := by
    rintro d hd rfl
    omega
  simp [isPlain, Place.admits, Place.after, Place.isOuter, hne '"' (by decide),
    hne '\x7d' (by decide), hne '\x60' (by decide)]
  omega

/-- A closing brace closes. -/
theorem Reaches.close (hp : p.isOutside = true) : Reaches p ('\x7d' :: rest) .closed rest := by
  cases p with
  | outside | closed => exact .step (by decide) .refl
  | inside | escaped => cases hp

/-- White space stays outside. -/
theorem Reaches.skipSpace (hp : p.isOutside = true) (cs : List Char) :
    ∃ q, q.isOutside = true ∧ Reaches p cs q (skipSpace cs) := by
  cases cs with
  | nil => exact ⟨p, hp, .refl⟩
  | cons c cs =>
    rw [Json.skipSpace, dropWhile_cons]
    split
    · rename_i hspace
      have hfirst : Reaches p (c :: cs) .outside cs := .plain (isPlain_of_isSpace c hspace) hp
      exact ⟨.outside, rfl, hfirst.trans (.dropWhile isPlain_of_isSpace cs)⟩
    · exact ⟨p, hp, .refl⟩

/-! ### Strings, numbers and words -/

/-- A hexadecimal unit stays inside. -/
theorem Reaches.hexUnit {n : Nat} (h : hexUnit? cs = some (n, rest)) :
    Reaches .inside cs .inside rest := by
  have hstep : ∀ (d : Char) (m : Nat) (ds : List Char), hexValue? d = some m →
      Reaches .inside (d :: ds) .inside ds := by
    intro d m ds hd
    have hquote : d ≠ '"' := by
      rintro rfl
      cases hd
    have hslash : d ≠ '\\' := by
      rintro rfl
      cases hd
    refine .step rfl ?_
    rw [Place.after, if_neg hquote, if_neg hslash]
    exact .refl
  rcases cs with _ | ⟨a, _ | ⟨b, _ | ⟨c, _ | ⟨d, cs⟩⟩⟩⟩ <;> try cases h
  obtain ⟨_, ha, h⟩ := Option.bind_eq_some_iff.mp h
  obtain ⟨_, hb, h⟩ := Option.bind_eq_some_iff.mp h
  obtain ⟨_, hc, h⟩ := Option.bind_eq_some_iff.mp h
  obtain ⟨_, hd, h⟩ := Option.bind_eq_some_iff.mp h
  cases h
  exact (hstep _ _ _ ha).trans ((hstep _ _ _ hb).trans ((hstep _ _ _ hc).trans (hstep _ _ _ hd)))

/-- Escaped units stay inside. -/
theorem Reaches.escapedUnits {d : Char} (h : escapedUnits? cs = some (d, rest)) :
    Reaches .inside cs .inside rest := by
  obtain ⟨⟨high, ds⟩, hhigh, h⟩ := Option.bind_eq_some_iff.mp h
  refine (Reaches.hexUnit hhigh).trans ?_
  dsimp only at h
  split at h
  · split at h
    · split at h
      · rename_i hlow
        split at h <;> obtain ⟨-, rfl⟩ := Prod.mk.inj (Option.some.inj h)
        · exact .step rfl (.step rfl (.hexUnit hlow))
        · exact .refl
      · obtain ⟨-, rfl⟩ := Prod.mk.inj (Option.some.inj h)
        exact .refl
    · obtain ⟨-, rfl⟩ := Prod.mk.inj (Option.some.inj h)
      exact .refl
  · obtain ⟨-, rfl⟩ := Prod.mk.inj (Option.some.inj h)
    exact .refl

/-- The rest of a string leads outside. -/
theorem Reaches.stringRest {acc out : List Char}
    (h : stringRest fuel acc cs = .ok (out, rest)) : Reaches .inside cs .outside rest := by
  induction fuel generalizing acc cs with
  | zero => cases h
  | succ fuel ih =>
    rcases cs with _ | ⟨c, cs⟩
    · cases h
    unfold Json.stringRest at h
    split at h
    · rename_i hquote
      cases h
      exact .step rfl (by simpa [Place.after, hquote] using .refl)
    rename_i hquote
    split at h
    · rename_i hslash
      subst hslash
      refine .step rfl ?_
      split at h
      · split at h
        · rename_i hunits
          exact .step rfl ((Reaches.escapedUnits hunits).trans (ih h))
        · cases h
      · split at h
        · exact .step rfl (ih h)
        · cases h
      · cases h
    · rename_i hslash
      split at h
      · cases h
      · refine .step rfl ?_
        rw [Place.after, if_neg hquote, if_neg hslash]
        exact ih h

/-- A whole number stays outside. -/
theorem Reaches.wholeDigits (h : wholeDigits? cs = some (ds, rest)) :
    Reaches .outside cs .outside rest := by
  unfold wholeDigits? at h
  split at h
  · cases h
    exact .plain (by decide) rfl
  · split at h
    · rename_i hdigit
      cases h
      exact (Reaches.plain (isPlain_of_isDigit _ hdigit) rfl).trans
        (.dropWhile isPlain_of_isDigit _)
    · cases h
  · cases h

/-- A fraction stays outside. -/
theorem Reaches.fractionDigits (cs : List Char) :
    Reaches .outside cs .outside (fractionDigits cs).2 := by
  unfold Json.fractionDigits
  split
  · split
    · rename_i hdigit
      exact (Reaches.plain (by decide) rfl).trans
        ((Reaches.plain (isPlain_of_isDigit _ hdigit) rfl).trans
          (.dropWhile isPlain_of_isDigit _))
    · exact .refl
  · exact .refl

/-- An exponent stays outside. -/
theorem Reaches.exponent {n : Int} (h : exponent? cs = some (n, rest)) :
    Reaches .outside cs .outside rest := by
  unfold exponent? at h
  split at h
  · rename_i e ds
    split at h
    · rename_i he
      have hplain : isPlain e = true := by
        rcases (by simpa using he : e = 'e' ∨ e = 'E') with rfl | rfl <;> decide
      refine (Reaches.plain hplain rfl).trans ?_
      split at h
      rename_i sign rest' hsign
      have hsigned : Reaches .outside ds .outside rest' := by
        split at hsign <;> cases hsign
        · exact .plain (by decide) rfl
        · exact .plain (by decide) rfl
        · exact .refl
      dsimp only at h
      split at h
      · cases h
      · obtain ⟨-, rfl⟩ := Prod.mk.inj (Option.some.inj h)
        exact hsigned.trans (.dropWhile isPlain_of_isDigit _)
    · cases h
  · cases h

/-- A number stays outside. -/
theorem Reaches.number {negative : Bool} (h : number negative cs = .ok (v, rest)) :
    Reaches .outside cs .outside rest := by
  unfold Json.number at h
  split at h
  · cases h
  rename_i whole ds hwhole
  refine (Reaches.wholeDigits hwhole).trans ?_
  have hfraction := Reaches.fractionDigits ds
  generalize Json.fractionDigits ds = found at h hfraction
  obtain ⟨fraction, ds'⟩ := found
  dsimp only at h
  refine hfraction.trans ?_
  split at h
  · split at h
    · cases h
    · obtain ⟨-, rfl⟩ := Prod.mk.inj (Except.ok.inj h)
      exact .refl
  · obtain ⟨-, rfl⟩ := Prod.mk.inj (Except.ok.inj h)
    exact .refl
  · rename_i hexponent
    obtain ⟨-, rfl⟩ := Prod.mk.inj (Except.ok.inj h)
    exact .exponent hexponent

/-- A word stays outside. -/
theorem Reaches.word (h : word? cs = some (v, rest)) : Reaches .outside cs .outside rest := by
  obtain ⟨⟨w, u⟩, hw, h⟩ := exists_of_findSome?_eq_some h
  obtain ⟨ds, hds, h⟩ := Option.map_eq_some_iff.mp h
  obtain ⟨-, rfl⟩ := Prod.mk.inj h
  rw [Text.after?_eq_some_iff] at hds
  subst hds
  have hplain : (wordValues.all fun found => found.1.all isPlain) = true := by decide +kernel
  exact .plains (all_eq_true.mp (all_eq_true.mp hplain _ hw))

/-! ### Values -/

/-- A string leads back outside. -/
theorem Reaches.string {s : String} (h : string cs = .ok (s, rest)) :
    Reaches .outside ('"' :: cs) .outside rest := by
  obtain ⟨⟨out, ds⟩, hout, h⟩ := bind_eq_ok.mp h
  cases h
  exact .step (by decide) (.stringRest hout)

/-- With some fuel, reading a value ends outside strings. -/
def ValuesEndOutside (fuel : Nat) : Prop :=
  ∀ ⦃room cs v rest⦄, value fuel room cs = .ok (v, rest) →
    ∃ q, q.isOutside = true ∧ Reaches .outside cs q rest

/-- With some fuel, reading the items of a list ends behind its bracket. -/
def ItemsEndOutside (fuel : Nat) : Prop :=
  ∀ ⦃room cs vs rest⦄, listItems fuel room cs = .ok (vs, rest) → Reaches .outside cs .outside rest

/-- With some fuel, reading the fields of an object ends behind its brace. -/
def FieldsEndClosed (fuel : Nat) : Prop :=
  ∀ ⦃room fields cs fs rest⦄, objectFields fuel room fields cs = .ok (fs, rest) →
    Reaches .outside cs .closed rest

/-- White space outside leads nowhere else. -/
theorem reaches_skipSpace (cs : List Char) : Reaches .outside cs .outside (skipSpace cs) :=
  .dropWhile isPlain_of_isSpace cs

/-- The step at a value. -/
theorem ValuesEndOutside.succ (hitems : ItemsEndOutside fuel) (hfields : FieldsEndClosed fuel) :
    ValuesEndOutside (fuel + 1) := by
  intro room cs v rest h
  unfold value at h
  split at h
  · obtain ⟨⟨s, ds⟩, hs, h⟩ := bind_eq_ok.mp h
    cases h
    exact ⟨.outside, rfl, .string hs⟩
  · rename_i ds
    split at h
    · cases h
    have hopen : Reaches .outside ('[' :: ds) .outside (skipSpace ds) :=
      (Reaches.plain (by decide) rfl).trans (reaches_skipSpace ds)
    refine ⟨.outside, rfl, hopen.trans ?_⟩
    split at h
    · rename_i hds
      cases h
      rw [hds]
      exact .plain (by decide) rfl
    · obtain ⟨⟨vs, ds'⟩, hvs, h⟩ := bind_eq_ok.mp h
      cases h
      exact hitems hvs
  · rename_i ds
    split at h
    · cases h
    have hopen : Reaches .outside ('\x7b' :: ds) .outside (skipSpace ds) :=
      (Reaches.plain (by decide) rfl).trans (reaches_skipSpace ds)
    refine ⟨.closed, rfl, hopen.trans ?_⟩
    split at h
    · rename_i hds
      cases h
      rw [hds]
      exact .close rfl
    · obtain ⟨⟨fs, ds'⟩, hfs, h⟩ := bind_eq_ok.mp h
      cases h
      exact hfields hfs
  · split at h
    · rename_i hword
      cases h
      exact ⟨.outside, rfl, .word hword⟩
    · split at h
      · exact ⟨.outside, rfl, (Reaches.plain (by decide) rfl).trans (.number h)⟩
      · exact ⟨.outside, rfl, .number h⟩

/-- The step at items. -/
theorem ItemsEndOutside.succ (hvalue : ValuesEndOutside fuel) (hitems : ItemsEndOutside fuel) :
    ItemsEndOutside (fuel + 1) := by
  intro room cs vs rest h
  unfold listItems at h
  obtain ⟨⟨v, ds⟩, hv, h⟩ := bind_eq_ok.mp h
  obtain ⟨q, hq, hread⟩ := hvalue hv
  obtain ⟨q', hq', hspace⟩ := Reaches.skipSpace hq ds
  refine hread.trans (hspace.trans ?_)
  dsimp only at h
  split at h
  · rename_i hds
    cases h
    rw [hds]
    exact .plain (by decide) hq'
  · rename_i hds
    obtain ⟨⟨vs', ds'⟩, hvs, h⟩ := bind_eq_ok.mp h
    cases h
    rw [hds]
    exact (Reaches.plain (by decide) hq').trans ((reaches_skipSpace _).trans (hitems hvs))
  · cases h

/-- The step at fields. -/
theorem FieldsEndClosed.succ (hvalue : ValuesEndOutside fuel) (hfields : FieldsEndClosed fuel) :
    FieldsEndClosed (fuel + 1) := by
  intro room fields cs fs rest h
  unfold objectFields at h
  split at h
  · obtain ⟨⟨key, ds⟩, hkey, h⟩ := bind_eq_ok.mp h
    refine (Reaches.string hkey).trans ((reaches_skipSpace ds).trans ?_)
    dsimp only at h
    split at h
    · rename_i hds
      obtain ⟨⟨v, ds'⟩, hv, h⟩ := bind_eq_ok.mp h
      obtain ⟨q, hq, hread⟩ := hvalue hv
      obtain ⟨q', hq', hspace⟩ := Reaches.skipSpace hq ds'
      rw [hds]
      refine (Reaches.plain (by decide) rfl).trans ((reaches_skipSpace _).trans ?_)
      refine hread.trans (hspace.trans ?_)
      dsimp only at h
      split at h
      · rename_i hds'
        cases h
        rw [hds']
        exact .close hq'
      · rename_i hds'
        rw [hds']
        exact (Reaches.plain (by decide) hq').trans ((reaches_skipSpace _).trans (hfields h))
      · cases h
    · cases h
  · cases h

/-- Every value that is read ends outside strings. -/
theorem valuesEndOutside (fuel : Nat) : ValuesEndOutside fuel := by
  suffices hall : ValuesEndOutside fuel ∧ ItemsEndOutside fuel ∧ FieldsEndClosed fuel from hall.1
  induction fuel with
  | zero => exact ⟨nofun, nofun, nofun⟩
  | succ fuel ih =>
    obtain ⟨hvalue, hitems, hfields⟩ := ih
    exact ⟨.succ hitems hfields, .succ hvalue hitems, .succ hvalue hfields⟩

/-- **A text that can be read** is read from outside to outside. -/
theorem reaches_of_parseList (h : parseList nesting cs = .ok v) :
    ∃ q, q.isOutside = true ∧ Reaches .outside cs q [] := by
  obtain ⟨⟨u, ds⟩, hu, h⟩ := bind_eq_ok.mp h
  obtain ⟨q, hq, hread⟩ := valuesEndOutside _ hu
  obtain ⟨q', hq', hspace⟩ := Reaches.skipSpace hq ds
  dsimp only at h
  split at h
  · rename_i hend
    rw [isEmpty_iff.mp hend] at hspace
    exact ⟨q', hq', (reaches_skipSpace cs).trans (hread.trans hspace)⟩
  · cases h

/-- **Every character** of a text that can be read may stand where it stands. -/
theorem admits_of_parseList (h : parseList nesting (cs ++ c :: ds) = .ok v) :
    (Place.outside.afterAll cs).admits c = true := by
  obtain ⟨q, -, hread⟩ := reaches_of_parseList h
  exact hread.admits

/-! ### Compact texts -/

/-- What is admitted outside is an outer character. -/
theorem Place.isOuter_of_admits (hc : p.admits c = true) (hp : p.isOutside = true) :
    isOuter c = true := by
  cases p with
  | outside => exact hc
  | closed => exact (Bool.and_eq_true_iff.mp hc).1
  | inside | escaped => cases hp

/-- Only a quotation mark leads inside. -/
theorem Place.isOutside_after (hp : p.isOutside = true) (hc : c ≠ '"') :
    (p.after c).isOutside = true := by
  cases p with
  | outside | closed =>
    simp only [Place.after, if_neg hc]
    split <;> rfl
  | inside | escaped => cases hp

/-- Behind a closing brace. -/
theorem Place.after_brace (hp : p.isOutside = true) : p.after '\x7d' = .closed := by
  cases p with
  | outside | closed => rfl
  | inside | escaped => cases hp

/-- Only a quotation mark leads outside. -/
theorem Place.eq_quote_of_after (hp : p.isOutside = false) (h : (p.after c).isOutside = true) :
    c = '"' := by
  cases p with
  | outside | closed => cases hp
  | escaped => cases h
  | inside =>
    by_contra hc
    rw [Place.after, if_neg hc] at h
    split at h <;> cases h

/-- **Outside its strings**, a compact text has neither white space nor backticks. -/
theorem outer_of_isCompact (hparse : parseList nesting (cs ++ c :: ds) = .ok v)
    (hcompact : isCompact (cs ++ c :: ds) = true)
    (hout : (Place.outside.afterAll cs).isOutside = true) :
    Text.isBlank c = false ∧ c ≠ '\x60' := by
  have houter := Place.isOuter_of_admits (admits_of_parseList hparse) hout
  have hspace : isSpace c = false := by simpa [hout] using of_holdsAlong hcompact
  simp only [Place.isOuter, hspace, Bool.false_or, Bool.and_eq_true, decide_eq_true_eq,
    bne_iff_ne] at houter
  refine ⟨?_, houter.2⟩
  simp only [Text.isBlank, Bool.or_eq_false_iff, Bool.and_eq_false_iff, decide_eq_false_iff_not,
    beq_eq_false_iff_ne]
  omega

/-- A compact text does not **end** with white space. -/
theorem last_of_isCompact (hparse : parseList nesting (cs ++ [c]) = .ok v)
    (hcompact : isCompact (cs ++ [c]) = true) : Text.isBlank c = false := by
  cases hout : (Place.outside.afterAll cs).isOutside with
  | true => exact (outer_of_isCompact hparse hcompact hout).1
  | false =>
    obtain ⟨q, hq, hread⟩ := reaches_of_parseList hparse
    have hend : (Place.outside.afterAll cs).after c = q := by
      simpa [Place.afterAll] using hread.afterAll_eq rfl
    obtain rfl : c = '"' := Place.eq_quote_of_after hout (hend ▸ hq)
    decide

end DocTree.Json
