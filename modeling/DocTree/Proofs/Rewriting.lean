import DocTree.Proofs.Stitching

/-!
# Rewriting texts

Occurrences of a text are replaced, and runs of white space become one space. Both go piece by piece
where the pieces meet in the right way.
-/

namespace DocTree.Text

open List

variable {needle new cs ds : List Char} {c d : Char} {p : Char → Bool}

/-! ### Replacing -/

/-- What was found is passed over. -/
theorem replaceFrom_length_append (needle new ds cs : List Char) :
    replaceFrom needle new ds.length (ds ++ cs) = replaceList needle new cs := by
  induction ds with
  | nil => rfl
  | cons d ds ih => exact ih

/-- An occurrence at the beginning is replaced. -/
theorem replaceList_needle_append (hne : needle ≠ []) (new cs : List Char) :
    replaceList needle new (needle ++ cs) = new ++ replaceList needle new cs := by
  obtain ⟨c, needle, rfl⟩ := exists_cons_of_ne_nil hne
  have hbegins : beginsWith (c :: needle) (c :: (needle ++ cs)) = true :=
    beginsWith_iff.mpr (prefix_append (c :: needle) cs)
  rw [replaceList, cons_append, replaceFrom, if_pos hbegins]
  exact congrArg (new ++ ·) (replaceFrom_length_append _ new needle cs)

/-- Another character is kept. -/
theorem replaceList_cons (h : ¬ needle <+: c :: cs) (new : List Char) :
    replaceList needle new (c :: cs) = c :: replaceList needle new cs := by
  rw [replaceList, replaceFrom, if_neg (mt beginsWith_iff.mp h)]
  rfl

/-- **Induction along the occurrences** of a text that are replaced. -/
theorem replace_induction {motive : List Char → Prop} (hne : needle ≠ []) (nil : motive [])
    (found : ∀ cs, motive cs → motive (needle ++ cs))
    (other : ∀ c cs, ¬ needle <+: c :: cs → motive cs → motive (c :: cs)) (cs : List Char) :
    motive cs := by
  induction hn : cs.length using Nat.strong_induction_on generalizing cs with
  | h n ih =>
    have hpos := length_pos_iff.mpr hne
    by_cases h : needle <+: cs
    · obtain ⟨ds, rfl⟩ := h
      rw [length_append] at hn
      exact found ds (ih _ (by omega) ds rfl)
    · cases cs with
      | nil => exact nil
      | cons c cs =>
        rw [length_cons] at hn
        exact other c cs h (ih _ (by omega) cs rfl)

/-- Nothing is replaced where the first character is missing. -/
theorem replaceList_append_of_not_mem (hds : c ∉ ds) (needle new cs : List Char) :
    replaceList (c :: needle) new (ds ++ cs) = ds ++ replaceList (c :: needle) new cs := by
  induction ds with
  | nil => rfl
  | cons d ds ih =>
    obtain ⟨hne, hds⟩ := not_or.mp (mt mem_cons.mpr hds)
    have hfront : ¬ c :: needle <+: d :: (ds ++ cs) := fun h => hne (cons_prefix_cons.mp h).1
    rw [cons_append, replaceList_cons hfront, ih hds, cons_append]

/-- An occurrence ends before a character that is not in it. -/
theorem prefix_append_cons_iff (hd : d ∉ needle) : needle <+: cs ++ d :: ds ↔ needle <+: cs := by
  induction needle generalizing cs with
  | nil => simp
  | cons c needle ih =>
    obtain ⟨hne, hd⟩ := not_or.mp (mt mem_cons.mpr hd)
    cases cs with
    | nil => simp [Ne.symm hne]
    | cons b cs => simp [ih hd]

/-- A character that the replaced text does not have **severs** a text. -/
theorem replaceList_append_cons (hne : needle ≠ []) (hd : d ∉ needle) (new cs ds : List Char) :
    replaceList needle new (cs ++ d :: ds) =
      replaceList needle new cs ++ d :: replaceList needle new ds := by
  induction cs using replace_induction hne with
  | nil =>
    have hfront : ¬ needle <+: [] ++ d :: ds := mt (prefix_append_cons_iff hd).mp (by simp [hne])
    exact replaceList_cons hfront new
  | found cs ih =>
    rw [append_assoc, replaceList_needle_append hne, ih, replaceList_needle_append hne,
      append_assoc]
  | other c cs h ih =>
    have hfront : ¬ needle <+: c :: cs ++ d :: ds := mt (prefix_append_cons_iff hd).mp h
    rw [cons_append] at hfront ⊢
    rw [replaceList_cons hfront, ih, replaceList_cons h, cons_append]

/-- Nothing is replaced where nothing occurs. -/
theorem replaceList_of_absent (h : ¬ needle <:+: cs) (new : List Char) :
    replaceList needle new cs = cs := by
  induction cs with
  | nil => rfl
  | cons c cs ih =>
    obtain ⟨hfront, hinside⟩ := not_or.mp (mt infix_cons_iff.mpr h)
    rw [replaceList_cons hfront, ih hinside]

/-! ### Runs of white space -/

/-- The text with every **run** of characters of a kind as one space; `within` says whether a run
has already begun. -/
def squeeze (p : Char → Bool) : Bool → List Char → List Char
  | _, [] => []
  | within, c :: cs =>
    if p c then if within then squeeze p true cs else ' ' :: squeeze p true cs
    else c :: squeeze p false cs

/-- The text has **no white space** at its ends, and is not empty. -/
def Solid (cs : List Char) : Prop :=
  cs.head?.any (!isBlank ·) = true ∧ cs.getLast?.any (!isBlank ·) = true

/-- Runs end at another character. -/
theorem squeeze_append_cons (hd : p d = false) (within : Bool) (cs ds : List Char) :
    squeeze p within (cs ++ d :: ds) = squeeze p within cs ++ d :: squeeze p false ds := by
  induction cs generalizing within with
  | nil => simp [squeeze, hd]
  | cons c cs ih =>
    rw [cons_append, squeeze, squeeze, ih, ih]
    split <;> [split; skip] <;> rfl

/-- Two parts, the first of which ends with no run. -/
theorem squeeze_append_of_last (h : cs.getLast?.any (!p ·) = true) (within : Bool)
    (ds : List Char) : squeeze p within (cs ++ ds) = squeeze p within cs ++ squeeze p false ds := by
  obtain ⟨d, hlast, hd⟩ : ∃ d, cs.getLast? = some d ∧ p d = false := by
    cases hcs : cs.getLast? with
    | none => simp [hcs] at h
    | some d => exact ⟨d, rfl, by simpa [hcs] using h⟩
  obtain ⟨cs, rfl⟩ := getLast?_eq_some_iff.mp hlast
  rw [append_assoc, singleton_append, squeeze_append_cons hd, squeeze_append_cons hd,
    append_assoc]
  rfl

/-- A text that begins with no run. -/
theorem squeeze_of_head (h : cs.head?.any (!p ·) = true) (within : Bool) :
    squeeze p within cs = squeeze p false cs := by
  cases cs with
  | nil => rfl
  | cons c cs =>
    have hc : p c = false := by simpa using h
    simp [squeeze, hc]

/-- Solid text is squeezed on its own. -/
theorem Solid.squeeze_append (h : Solid cs) (within : Bool) (ds : List Char) :
    squeeze isBlank within (cs ++ ds) = squeeze isBlank false cs ++ squeeze isBlank false ds := by
  rw [squeeze_append_of_last h.2, squeeze_of_head h.1]

/-- Without runs nothing is squeezed. -/
theorem squeeze_of_forall (h : ∀ c ∈ cs, p c = false) (within : Bool) :
    squeeze p within cs = cs := by
  induction cs generalizing within with
  | nil => rfl
  | cons c cs ih =>
    obtain ⟨hc, hcs⟩ := forall_mem_cons.mp h
    simp [squeeze, hc, ih hcs]

/-- A run becomes one space. -/
theorem squeeze_run (h : ∀ c ∈ cs, p c = true) (within : Bool) (ds : List Char) :
    squeeze p within (cs ++ ds) =
      (if cs.isEmpty || within then [] else [' ']) ++ squeeze p (within || !cs.isEmpty) ds := by
  induction cs generalizing within with
  | nil => simp
  | cons c cs ih =>
    obtain ⟨hc, hcs⟩ := forall_mem_cons.mp h
    cases within <;> simp [squeeze, hc, ih hcs]

/-- There are words where there is something visible. -/
theorem wordsFrom_ne_nil {word : List Char} (h : word ≠ [] ∨ ∃ c ∈ cs, isBlank c = false) :
    wordsFrom word cs ≠ [] := by
  induction cs generalizing word with
  | nil => simpa [wordsFrom] using h
  | cons c cs ih =>
    rw [wordsFrom]
    split
    · rename_i hc
      split
      · refine ih (.inr ?_)
        simp_all
      · simp
    · exact ih (.inl (by simp))

/-- Joining words squeezes the text. -/
theorem intercalate_wordsFrom (h : ∀ c, cs.getLast? = some c → isBlank c = false)
    (word : List Char) :
    [' '].intercalate (wordsFrom word cs) = word.reverse ++ squeeze isBlank word.isEmpty cs := by
  induction cs generalizing word with
  | nil => cases word <;> simp [wordsFrom, squeeze]
  | cons c cs ih =>
    have hlast := h _ getLast?_cons
    have hih := ih fun d hd => by rwa [hd] at hlast
    by_cases hc : isBlank c = true
    · -- A run does not end the text, so there is a word behind it.
      obtain ⟨d, hd⟩ : ∃ d, cs.getLast? = some d := by
        cases hcs : cs.getLast? with
        | none => simp [hcs, hc] at hlast
        | some d => exact ⟨d, rfl⟩
      have hwords : wordsFrom [] cs ≠ [] :=
        wordsFrom_ne_nil (.inr ⟨d, mem_of_getLast? hd, by rwa [hd] at hlast⟩)
      obtain ⟨first, rest, hrest⟩ := exists_cons_of_ne_nil hwords
      have hnil := hih []
      cases word with
      | nil => simpa [wordsFrom, squeeze, hc] using hnil
      | cons b word =>
        rw [hrest] at hnil
        simpa [wordsFrom, squeeze, hc, hrest] using hnil
    · cases word <;> simp [wordsFrom, squeeze, hc, hih]

/-- Between the **words** of a text with no white space at its ends stand its runs. -/
theorem collapse_of_solid (h : Solid cs) : Reply.collapse cs = squeeze isBlank false cs := by
  have hlast : ∀ c, cs.getLast? = some c → isBlank c = false := by
    intro c hc
    simpa [hc] using h.2
  rw [Reply.collapse, wordLists, intercalate_wordsFrom hlast, isEmpty_nil, squeeze_of_head h.1]
  rfl

/-- The last character of two parts. -/
theorem last_append (h : ds.getLast?.any p = true) (cs : List Char) :
    (cs ++ ds).getLast?.any p = true := by
  cases hds : ds.getLast? with
  | none => simp [hds] at h
  | some d => simpa [getLast?_append, hds] using h

/-- Replacing solid text keeps text solid. -/
theorem Solid.replaceList (hne : needle ≠ []) (hnew : Solid new) (h : Solid cs) :
    Solid (replaceList needle new cs) := by
  obtain ⟨hfirst, hlast⟩ := h
  constructor
  · induction cs using replace_induction hne with
    | nil => exact hfirst
    | found cs =>
      rw [replaceList_needle_append hne]
      cases new with
      | nil => cases hnew.1
      | cons c new => exact hnew.1
    | other c cs h =>
      rw [replaceList_cons h]
      exact hfirst
  · clear hfirst
    induction cs using replace_induction hne with
    | nil => exact hlast
    | found cs ih =>
      rw [replaceList_needle_append hne]
      cases cs with
      | nil => simpa [Text.replaceList, replaceFrom] using hnew.2
      | cons c cs => exact last_append (ih (by simpa [getLast?_cons] using hlast)) new
    | other c cs h ih =>
      rw [replaceList_cons h]
      cases cs with
      | nil => exact hlast
      | cons d cs => exact last_append (ih (by simpa using hlast)) [c]

/-- Solid text is not trimmed. -/
theorem trimList_of_solid (h : Solid cs) : trimList cs = cs := by
  obtain ⟨hfirst, hlast⟩ := h
  rcases eq_nil_or_concat cs with rfl | ⟨bs, b, rfl⟩
  · rfl
  rw [concat_eq_append] at hfirst hlast ⊢
  have hb : isBlank b = false := by simpa using hlast
  have hstart : dropStart isBlank (bs ++ [b]) = bs ++ [b] := by
    cases bs with
    | nil => exact dropStart_cons hb
    | cons c bs => exact dropStart_cons (by simpa using hfirst)
  rw [trimList, hstart, dropEnd_of_last hb]

/-- The first character of two parts. -/
theorem first_append {p : Char → Bool} (h : cs.head?.any p = true) (ds : List Char) :
    (cs ++ ds).head?.any p = true := by
  cases cs with
  | nil => cases h
  | cons c cs => exact h

/-- Text without white space is solid. -/
theorem solid_of_forall (hne : cs ≠ []) (h : ∀ c ∈ cs, isBlank c = false) : Solid cs := by
  obtain ⟨c, cs, rfl⟩ := exists_cons_of_ne_nil hne
  refine ⟨by simp [h c], ?_⟩
  rw [getLast?_eq_getLast_of_ne_nil hne]
  simp [h _ (getLast_mem hne)]

end DocTree.Text
