import DocTree.Markdown.Section
import DocTree.Proofs.Blank
import DocTree.Proofs.Excerpt
import DocTree.Proofs.Nesting
import DocTree.Proofs.Run
import Mathlib.Algebra.Group.Nat.Even

/-!
# Headings and their sections

Headings are looked for on trimmed lines outside code, and again, for their levels, on the lines as
they are. What passes both is described by one rule. Sections follow each other without gaps and are
nested by their levels.
-/

namespace DocTree.Markdown

open Markdown.Tree Run List

variable {inCode : Bool} {lines : List String} {count n : Nat}

/-! ### Lines -/

/-- A line that begins or ends code. -/
def IsFence (line : List Char) : Prop := Text.beginsWith fence (Text.trimList line) = true

instance : DecidablePred IsFence := fun _ => inferInstanceAs (Decidable (_ = true))

/-- A line is a **heading**: one to six number signs, which white space and something else follow.
-/
def IsHeading (line : List Char) (level : Nat) (title : String) : Prop :=
  1 ≤ level ∧ level ≤ 6 ∧ ∃ c rest, line = replicate level '#' ++ c :: rest ∧
    Text.isBlank c = true ∧ (∃ d ∈ rest, Text.isBlank d = false) ∧
    title = String.ofList (Text.trimList rest)

/-- What both passes find on a line outside code: the level by the line as it is, and the title by
the trimmed line. -/
def heading? (line : List Char) : Option (Nat × String) := do
  let title ← title? (Text.trimList line)
  let level ← level? (String.ofList line)
  return (level, title)

/-- Number signs before a blank. -/
theorem signs_replicate_append {c : Char} (hc : Text.isBlank c = true) (n : Nat)
    (rest : List Char) :
    signs (replicate n '#' ++ c :: rest) = n := by
  have hne : c ≠ '#' := by
    rintro rfl
    exact absurd hc (by decide)
  rw [signs, takeWhile_append_of_pos (by simp [mem_replicate]),
    takeWhile_cons_of_neg (by simpa using hne), append_nil, length_replicate]

/-- A line is its number signs and the rest. -/
theorem eq_replicate_append_drop (cs : List Char) :
    cs = replicate (signs cs) '#' ++ cs.drop (signs cs) := by
  have htake : cs.takeWhile (· == '#') = replicate (signs cs) '#' := by
    refine eq_replicate_iff.mpr ⟨rfl, fun c hc => ?_⟩
    simpa using mem_takeWhile_imp hc
  have hprefix : cs.takeWhile (· == '#') = cs.take (signs cs) :=
    prefix_iff_eq_take.mp (List.takeWhile_prefix _)
  rw [← htake, hprefix, take_append_drop]

/-- What has a title. -/
theorem title?_eq_some_iff {cs : List Char} {title : String} :
    title? cs = some title ↔ ∃ n c rest, n < 6 ∧ cs = replicate (n + 1) '#' ++ c :: rest ∧
      Text.isBlank c = true ∧ title = String.ofList (Text.trimList rest) := by
  constructor
  · intro h
    unfold title? at h
    split at h
    · cases h
    · rename_i n c rest hsigns hdrop
      split at h
      · rename_i hcond
        simp only [Bool.and_eq_true, decide_eq_true_eq] at hcond
        have hcs := eq_replicate_append_drop cs
        rw [hdrop, hsigns] at hcs
        exact ⟨n, c, rest, hcond.1, hcs, hcond.2, (Option.some.inj h).symm⟩
      · cases h
    · cases h
  · rintro ⟨n, c, rest, hn, rfl, hc, rfl⟩
    rw [title?, signs_replicate_append hc]
    simp [hn, hc]

/-- The level of a heading. -/
theorem level?_replicate_append {c : Char} (hc : Text.isBlank c = true) (n : Nat)
    (rest : List Char) :
    level? (String.ofList (replicate (n + 1) '#' ++ c :: rest)) = some (min (n + 1) 6) := by
  rw [level?, String.toList_ofList, signs_replicate_append hc]

/-- A line that begins with a number sign has no white space at its beginning. -/
theorem trimList_of_signs_pos {cs : List Char} (h : signs cs ≠ 0) :
    Text.trimList cs = Text.dropEnd Text.isBlank cs := by
  cases cs with
  | nil => rfl
  | cons c rest =>
    have hc : c = '#' := by
      by_contra hne
      exact h (by simp [signs, hne])
    subst hc
    rw [Text.trimList, Text.dropStart_cons (by decide)]

/-- **Both passes together** find a heading exactly where there is one. -/
theorem heading?_eq_some_iff {line : List Char} {level : Nat} {title : String} :
    heading? line = some (level, title) ↔ IsHeading line level title := by
  constructor
  · intro h
    obtain ⟨title', htitle, h⟩ := Option.bind_eq_some_iff.mp h
    obtain ⟨level', hlevel, h⟩ := Option.bind_eq_some_iff.mp h
    cases h
    obtain ⟨n, c, rest, hn, htrim, hc, rfl⟩ := title?_eq_some_iff.mp htitle
    have hsigns : signs line ≠ 0 := by
      intro hzero
      rw [level?, String.toList_ofList, hzero] at hlevel
      cases hlevel
    rw [trimList_of_signs_pos hsigns] at htrim
    obtain ⟨blanks, hline, hblanks⟩ := Text.exists_blanks_of_dropEnd Text.isBlank line
    rw [htrim, append_assoc, cons_append] at hline
    -- the trimmed line does not end with the white space behind the number signs
    have hvisible : ∃ d ∈ rest, Text.isBlank d = false := by
      have hend : ∀ d, (replicate (n + 1) '#' ++ c :: rest).getLast? = some d →
          Text.isBlank d = false := by
        rw [← htrim]
        exact fun d => Text.of_getLast?_dropEnd
      cases hlast : rest.getLast? with
      | none =>
        have hblank := hend c (by simp [getLast?_cons, hlast])
        rw [hc] at hblank
        cases hblank
      | some d =>
        exact ⟨d, mem_of_getLast? hlast, hend d (by simp [getLast?_cons, hlast])⟩
    rw [hline, level?_replicate_append hc, Nat.min_eq_left hn] at hlevel
    cases hlevel
    refine ⟨Nat.succ_pos n, hn, c, rest ++ blanks, hline, hc, ?_, ?_⟩
    · obtain ⟨d, hd, hnot⟩ := hvisible
      exact ⟨d, mem_append_left _ hd, hnot⟩
    · rw [Text.trimList_append_blanks hblanks]
  · rintro ⟨hpos, hle, c, rest, rfl, hc, hvisible, rfl⟩
    obtain ⟨n, rfl⟩ : ∃ n, level = n + 1 := ⟨level - 1, by omega⟩
    have hsigns : signs (replicate (n + 1) '#' ++ c :: rest) ≠ 0 := by
      rw [signs_replicate_append hc]
      exact Nat.succ_ne_zero n
    have htrim : Text.trimList (replicate (n + 1) '#' ++ c :: rest) =
        replicate (n + 1) '#' ++ c :: Text.dropEnd Text.isBlank rest := by
      rw [trimList_of_signs_pos hsigns, append_cons, Text.dropEnd_append hvisible,
        ← append_cons]
    have htitle : title? (Text.trimList (replicate (n + 1) '#' ++ c :: rest)) =
        some (String.ofList (Text.trimList rest)) :=
      title?_eq_some_iff.mpr ⟨n, c, _, hle, htrim, hc, by rw [Text.trimList_dropEnd]⟩
    rw [heading?, htitle, level?_replicate_append hc, Nat.min_eq_left hle]
    rfl

/-! ### Headings of a text -/

/-- A heading with the **position** of its line, its level and its title. -/
structure Mark where
  position : Nat
  level : Nat
  title : String

/-- A heading that **counts**: its line is a heading and no fence, and an even number of fences
stands before it. -/
def IsMark (lines : List (List Char)) (m : Mark) : Prop :=
  ∃ line, lines[m.position]? = some line ∧ IsHeading line m.level m.title ∧ ¬ IsFence line ∧
    Even ((lines.take m.position).countP (IsFence ·))

/-- The headings that both passes find; `inCode` tells whether the lines begin within code. -/
def marksFrom (position : Nat) (inCode : Bool) : List (List Char) → List Mark
  | [] => []
  | line :: rest =>
    if IsFence line then marksFrom (position + 1) (!inCode) rest
    else if inCode then marksFrom (position + 1) inCode rest
    else
      match heading? line with
      | some (level, title) => ⟨position, level, title⟩ :: marksFrom (position + 1) inCode rest
      | none => marksFrom (position + 1) inCode rest

/-- Whether lines begin within code tells whether the number of fences before them is odd. -/
def fencesBefore (inCode : Bool) : Nat := if inCode then 1 else 0

/-- A heading in lines that begin at a position, perhaps within code, **counts**. -/
def IsMarkFrom (position : Nat) (inCode : Bool) (lines : List (List Char)) (m : Mark) : Prop :=
  ∃ i line, m.position = position + i ∧ lines[i]? = some line ∧ IsHeading line m.level m.title ∧
    ¬ IsFence line ∧ Even (fencesBefore inCode + (lines.take i).countP (IsFence ·))

/-- A fence changes sides. -/
theorem even_fencesBefore_not :
    Even (fencesBefore (!inCode) + n) ↔ Even (fencesBefore inCode + (n + 1)) := by
  have htwo : fencesBefore inCode + fencesBefore (!inCode) = 1 := by
    cases inCode <;> rfl
  rw [Nat.even_iff, Nat.even_iff]
  omega

/-- A heading that counts is on the first line, or behind it. -/
theorem isMarkFrom_cons_iff {position : Nat} {line : List Char} {lines : List (List Char)}
    {m : Mark} :
    IsMarkFrom position inCode (line :: lines) m ↔
      (m.position = position ∧ IsHeading line m.level m.title ∧ ¬ IsFence line ∧ inCode = false) ∨
      IsMarkFrom (position + 1) (if IsFence line then !inCode else inCode) lines m := by
  have heven : Even (fencesBefore inCode) ↔ inCode = false := by
    cases inCode <;> simp [fencesBefore]
  have hcount : ∀ n, Even (fencesBefore (if IsFence line then !inCode else inCode) + n) ↔
      Even (fencesBefore inCode + (n + if IsFence line then 1 else 0)) := by
    intro n
    split
    · exact even_fencesBefore_not
    · rfl
  constructor
  · rintro ⟨i, line', hposition, hline, hheading, hfence, hcode⟩
    cases i with
    | zero =>
      cases hline
      exact .inl ⟨hposition, hheading, hfence, heven.mp hcode⟩
    | succ i =>
      refine .inr ⟨i, line', by omega, hline, hheading, hfence, ?_⟩
      rw [hcount]
      simpa [countP_cons] using hcode
  · rintro (⟨hposition, hheading, hfence, hcode⟩ |
      ⟨i, line', hposition, hline, hheading, hfence, hcode⟩)
    · exact ⟨0, line, hposition, rfl, hheading, hfence, heven.mpr hcode⟩
    · refine ⟨i + 1, line', by omega, hline, hheading, hfence, ?_⟩
      rw [hcount] at hcode
      simpa [countP_cons] using hcode

/-- **The headings that are found** are those that count. -/
theorem mem_marksFrom_iff {position : Nat} {lines : List (List Char)} {m : Mark} :
    m ∈ marksFrom position inCode lines ↔ IsMarkFrom position inCode lines m := by
  induction lines generalizing position inCode with
  | nil => simp [marksFrom, IsMarkFrom]
  | cons line lines ih =>
    rw [isMarkFrom_cons_iff, ← ih, marksFrom]
    by_cases hfence : IsFence line
    · simp [hfence]
    · cases inCode with
      | true => simp [hfence]
      | false =>
        have hheading : ∀ level title, IsHeading line level title ↔
            heading? line = some (level, title) := fun _ _ => heading?_eq_some_iff.symm
        cases hline : heading? line with
        | none => simp [hfence, hheading, hline]
        | some found =>
          obtain ⟨level, title⟩ := found
          obtain ⟨position', level', title'⟩ := m
          simp [hfence, hheading, hline, eq_comm]

/-- Headings are found in the order of their lines. -/
theorem pairwise_marksFrom (position : Nat) (inCode : Bool) (lines : List (List Char)) :
    (marksFrom position inCode lines).Pairwise fun m n => m.position < n.position := by
  induction lines generalizing position inCode with
  | nil => exact .nil
  | cons line lines ih =>
    rw [marksFrom]
    split
    · exact ih _ _
    · split
      · exact ih _ _
      · split
        · refine .cons (fun m hm => ?_) (ih _ _)
          obtain ⟨i, -, hi, -⟩ := mem_marksFrom_iff.mp hm
          rw [hi]
          exact Nat.lt_add_right i (Nat.lt_succ_self position)
        · exact ih _ _

/-- The marks of a text. -/
theorem mem_marks_iff {lines : List (List Char)} {m : Mark} :
    m ∈ marksFrom 0 false lines ↔ IsMark lines m := by
  rw [mem_marksFrom_iff]
  constructor
  · rintro ⟨i, line, hi, hline, hheading, hfence, heven⟩
    rw [Nat.zero_add] at hi
    subst hi
    exact ⟨line, hline, hheading, hfence, by simpa [fencesBefore] using heven⟩
  · rintro ⟨line, hline, hheading, hfence, heven⟩
    exact ⟨m.position, line, (Nat.zero_add _).symm, hline, hheading, hfence,
      by simpa [fencesBefore] using heven⟩

/-! ### Sections of headings -/

/-- What the section of a heading begins with. -/
def Mark.opening (m : Mark) : Opening := ⟨.str m.title, .ofNat (m.position + 1), m.level⟩

/-- Lines are counted from one. -/
theorem position_ofNat_succ (n : Nat) : position (.ofNat (n + 1)) = .ok n := by
  rw [position, Value.sub_of_int? (a := .ofNat (n + 1)) (b := .int 1) rfl rfl]
  change Except.ok (((n + 1 : Nat) : Int) - 1) = Except.ok _
  rw [Int.natCast_succ, Int.add_sub_cancel]

/-- What a heading on a known line opens: a section, if the line begins with number signs. -/
theorem exists_opening? {content : String} (hline : lines[n]? = some content) (title : String)
    (session : Session) (l : Ledger) :
    ∃ l', (opening? lines (Heading.value ⟨title, n + 1⟩)).Returns session l
      ((level? content).map fun level => ⟨.str title, .ofNat (n + 1), level⟩) l' := by
  have hitem : Value.itemOf lines n = .ok content := by
    obtain ⟨hn, rfl⟩ := List.getElem?_eq_some_iff.mp hline
    exact Value.itemOf_of_place? (Value.place?_eq_some_iff.mpr (.inl (by omega))) hn
  refine exists_returns_bind (returns_lift rfl)
    (exists_returns_bind (returns_lift (position_ofNat_succ n))
      (exists_returns_bind (returns_lift hitem) ?_))
  cases level? content with
  | some level =>
    exact exists_returns_bind (returns_lift rfl)
      ⟨l, rfl⟩
  | none => exact exists_returns_bind rfl ⟨_, rfl⟩

/-- **Both passes, heading by heading**: the second one keeps what has a level. -/
theorem passes_induction {rows : List (List Char)} {motive : List Heading → List Mark → Prop}
    (nil : motive [] [])
    (step : ∀ {n line title hs ms}, rows[n]? = some line →
      title? (Text.trimList line) = some title → motive hs ms → motive (⟨title, n + 1⟩ :: hs)
        (((level? (String.ofList line)).map fun level => ⟨n, level, title⟩).toList ++ ms)) :
    motive (headingsFrom 1 false rows) (marksFrom 0 false rows) := by
  suffices hfrom : ∀ rest n inCode, rows.drop n = rest →
      motive (headingsFrom (n + 1) inCode rest) (marksFrom n inCode rest) from
    hfrom rows 0 false rfl
  intro rest
  induction rest with
  | nil => exact fun _ _ _ => nil
  | cons line rest ih =>
    intro n inCode hdrop
    have hrest := fun inCode => ih (n + 1) inCode (by rw [← tail_drop, hdrop, tail_cons])
    rw [headingsFrom, marksFrom]
    by_cases hfence : IsFence line
    · rw [if_pos hfence,
        if_pos (show Text.beginsWith fence (Text.trimList line) = true from hfence)]
      exact hrest _
    · rw [if_neg hfence,
        if_neg (show ¬ Text.beginsWith fence (Text.trimList line) = true from hfence)]
      cases inCode with
      | true => exact hrest _
      | false =>
        rw [if_neg Bool.false_ne_true, if_neg Bool.false_ne_true, heading?]
        cases htitle : title? (Text.trimList line) with
        | none => exact hrest _
        | some title =>
          have hline : rows[n]? = some line := by rw [← head?_drop, hdrop, head?_cons]
          have hboth := step hline htitle (hrest false)
          cases hlevel : level? (String.ofList line) with
          | none => rwa [hlevel] at hboth
          | some level => rwa [hlevel] at hboth

/-- **The second pass keeps the headings whose lines begin with number signs.** -/
theorem exists_openings (rows : List (List Char)) (session : Session) (l : Ledger) :
    ∃ l', (openings (rows.map String.ofList)
      ((headingsFrom 1 false rows).map Heading.value)).Returns session l
      ((marksFrom 0 false rows).map Mark.opening) l' := by
  refine passes_induction (motive := fun hs ms => ∀ l, ∃ l', (openings (rows.map String.ofList)
    (hs.map Heading.value)).Returns session l (ms.map Mark.opening) l') (fun l => ⟨l, rfl⟩) ?_ l
  intro n line title hs ms hline _ ih l
  have hcontent : (rows.map String.ofList)[n]? = some (String.ofList line) := by
    rw [getElem?_map, hline]
    rfl
  obtain ⟨l₁, hopening⟩ := exists_opening? hcontent title session l
  obtain ⟨l₂, hopenings⟩ := ih l₁
  refine exists_returns_bind hopening
    (exists_returns_bind hopenings ⟨l₂, returns_pure_iff.mpr ⟨?_, rfl⟩⟩)
  cases level? (String.ofList line) with
  | none => rfl
  | some level => rfl

/-- Headings with the positions at which their sections **stop**: where the next one begins, or
behind the last line. -/
def withStops (count : Nat) : List Mark → List (Mark × Nat)
  | [] => []
  | m :: rest => (m, (rest.head?.map Mark.position).getD count) :: withStops count rest

/-- The **text** of a section: the lines from its heading up to where it stops, without white space
around them. -/
def sectionText (lines : List String) (s : Mark × Nat) : String :=
  Text.trim (Text.join "\n" ((lines.take s.2).drop s.1.position))

def sectionOf (lines : List String) (s : Mark × Nat) : Value :=
  .object [("title", .str s.1.title), ("line_num", .ofNat (s.1.position + 1)),
    ("level", .ofNat s.1.level), ("text", .str (sectionText lines s))]

/-- A cut within the text. -/
theorem cutPoint_ofNat (h : n ≤ count) : Value.cutPoint count n = n := by
  simp [Value.cutPoint, h]

/-- A section ends at the next heading. -/
theorem endPosition_opening (rest : List Mark) :
    endPosition lines (rest.map Mark.opening) =
      .ok ((rest.head?.map Mark.position).getD lines.length : Nat) := by
  cases rest with
  | nil => rfl
  | cons m rest => exact position_ofNat_succ m.position

/-- The sections of headings that lie within the lines. -/
theorem sectionValues_opening {ms : List Mark} (hms : ∀ m ∈ ms, m.position ≤ lines.length) :
    sectionValues lines (ms.map Mark.opening) =
      .ok ((withStops lines.length ms).map (sectionOf lines)) := by
  induction ms with
  | nil => rfl
  | cons m rest ih =>
    have hstop : (rest.head?.map Mark.position).getD lines.length ≤ lines.length := by
      cases rest with
      | nil => exact Nat.le_refl _
      | cons next rest => exact hms next (.tail _ (.head _))
    have hsection : sectionValue lines m.opening (rest.map Mark.opening) =
        .ok (sectionOf lines (m, (rest.head?.map Mark.position).getD lines.length)) := by
      rw [sectionValue, endPosition_opening rest, Mark.opening, position_ofNat_succ]
      simp only [bind, Except.bind, Value.sliceList, cutPoint_ofNat hstop,
        cutPoint_ofNat (hms m (.head _))]
      rfl
    rw [map_cons, sectionValues, hsection, ih fun n hn => hms n (.tail _ hn)]
    rfl

/-- Marks keep their order. -/
theorem map_fst_withStops (count : Nat) (ms : List Mark) :
    (withStops count ms).map Prod.fst = ms := by
  induction ms with
  | nil => rfl
  | cons m rest ih => rw [withStops, map_cons, ih]

/-- A section is not empty. -/
theorem position_lt_of_mem_withStops {ms : List Mark}
    (horder : ms.Pairwise fun m n => m.position < n.position) (hms : ∀ m ∈ ms, m.position < count) :
    ∀ s ∈ withStops count ms, s.1.position < s.2 := by
  induction ms with
  | nil => exact forall_mem_nil _
  | cons m rest ih =>
    obtain ⟨hfirst, hrest⟩ := pairwise_cons.mp horder
    intro s hs
    rcases mem_cons.mp hs with rfl | hs
    · cases rest with
      | nil => exact hms m (.head _)
      | cons next rest => exact hfirst next (.head _)
    · exact ih hrest (fun n hn => hms n (.tail _ hn)) s hs

/-- **Each line from the first heading on is in one section.** -/
theorem existsUnique_of_withStops {ms : List Mark}
    (horder : ms.Pairwise fun m n => m.position < n.position) {k : Nat} (hk : k < count)
    (hfirst : ∃ m ∈ ms, m.position ≤ k) :
    ∃! s, s ∈ withStops count ms ∧ s.1.position ≤ k ∧ k < s.2 := by
  induction ms with
  | nil =>
    obtain ⟨m, hm, -⟩ := hfirst
    cases hm
  | cons m rest ih =>
    obtain ⟨hbefore, hrest⟩ := pairwise_cons.mp horder
    -- later sections begin at their headings, so before the next heading only the first one is met
    have hlater : ∀ s ∈ withStops count rest, s.1 ∈ rest := by
      intro s hs
      rw [← map_fst_withStops count rest]
      exact mem_map_of_mem hs
    by_cases hnext : ∃ n ∈ rest, n.position ≤ k
    · obtain ⟨s, ⟨hs, hin⟩, hunique⟩ := ih hrest hnext
      refine ⟨s, ⟨.tail _ hs, hin⟩, fun s' hs' => ?_⟩
      rcases mem_cons.mp hs'.1 with rfl | hs''
      · obtain ⟨n, hn, hle⟩ := hnext
        have hhead : (rest.head?.map Mark.position).getD count ≤ n.position := by
          cases rest with
          | nil => cases hn
          | cons next rest =>
            rcases mem_cons.mp hn with rfl | hn
            · exact Nat.le_refl _
            · exact Nat.le_of_lt ((pairwise_cons.mp hrest).1 n hn)
        exact absurd (Nat.lt_of_lt_of_le hs'.2.2 (Nat.le_trans hhead hle)) (Nat.lt_irrefl k)
      · exact hunique s' ⟨hs'', hs'.2⟩
    · have hbegun : m.position ≤ k := by
        obtain ⟨n, hn, hle⟩ := hfirst
        rcases mem_cons.mp hn with rfl | hn
        · exact hle
        · exact absurd ⟨n, hn, hle⟩ hnext
      have hstop : k < (rest.head?.map Mark.position).getD count := by
        cases rest with
        | nil => exact hk
        | cons next rest => exact Nat.lt_of_not_le fun hle => hnext ⟨next, .head _, hle⟩
      refine ⟨_, ⟨.head _, hbegun, hstop⟩, fun s' hs' => ?_⟩
      rcases mem_cons.mp hs'.1 with rfl | hs''
      · rfl
      · exact absurd ⟨s'.1, hlater s' hs'', hs'.2.1⟩ hnext

/-- Headings lie within their text. -/
theorem position_lt_of_mem_marksFrom {text : String} {m : Mark}
    (hm : m ∈ marksFrom 0 false (Text.splitAtChar '\n' text.toList)) :
    m.position < (Text.lines text).length := by
  obtain ⟨line, hline, -⟩ := mem_marks_iff.mp hm
  rw [Text.lines, Text.split, length_map]
  exact (List.getElem?_eq_some_iff.mp hline).1

/-- **The sections of a text** are those of the headings that both passes find. -/
theorem exists_returns_sections (text : String) (session : Session) (l : Ledger) :
    ∃ l', (sections (Text.lines text) ((headings text).map Heading.value)).Returns session l
      ((withStops (Text.lines text).length
        (marksFrom 0 false (Text.splitAtChar '\n' text.toList))).map
          (sectionOf (Text.lines text))) l' := by
  obtain ⟨l', hopenings⟩ := exists_openings (Text.splitAtChar '\n' text.toList) session l
  exact ⟨l', returns_bind_iff.mpr ⟨_, l', hopenings, returns_lift_iff.mpr
    ⟨sectionValues_opening fun _ hm => Nat.le_of_lt (position_lt_of_mem_marksFrom hm), rfl⟩⟩⟩

/-! ### The tree of a text -/

/-- Headings have sections. -/
theorem isSection_sectionOf (lines : List String) (s : Mark × Nat) :
    IsSection (sectionOf lines s) := ⟨rfl, rfl, rfl, rfl⟩

/-- A node **describes** a heading and its section: it has the title, the line and the text. -/
structure Describes (lines : List String) (s : Mark × Nat) (node : Value) : Prop where
  title : node.field? "title" = some (.str s.1.title)
  line : node.field? "line_num" = some (.ofNat (s.1.position + 1))
  text : node.field? "text" = some (.str (sectionText lines s))

/-- The node of a section describes it. -/
theorem describes_render {s : Mark × Nat} {t : Tree (Value × Nat)}
    (h : sectionOf lines s = t.root.1) : Describes lines s (render numberedNode t) := by
  obtain ⟨⟨v, i⟩, branches⟩ := t
  obtain rfl : sectionOf lines s = v := h
  rw [render_node]
  exact ⟨rfl, rfl, rfl⟩

/-- The subtrees of the forest of sections describe the headings, in their order. -/
theorem forall₂_describes (lines : List String) (stops : List (Mark × Nat)) :
    Forall₂ (Describes lines) stops
      ((subtreesOf (nested numberedLevel (stops.map (sectionOf lines)).zipIdx)).map
        (render numberedNode)) := by
  have hroots : (subtreesOf (nested numberedLevel (stops.map (sectionOf lines)).zipIdx)).map
      (fun t => t.root.1) = stops.map (sectionOf lines) := by
    have helements := congrArg (List.map Prod.fst)
      (elements_nested numberedLevel (stops.map (sectionOf lines)).zipIdx)
    rw [elements, map_map, zipIdx_map_fst] at helements
    exact helements
  have hequal : Forall₂ Eq (stops.map (sectionOf lines))
      ((subtreesOf (nested numberedLevel (stops.map (sectionOf lines)).zipIdx)).map
        fun t => t.root.1) := by
    rw [hroots]
    exact forall₂_refl _
  rw [forall₂_map_left_iff, forall₂_map_right_iff] at hequal
  exact forall₂_map_right_iff.mpr (hequal.imp fun _ _ => describes_render)

/-- Nodes that describe different headings are different. -/
theorem nodup_of_describes {stops : List (Mark × Nat)} {nodes : List Value}
    (horder : (stops.map Prod.fst).Pairwise fun m n => m.position < n.position)
    (h : Forall₂ (Describes lines) stops nodes) : nodes.Nodup := by
  induction h with
  | nil => exact .nil
  | @cons s node stops nodes hnode hnodes ih =>
    obtain ⟨hfirst, hrest⟩ := pairwise_cons.mp horder
    refine nodup_cons.mpr ⟨fun hmem => ?_, ih hrest⟩
    obtain ⟨s', hs', hnode'⟩ := exists_right_of_forall₂ hnodes.flip node hmem
    have hline : s'.1.position + 1 = s.1.position + 1 := by
      have hsome := hnode'.line.symm.trans hnode.line
      rw [Option.some.injEq, Value.ofNat, Value.ofNat, Value.int.injEq] at hsome
      exact Int.ofNat_inj.mp hsome
    have hlt := hfirst s'.1 (mem_map_of_mem hs')
    omega

/-- **A text is nested by its headings.** The nodes of its tree, in document order, describe the
headings that count: lines outside code that begin with one to six number signs, white space and a
title. Each line from the first heading on is in one of their sections. A node is right below the
nearest earlier one with fewer number signs. -/
theorem text_is_nested_by_headings (text : String) (session : Session) (l : Ledger) :
    ∃ secs forest nodes marks l',
      (sections (Text.lines text) ((headings text).map Heading.value)).Returns session l secs
        l' ∧
      treeOf secs = .ok forest ∧
      Outline.nodes (.list forest) = .ok (some nodes) ∧
      marks.Pairwise (fun m n => m.position < n.position) ∧
      (∀ m, m ∈ marks ↔ IsMark (Text.splitAtChar '\n' text.toList) m) ∧
      Forall₂ (Describes (Text.lines text)) (withStops (Text.lines text).length marks) nodes ∧
      (∀ s ∈ withStops (Text.lines text).length marks, s.1.position < s.2) ∧
      (∀ k < (Text.lines text).length, (∃ m ∈ marks, m.position ≤ k) →
        ∃! s, s ∈ withStops (Text.lines text).length marks ∧ s.1.position ≤ k ∧ k < s.2) ∧
      (∀ i j parent child, nodes[i]? = some parent → nodes[j]? = some child →
        (child ∈ Outline.children parent ↔
          Above (marks.map fun m => (m.level : Int)) i j)) ∧
      (∀ j node, nodes[j]? = some node →
        (node ∈ forest ↔ OnTop (marks.map fun m => (m.level : Int)) j)) := by
  set rows := Text.splitAtChar '\n' text.toList
  set marks := marksFrom 0 false rows
  set stops := withStops (Text.lines text).length marks
  set secs := stops.map (sectionOf (Text.lines text))
  have horder : marks.Pairwise fun m n => m.position < n.position := pairwise_marksFrom 0 false rows
  obtain ⟨l', hsections⟩ := exists_returns_sections text session l
  have htree :
      treeOf secs = .ok ((nested numberedLevel secs.zipIdx).map (render numberedNode)) := by
    refine treeOf_eq fun s hs => ?_
    obtain ⟨stop, -, rfl⟩ := mem_map.mp hs
    exact isSection_sectionOf _ stop
  have hnodes :
      Outline.nodes (.list ((nested numberedLevel secs.zipIdx).map (render numberedNode))) =
      .ok (some ((subtreesOf (nested numberedLevel secs.zipIdx)).map (render numberedNode))) := by
    rw [← renderAll_eq_map, Outline.nodes, nodesOfList_renderAll]
    rfl
  have hdescribes := forall₂_describes (Text.lines text) stops
  have hnodup := nodup_of_describes (by rwa [map_fst_withStops]) hdescribes
  have hlevels : secs.map levelOf = marks.map fun m => (m.level : Int) := by
    rw [← map_fst_withStops (Text.lines text).length marks, map_map, map_map]
    rfl
  refine ⟨secs, _, _, marks, l', hsections, htree, hnodes, horder, fun m => mem_marks_iff,
    hdescribes, position_lt_of_mem_withStops horder fun m => position_lt_of_mem_marksFrom,
    fun k hk hfirst => existsUnique_of_withStops horder hk hfirst, ?_, ?_⟩
  · intro i j parent child hi hj
    rw [← hlevels]
    exact mem_children_iff rfl hnodup hi hj
  · intro j node hj
    rw [← hlevels]
    exact mem_map_render_iff rfl hnodup hj

end DocTree.Markdown
