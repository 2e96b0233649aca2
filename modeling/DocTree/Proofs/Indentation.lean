import DocTree.Proofs.Headings

/-!
# Indented headings

A heading behind white space passes the first search, on trimmed lines, and is dropped by the
second, so that its lines go to the section before it.
-/

namespace DocTree.Markdown

open Run List

/-- Whether a heading is **indented**: its line begins with white space. -/
def isIndented (lines : List (List Char)) (h : Heading) : Bool :=
  (lines[h.line - 1]?.bind List.head?).any Text.isBlank

/-- What the first pass finds of a heading. -/
def Mark.heading (m : Mark) : Heading := ⟨m.title, m.position + 1⟩

/-- What is a heading when trimmed has no level exactly if it is indented. -/
theorem level?_eq_none_iff {line : List Char} {title : String}
    (h : title? (Text.trimList line) = some title) :
    level? (String.ofList line) = none ↔ line.head?.any Text.isBlank = true := by
  have hlevel : level? (String.ofList line) = none ↔ signs line = 0 := by
    rw [level?, String.toList_ofList]
    cases signs line <;> simp
  obtain ⟨n, c, rest, -, htrim, -, -⟩ := title?_eq_some_iff.mp h
  rw [hlevel]
  cases line with
  | nil => cases htrim
  | cons d ds =>
    cases hd : Text.isBlank d with
    | true =>
      have hne : d ≠ '#' := by
        rintro rfl
        cases hd
      simp [signs, hne, hd]
    | false =>
      -- trimming leaves the first character where it is, and that is a number sign
      obtain ⟨blanks, hline, -⟩ := Text.exists_blanks_of_dropEnd Text.isBlank (d :: ds)
      rw [Text.trimList, Text.dropStart_cons hd] at htrim
      rw [htrim, replicate_succ] at hline
      obtain ⟨rfl, -⟩ := List.cons.inj hline
      simp [signs, hd]

/-- **What is left of the headings** of the first pass are those that are not indented. -/
theorem map_heading_marksFrom (rows : List (List Char)) :
    (marksFrom 0 false rows).map Mark.heading =
      (headingsFrom 1 false rows).filter fun h => !isIndented rows h := by
  refine passes_induction (motive := fun hs ms => ms.map Mark.heading =
    hs.filter fun h => !isIndented rows h) rfl ?_
  intro n line title hs ms hline htitle ih
  have hindented : isIndented rows ⟨title, n + 1⟩ = line.head?.any Text.isBlank := by
    simp [isIndented, hline]
  have hkept := level?_eq_none_iff htitle
  cases hlevel : level? (String.ofList line) with
  | none =>
    rw [filter_cons_of_neg (by simp [hindented, hkept.mp hlevel])]
    exact ih
  | some level =>
    have hnot : line.head?.any Text.isBlank = false := by
      rw [← Bool.not_eq_true, ← hkept, hlevel]
      exact Option.some_ne_none level
    rw [filter_cons_of_pos (by simp [hindented, hnot])]
    exact congrArg (List.cons _) ih

/-- The title and the line of a heading, as its section has them. -/
def Heading.place (h : Heading) : Option Value × Option Value :=
  (some (.str h.title), some (.ofNat h.line))

def placeOf (s : Value) : Option Value × Option Value := (s.field? "title", s.field? "line_num")

/-- The sections of headings have their titles and lines. -/
theorem map_placeOf_sectionOf (lines : List String) (count : Nat) (ms : List Mark) :
    ((withStops count ms).map (sectionOf lines)).map placeOf =
      (ms.map Mark.heading).map Heading.place := by
  have hplaces : ((withStops count ms).map (sectionOf lines)).map placeOf =
      (((withStops count ms).map Prod.fst).map Mark.heading).map Heading.place := by
    simp only [map_map]
    rfl
  rw [hplaces, map_fst_withStops]

/-- **The passes agree exactly if no heading is indented.** The second pass keeps the headings that
are not, in order, and drops all others. -/
theorem passes_agree_iff_none_indented (text : String) (session : Session) (l : Ledger) :
    ∃ secs l',
      (sections (Text.lines text) ((headings text).map Heading.value)).Returns session l secs
        l' ∧
      secs.map placeOf = ((headings text).filter fun h =>
        !isIndented (Text.splitAtChar '\n' text.toList) h).map Heading.place ∧
      (secs.map placeOf = (headings text).map Heading.place ↔
        ∀ h ∈ headings text, isIndented (Text.splitAtChar '\n' text.toList) h = false) := by
  set rows := Text.splitAtChar '\n' text.toList
  set marks := marksFrom 0 false rows
  have hmarks : marks.map Mark.heading = (headings text).filter fun h => !isIndented rows h :=
    map_heading_marksFrom rows
  set secs := (withStops (Text.lines text).length marks).map (sectionOf (Text.lines text))
  obtain ⟨l', hsections⟩ := exists_returns_sections text session l
  have hplaces : secs.map placeOf =
      ((headings text).filter fun h => !isIndented rows h).map Heading.place := by
    rw [← hmarks]
    exact map_placeOf_sectionOf _ _ marks
  refine ⟨secs, l', hsections, hplaces, ?_⟩
  rw [hplaces]
  constructor
  · intro hsame h hh
    have hlength := congrArg List.length hsame
    rw [length_map, length_map, length_filter_eq_length_iff] at hlength
    simpa using hlength h hh
  · intro hnone
    rw [filter_eq_self.mpr fun h hh => by simp [hnone h hh]]

/-- An indented heading is found by the first pass and dropped by the second. -/
theorem indented_heading_is_dropped :
    (headings "# Sea\n  ## Tides").map (fun h => (h.title, h.line)) = [("Sea", 1), ("Tides", 2)] ∧
    ((sections (Text.lines "# Sea\n  ## Tides")
      ((headings "# Sea\n  ## Tides").map Heading.value)).execute (scripted []) {}).1 =
      .ok [.object [("title", .str "Sea"), ("line_num", .int 1), ("level", .int 1),
        ("text", .str "# Sea\n  ## Tides")]] := by
  decide +kernel

end DocTree.Markdown
