import DocTree.Pdf
import DocTree.Proofs.Blank
import DocTree.Proofs.Excerpt
import DocTree.Proofs.Path

/-!
# Reading page tags back

A tag holds no line feed, and a `<` at its beginning only. So the tags in the text of several pages
without such beginnings are those that were written, in their order.
-/

namespace DocTree

open List

/-! ### Numbers -/

namespace Text

variable {c : Char} {cs : List Char}

/-- The value of an ASCII digit. -/
theorem digitValue?_of_isDigit (h : c.isDigit = true) : digitValue? c = some (c.toNat - 48) := by
  have hrange := toNat_of_isDigit h
  simp only [digitValue?]
  rw [if_pos (by omega), if_pos (by simp [hrange])]

/-- Digits are read. -/
theorem readDigits_of_isDigit (h : ∀ c ∈ cs, c.isDigit = true) (value count : Nat) :
    readDigits value count cs = some (Nat.ofDigitChars 10 cs value, count + cs.length) := by
  induction cs generalizing value count with
  | nil => rfl
  | cons c cs ih =>
    obtain ⟨hc, hcs⟩ := forall_mem_cons.mp h
    rw [readDigits, digitValue?_of_isDigit hc]
    · dsimp only
      rw [ih hcs, Nat.ofDigitChars_cons, length_cons, Nat.add_assoc, Nat.add_comm 1]
      rfl
    · rintro _ _ ⟨⟩
      cases hc

/-- ASCII digits are read as the number that they make, if they are not too many. -/
theorem readInteger_of_isDigit (hne : cs ≠ []) (h : ∀ c ∈ cs, c.isDigit = true) :
    readInteger (String.ofList cs) =
      if digitLimit < cs.length then .tooLong cs.length
      else .number (Nat.ofDigitChars 10 cs 0) := by
  have hascii : cs.all (·.toNat < 0x80) = true := by
    refine all_eq_true.mpr fun c hc => decide_eq_true ?_
    have hrange := toNat_of_isDigit (h c hc)
    omega
  have hdrop : ∀ ds ⊆ cs, ds.dropWhile isAsciiBlank = ds := by
    intro ds hds
    cases ds with
    | nil => rfl
    | cons c ds =>
      have hrange := toNat_of_isDigit (h c (hds (.head _)))
      refine dropWhile_cons_of_neg ?_
      simp only [isAsciiBlank, Bool.or_eq_true, Bool.and_eq_true, decide_eq_true_eq, beq_iff_eq]
      rintro (hblank | rfl)
      · omega
      · exact absurd hrange (by decide)
  -- no digit is a sign, or the underscore that may stand between digits
  have hfirst : ∀ c : Char, c.isDigit = false → ∀ ds, cs ≠ c :: ds := by
    rintro c hc ds rfl
    exact Bool.eq_false_iff.mp hc (h c (.head _))
  have hnatural : readNatural cs = some (Nat.ofDigitChars 10 cs 0, cs.length) := by
    rw [readNatural, readDigits_of_isDigit h, Nat.zero_add]
    · exact hne
    · exact hfirst '_' rfl
  have hsigned : readSigned cs = some (((Nat.ofDigitChars 10 cs 0 : Nat) : Int), cs.length) := by
    rw [readSigned, hnatural]
    · rfl
    · exact hfirst '-' rfl
    · exact hfirst '+' rfl
  simp only [readInteger, String.toList_ofList]
  rw [if_pos hascii, dropStart, hdrop cs (List.Subset.refl cs), dropEnd,
    hdrop _ fun c hc => mem_reverse.mp hc, reverse_reverse, hsigned]

end Text

namespace Pdf

variable {cs rest : List Char} {n : Nat}

/-- Numerals are digits. -/
theorem isDigit_of_mem_digits : ∀ c ∈ Nat.toDigits 10 n, c.isDigit = true :=
  fun _ => Nat.isDigit_of_mem_toDigits (by decide) (by decide)

/-- The text of a number is its numeral. -/
theorem toList_intText (n : Nat) : (Decimal.intText n).toList = Nat.toDigits 10 n := by
  rw [Decimal.intText, if_neg (by omega), Int.natAbs_natCast, Decimal.natText,
    String.toList_ofList]

/-- The number of a tag is **read back**, if its digits are not too many. -/
theorem tagNumber_toDigits_eq_ok_iff :
    tagNumber (some (Nat.toDigits 10 n)) = .ok n ↔
      (Decimal.intText n).length ≤ Text.digitLimit := by
  rw [← String.length_toList, toList_intText, tagNumber, Value.parseInteger,
    Text.readInteger_of_isDigit Nat.toDigits_ne_nil isDigit_of_mem_digits,
    Nat.ofDigitChars_ten_toDigits]
  split_ifs with hlong
  · simpa using hlong
  · simpa using hlong

/-! ### Tags in a text -/

/-- Where no tag begins, the next character is looked at. -/
theorem tags_cons {c : Char} (h : ¬ tagStart <+: c :: cs) : tags (c :: cs) = tags cs := by
  have hafter : Text.after? tagStart (c :: cs) = none := by
    rw [Option.eq_none_iff_forall_ne_some]
    intro rest hrest
    exact h ⟨rest, (Text.after?_eq_some_iff.mp hrest).symm⟩
  rw [tags, tagAt?, hafter]

/-- A text without the beginning of a tag shows **no tag** before a line feed. -/
theorem tags_append_newline (h : ¬ tagStart <:+: cs) : tags (cs ++ '\n' :: rest) = tags rest := by
  -- a tag that begins in the text would reach over the line feed, which it cannot hold
  have hstart : ∀ {cs}, ¬ tagStart <:+: cs → ¬ tagStart <+: cs ++ '\n' :: rest := by
    intro cs hcs hprefix
    have hline : '\n' ∉ tagStart := by decide
    have hfeed : cs ++ ['\n'] <+: cs ++ '\n' :: rest := ⟨rest, by simp⟩
    have hmem : '\n' ∈ cs ++ ['\n'] := mem_append_right _ (.head _)
    rcases prefix_or_prefix_of_prefix hprefix hfeed with hin | hout
    · rcases prefix_concat_iff.mp hin with heq | hin
      · exact hline (heq ▸ hmem)
      · exact hcs hin.isInfix
    · exact hline (hout.subset hmem)
  induction cs with
  | nil => exact tags_cons (hstart h)
  | cons c cs ih =>
    refine (tags_cons (hstart h)).trans (ih fun hwithin => h ?_)
    exact hwithin.trans (suffix_cons c cs).isInfix

/-- No tag without its first character. -/
theorem not_tagStart_within (h : '<' ∉ cs) : ¬ tagStart <:+: cs :=
  fun hwithin => h (hwithin.subset (by decide))

/-- A tag is found with its digits. -/
theorem tagAt?_digits {ds : List Char} (hne : ds ≠ []) (hds : ∀ c ∈ ds, Text.isDigit c = true)
    (more : List Char) :
    tagAt? ('<' :: ("start_index_".toList ++ (ds ++ ['>']) ++ more)) = some ds := by
  have hstart : '<' :: ("start_index_".toList ++ (ds ++ ['>']) ++ more) =
      tagStart ++ (ds ++ '>' :: more) := by
    rw [show tagStart = '<' :: "start_index_".toList from rfl]
    simp only [cons_append, nil_append, append_assoc]
  rw [hstart, tagAt?, Text.after?_eq_some_iff.mpr rfl]
  dsimp only
  rw [takeWhile_append_of_pos hds, takeWhile_cons_of_neg (by decide),
    dropWhile_append_of_pos hds, dropWhile_cons_of_neg (by decide), append_nil]
  obtain ⟨d, ds, rfl⟩ := exists_cons_of_ne_nil hne
  rfl

/-- A page without the beginning of a tag in it shows **one tag**: the one before it. -/
theorem tags_tagged {text : String} (h : ¬ tagStart <:+: text.toList) (n : Nat) (rest : List Char) :
    tags ((tagged n text).toList ++ rest) = Nat.toDigits 10 n :: tags rest := by
  have hdigits := toList_intText n
  have hat := tagAt?_digits (Nat.toDigits_ne_nil (n := n)) fun c hc => by
    rw [Text.isDigit, Text.digitValue?_of_isDigit (isDigit_of_mem_digits c hc)]
    rfl
  have hshort : ∀ name : List Char, '<' ∉ name → '<' ∉ name ++ (Nat.toDigits 10 n ++ ['>']) := by
    intro name hname
    have hnot : '<' ∉ Nat.toDigits 10 n := fun hmem =>
      absurd (isDigit_of_mem_digits _ hmem) (by decide)
    simp [hname, hnot]
  generalize Nat.toDigits 10 n = ds at *
  have hsplit : (tagged n text).toList ++ rest =
      '<' :: ("start_index_".toList ++ (ds ++ ['>']) ++ '\n' :: (text.toList ++ '\n' ::
        ('<' :: ("end_index_".toList ++ (ds ++ ['>'])) ++ '\n' :: rest))) := by
    have hopen : "<start_index_".toList = '<' :: "start_index_".toList := rfl
    have hclose : ">\n".toList = ['>', '\n'] := rfl
    have hbehind : "\n<end_index_".toList = '\n' :: '<' :: "end_index_".toList := rfl
    unfold tagged
    simp only [String.toList_append, append_assoc, hdigits]
    rewrite [hopen, hclose, hbehind]
    simp only [cons_append, nil_append, append_assoc]
  -- the tag behind the page has another name
  have hname : ¬ tagStart <:+: '<' :: ("end_index_".toList ++ (ds ++ ['>'])) := by
    rw [infix_cons_iff, not_or]
    refine ⟨fun hprefix => ?_, not_tagStart_within (hshort _ (by decide))⟩
    have hchar : 's' = 'e' := (cons_prefix_cons.mp (cons_prefix_cons.mp hprefix).2).1
    cases hchar
  rw [hsplit, tags, hat]
  dsimp only
  rw [tags_append_newline (not_tagStart_within (hshort _ (by decide))), tags_append_newline h,
    tags_append_newline hname]

/-- The texts of pages in a row show **the numbers of these pages**, in order. -/
theorem exists_tags_of_collect {pages : List String} {f : Int → Except Failure String}
    (hf : ∀ i (hi : i < pages.length), f i = .ok (tagged (i + 1 : Nat) pages[i]))
    (hplain : ∀ text ∈ pages, ¬ tagStart <:+: text.toList) {first count : Nat}
    (h : first + count ≤ pages.length) :
    ∃ text, Page.collect f count first = .ok text ∧
      tags text.toList = (List.range' (first + 1) count).map (Nat.toDigits 10) := by
  induction count generalizing first with
  | zero => exact ⟨"", rfl, rfl⟩
  | succ count ih =>
    have hlt : first < pages.length := by omega
    obtain ⟨text, htext, htags⟩ := @ih (first + 1) (by omega)
    refine ⟨tagged (first + 1 : Nat) pages[first] ++ text, ?_, ?_⟩
    · exact bind_ok (hf first hlt) (bind_ok htext rfl)
    · rw [String.toList_append, tags_tagged (hplain _ (getElem_mem hlt)), htags,
        range'_succ, map_cons]

/-- **Page tags are read back.** Let no page hold the beginning of a tag. Then the text of the pages
from one to another can be made, its first tag is read as the first of them, and its last tag as the
last: always, but for numbers with more digits than can be read. -/
theorem page_tags_are_read_back (pdf : Pdf)
    (hplain : ∀ text ∈ pdf.pages, ¬ "<start_index_".toList <:+: text.toList) (first last : Int)
    (hfirst : 1 ≤ first) (hle : first ≤ last) (hlast : last ≤ pdf.pages.length) :
    ∃ text, pdf.taggedText first last true = .ok text ∧
      (firstTag text = .ok first ↔ (Decimal.intText first).length ≤ Text.digitLimit) ∧
      (lastTag text = .ok last ↔ (Decimal.intText last).length ≤ Text.digitLimit) := by
  obtain ⟨start, rfl⟩ : ∃ start : Nat, first = (start + 1 : Nat) := ⟨(first - 1).toNat, by omega⟩
  obtain ⟨count, rfl⟩ : ∃ count : Nat, last = (start + 1 + count : Nat) :=
    ⟨(last - (start + 1 : Nat)).toNat, by omega⟩
  obtain ⟨text, htext, htags⟩ : ∃ text,
      pdf.taggedText (start + 1 : Nat) (start + 1 + count : Nat) true = .ok text ∧
        tags text.toList = (List.range' (start + 1) (count + 1)).map (Nat.toDigits 10) := by
    have hlength : ((start + 1 + count : Nat) - ((start + 1 : Nat) - 1) : Int).toNat =
        count + 1 := by
      omega
    have hstart : ((start + 1 : Nat) - 1 : Int) = start := by omega
    rw [taggedText, Page.range, hlength, hstart]
    refine exists_tags_of_collect (fun i hi => ?_) hplain (by omega)
    rw [Value.itemOf_of_place? (Value.place?_eq_some_iff.mpr (.inl (by omega))) hi]
    rfl
  refine ⟨text, htext, ?_, ?_⟩
  · rw [firstTag, htags, range'_succ, map_cons, head?_cons]
    exact tagNumber_toDigits_eq_ok_iff
  · rw [lastTag, htags, range'_1_concat, map_append, map_singleton,
      getLast?_concat]
    exact tagNumber_toDigits_eq_ok_iff

/-- Three pages, on which parts of tags stand in all places. -/
def trapPages : Pdf where
  pages := ["<end_index_7>\n<start_index", "_9>\n<start_index 8><start_", "index_5>5><"]

/-- Pages with parts of tags. -/
theorem page_tags_are_read_back_trap :
    (∀ text ∈ trapPages.pages, ¬ "<start_index_".toList <:+: text.toList) ∧
      ∃ text, trapPages.taggedText 2 3 true = .ok text ∧ firstTag text = .ok 2 ∧
        lastTag text = .ok 3 := by
  have hplain : ∀ text ∈ trapPages.pages, ¬ "<start_index_".toList <:+: text.toList := by
    decide +kernel
  obtain ⟨text, htext, hfirst, hlast⟩ := page_tags_are_read_back trapPages hplain 2 3 (by decide)
    (by decide) (by decide)
  exact ⟨hplain, text, htext, hfirst.mpr (by decide), hlast.mpr (by decide)⟩

end Pdf

end DocTree
