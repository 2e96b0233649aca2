import DocTree.Text.Blank
import Mathlib.Data.List.TakeWhile

/-!
# White space at the ends of texts

A list of characters is its part up to the last one that is not white space, followed by white
space.
-/

namespace DocTree.Text

open List

variable {p : Char → Bool} {cs ds : List Char}

/-- The codes of digits. -/
theorem toNat_of_isDigit {c : Char} (h : c.isDigit = true) : 48 ≤ c.toNat ∧ c.toNat ≤ 57 := by
  simpa [Char.isDigit, UInt32.le_iff_toNat_le] using h

/-- A list of characters is **what trimming its end leaves**, followed by what it takes away. -/
theorem exists_blanks_of_dropEnd (p : Char → Bool) (cs : List Char) :
    ∃ blanks, cs = dropEnd p cs ++ blanks ∧ ∀ c ∈ blanks, p c = true := by
  refine ⟨(cs.reverse.takeWhile p).reverse, ?_, fun c hc => ?_⟩
  · rw [dropEnd, ← reverse_append, takeWhile_append_dropWhile, reverse_reverse]
  · exact mem_takeWhile_imp (mem_reverse.mp hc)

/-- After trimming, the end is not white space. -/
theorem of_getLast?_dropEnd {c : Char} (h : (dropEnd p cs).getLast? = some c) : p c = false := by
  rw [dropEnd, getLast?_reverse] at h
  have hnot := head?_dropWhile_not p cs.reverse
  rw [h] at hnot
  exact hnot

/-- What stands before a character that is no white space **stays** when the end is trimmed. -/
theorem dropEnd_append (hds : ∃ c ∈ ds, p c = false) :
    dropEnd p (cs ++ ds) = cs ++ dropEnd p ds := by
  obtain ⟨c, hc, hp⟩ := hds
  have hne : ds.reverse.dropWhile p ≠ [] := by
    intro hnil
    have hall := dropWhile_eq_nil_iff.mp hnil c (mem_reverse.mpr hc)
    rw [hp] at hall
    cases hall
  rw [dropEnd, dropEnd, reverse_append, dropWhile_append, if_neg (by simpa using hne),
    reverse_append, reverse_reverse]

/-- What is dropped may follow. -/
theorem dropEnd_append_blanks (h : ∀ c ∈ ds, p c = true) : dropEnd p (cs ++ ds) = dropEnd p cs := by
  rw [dropEnd, dropEnd, reverse_append, dropWhile_append_of_pos fun c hc =>
    h c (mem_reverse.mp hc)]

/-- Nothing is dropped before a character that stays. -/
theorem dropStart_cons {c : Char} (h : p c = false) : dropStart p (c :: cs) = c :: cs := by
  rw [dropStart, dropWhile_cons_of_neg (by simp [h])]

/-- **White space at the end does not count.** -/
theorem trimList_append_blanks (h : ∀ c ∈ ds, isBlank c = true) :
    trimList (cs ++ ds) = trimList cs := by
  rw [trimList, trimList, dropStart, dropStart, dropWhile_append]
  split
  · rename_i hnil
    rw [isEmpty_iff.mp hnil]
    have hds : ds.dropWhile isBlank = [] := dropWhile_eq_nil_iff.mpr h
    rw [hds]
  · exact dropEnd_append_blanks h

/-- The end may be trimmed first. -/
theorem trimList_dropEnd (cs : List Char) : trimList (dropEnd isBlank cs) = trimList cs := by
  obtain ⟨blanks, hcs, hblanks⟩ := exists_blanks_of_dropEnd isBlank cs
  calc trimList (dropEnd isBlank cs)
      = trimList (dropEnd isBlank cs ++ blanks) := (trimList_append_blanks hblanks).symm
    _ = trimList cs := by rw [← hcs]

end DocTree.Text
