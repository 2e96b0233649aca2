import DocTree.Text.Search
import Mathlib.Data.List.Basic

/-!
# Pieces of texts

A text that is split at a separator and **joined** again is the same text. No piece has the
separator in it.
-/

namespace DocTree.Text

open List

/-! ### Splitting -/

/-- There is always a piece. -/
theorem splitAtChar_ne_nil (sep : Char) (cs : List Char) : splitAtChar sep cs ≠ [] := by
  cases cs with
  | nil => exact cons_ne_nil _ _
  | cons c cs =>
    rw [splitAtChar]
    split
    · exact cons_ne_nil _ _
    · split <;> exact cons_ne_nil _ _

/-- A separator ends a piece, whatever follows. -/
theorem splitAtChar_append (sep : Char) (cs ds : List Char) :
    splitAtChar sep (cs ++ sep :: ds) = splitAtChar sep cs ++ splitAtChar sep ds := by
  induction cs with
  | nil => simp [splitAtChar]
  | cons c cs ih =>
    rw [cons_append, splitAtChar, splitAtChar, ih]
    split
    · rfl
    · cases h : splitAtChar sep cs with
      | nil => exact absurd h (splitAtChar_ne_nil sep cs)
      | cons piece rest => rfl

/-- One piece without separators. -/
theorem splitAtChar_of_not_mem {sep : Char} {cs : List Char} (h : sep ∉ cs) :
    splitAtChar sep cs = [cs] := by
  induction cs with
  | nil => rfl
  | cons c cs ih =>
    obtain ⟨hc, hcs⟩ := not_or.mp fun hmem => h (mem_cons.mpr hmem)
    rw [splitAtChar, if_neg (Ne.symm hc), ih hcs]

/-- No piece has the separator in it. -/
theorem not_mem_of_mem_splitAtChar {sep : Char} {cs : List Char} :
    ∀ piece ∈ splitAtChar sep cs, sep ∉ piece := by
  induction cs with
  | nil => simp [splitAtChar]
  | cons c cs ih =>
    rw [splitAtChar]
    split
    · exact forall_mem_cons.mpr ⟨not_mem_nil, ih⟩
    · rename_i hc
      cases h : splitAtChar sep cs with
      | nil => exact absurd h (splitAtChar_ne_nil sep cs)
      | cons piece rest =>
        rw [h, forall_mem_cons] at ih
        refine forall_mem_cons.mpr ⟨fun hmem => ?_, ih.2⟩
        exact (mem_cons.mp hmem).elim (fun heq => hc heq.symm) ih.1

/-- What follows the last separator is the last piece. -/
theorem split_append {sep : Char} {s last : String} (h : sep ∉ last.toList) :
    split (s ++ String.singleton sep ++ last) sep = split s sep ++ [last] := by
  rw [split, String.toList_append, String.toList_append, String.toList_singleton, append_assoc,
    singleton_append, splitAtChar_append, splitAtChar_of_not_mem h, map_append,
    map_singleton, String.ofList_toList, split]

/-! ### Joining -/

/-- The first piece, and the others. -/
theorem join_cons {gap first : String} {rest : List String} (h : rest ≠ []) :
    join gap (first :: rest) = first ++ gap ++ join gap rest := by
  cases rest with
  | nil => exact absurd rfl h
  | cons next rest => rfl

/-- Pieces of two parts. -/
theorem join_append {gap : String} {as bs : List String} (ha : as ≠ []) (hb : bs ≠ []) :
    join gap (as ++ bs) = join gap as ++ gap ++ join gap bs := by
  induction as with
  | nil => exact absurd rfl ha
  | cons first rest ih =>
    cases rest with
    | nil => exact join_cons hb
    | cons next rest =>
      have hne : next :: rest ≠ [] := cons_ne_nil _ _
      rw [cons_append, join_cons (append_ne_nil_of_left_ne_nil hne bs), ih hne,
        join_cons hne]
      simp only [String.append_assoc]

/-- **Texts may be joined in groups.** -/
theorem join_map_join (gap : String) {groups : List (List String)} (h : ∀ g ∈ groups, g ≠ []) :
    join gap (groups.map (join gap)) = join gap groups.flatten := by
  induction groups with
  | nil => rfl
  | cons g groups ih =>
    have hgroups := fun g' hg' => h g' (mem_cons_of_mem g hg')
    cases groups with
    | nil => rw [flatten_cons, flatten_nil, append_nil]; rfl
    | cons next rest =>
      have hflatten : (next :: rest).flatten ≠ [] := by
        rw [flatten_cons]
        exact append_ne_nil_of_left_ne_nil (hgroups next (.head _)) _
      have hmap : (next :: rest).map (join gap) ≠ [] := cons_ne_nil _ _
      rw [map_cons, join_cons hmap, ih hgroups, flatten_cons (l := g),
        join_append (h g (.head _)) hflatten]

/-- Splitting is undone by joining. -/
theorem join_splitAtChar (sep : Char) (cs : List Char) :
    (join (String.singleton sep) ((splitAtChar sep cs).map String.ofList)).toList = cs := by
  induction cs with
  | nil => rfl
  | cons c cs ih =>
    rw [splitAtChar]
    split
    · rename_i hc
      subst hc
      rw [map_cons, join_cons (by simpa using splitAtChar_ne_nil c cs), String.toList_append,
        ih]
      simp
    · cases h : splitAtChar sep cs with
      | nil => exact absurd h (splitAtChar_ne_nil sep cs)
      | cons piece rest =>
        rw [h, map_cons] at ih
        rw [map_cons]
        cases rest with
        | nil =>
          rw [map_nil, join, String.toList_ofList] at ih ⊢
          rw [ih]
        | cons next rest =>
          have hne : (next :: rest).map String.ofList ≠ [] := by simp
          rw [join_cons hne, String.toList_append, String.toList_append,
            String.toList_ofList] at ih ⊢
          rw [← ih]
          rfl

/-- **Joining undoes splitting.** -/
theorem join_split (s : String) (sep : Char) : join (String.singleton sep) (split s sep) = s :=
  String.ext (join_splitAtChar sep s.toList)

end DocTree.Text
