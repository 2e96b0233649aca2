import DocTree.Path
import DocTree.Proofs.Pieces

/-!
# Names along a path

A **name** is not empty and has no slash in it. The names along a path can be read back from it, so
different things have different paths.
-/

namespace DocTree

open List

variable {cs : List Char} {names : List String} {name s : String}

/-! ### Beginnings and ends -/

namespace Text

/-- What stands behind a beginning. -/
theorem after?_eq_some_iff {start rest : List Char} :
    after? start cs = some rest ↔ cs = start ++ rest := by
  induction start generalizing cs with
  | nil => simp [after?, eq_comm]
  | cons p ps ih =>
    cases cs with
    | nil => simp [after?]
    | cons c cs =>
      rw [after?]
      by_cases h : p = c
      · subst h
        simp [ih]
      · simp [h, Ne.symm h]

/-- Beginnings are prefixes. -/
theorem beginsWith_iff {start : List Char} : beginsWith start cs = true ↔ start <+: cs := by
  rw [beginsWith, Option.isSome_iff_exists]
  constructor
  · rintro ⟨rest, h⟩
    exact ⟨rest, (after?_eq_some_iff.mp h).symm⟩
  · rintro ⟨rest, h⟩
    exact ⟨rest, after?_eq_some_iff.mpr h.symm⟩

/-- So are beginnings of texts. -/
theorem startsWith_iff {start : String} :
    startsWith s start = true ↔ start.toList <+: s.toList := beginsWith_iff

/-- Endings are suffixes. -/
theorem endsWith_iff {finish : String} : endsWith s finish = true ↔ finish.toList <:+ s.toList := by
  rw [endsWith, beginsWith_iff, reverse_prefix]

/-- One of several endings. -/
theorem endsWithAny_iff {endings : List String} :
    endsWithAny s endings = true ↔ ∃ ending ∈ endings, ending.toList <:+ s.toList := by
  rw [endsWithAny, any_eq_true]
  exact exists_congr fun ending => and_congr_right fun _ => endsWith_iff

end Text

namespace Path

/-! ### Names -/

/-- A **name** in a directory: it is not empty, and has no slash in it. -/
def IsName (name : String) : Prop := name ≠ "" ∧ '/' ∉ name.toList

instance (name : String) : Decidable (IsName name) := inferInstanceAs (Decidable (_ ∧ _))

/-- What stands before the names below a path: the path, with a slash at its end unless it has one
or is empty. -/
def before (path : String) : String :=
  if path.isEmpty || Text.endsWith path "/" then path else path ++ "/"

/-- A beginning of a path after which a name can stand: it is empty, or a slash ends it. -/
def IsAnchor (cs : List Char) : Prop := cs = [] ∨ ∃ ds, cs = ds ++ ['/']

/-- What stands before a name is an anchor. -/
theorem isAnchor_before (path : String) : IsAnchor (before path).toList := by
  unfold before
  split
  · rename_i h
    rcases Bool.or_eq_true_iff.mp h with h | h
    · exact .inl (by rw [String.isEmpty_iff.mp h]; rfl)
    · obtain ⟨ds, hds⟩ := Text.endsWith_iff.mp h
      exact .inr ⟨ds, hds.symm⟩
  · exact .inr ⟨path.toList, by simp⟩

/-- A name is joined to a path. -/
theorem join_of_isName (h : IsName name) (path : String) :
    join path name = before path ++ name := by
  have hslash : ¬ Text.startsWith name "/" = true := by
    intro hstart
    obtain ⟨rest, hrest⟩ := Text.startsWith_iff.mp hstart
    exact h.2 (hrest ▸ mem_append_left _ (by decide))
  rw [join, if_neg hslash, before]
  split <;> rfl

/-- The pieces of a path that ends with a name. -/
theorem exists_components (hcs : IsAnchor cs) (h : IsName name) :
    ∃ above, Text.splitAtChar '/' (cs ++ name.toList) = above ++ [name.toList] := by
  rcases hcs with rfl | ⟨ds, rfl⟩
  · exact ⟨[], Text.splitAtChar_of_not_mem h.2⟩
  · refine ⟨Text.splitAtChar '/' ds, ?_⟩
    rw [append_assoc, singleton_append, Text.splitAtChar_append,
      Text.splitAtChar_of_not_mem h.2]

/-- The name behind an anchor. -/
theorem baseName_of_isAnchor {path : String} (hcs : IsAnchor cs) (h : IsName name)
    (hpath : path.toList = cs ++ name.toList) : baseName path = name := by
  obtain ⟨above, habove⟩ := exists_components hcs h
  rw [baseName, components, Text.split, hpath, habove, map_append, map_singleton,
    getLast?_append, getLast?_singleton, Option.some_or, Option.getD_some,
    String.ofList_toList]

/-- The **last component** of the path of something is its name. -/
theorem baseName_join (h : IsName name) (path : String) : baseName (join path name) = name := by
  refine baseName_of_isAnchor (isAnchor_before path) h ?_
  rw [join_of_isName h, String.toList_append]

/-! ### Normal paths -/

/-- Leading slashes are an anchor. -/
theorem isAnchor_leadingSlashes (path : String) : IsAnchor (leadingSlashes path).toList := by
  unfold leadingSlashes
  split
  · exact .inr ⟨[], rfl⟩
  · split
    · exact .inr ⟨['/'], rfl⟩
    · split
      · exact .inr ⟨[], rfl⟩
      · exact .inl rfl

/-- An anchor behind an anchor. -/
theorem IsAnchor.append {ds : List Char} (hcs : IsAnchor cs) (hds : IsAnchor ds) :
    IsAnchor (cs ++ ds) := by
  rcases hds with rfl | ⟨es, rfl⟩
  · rwa [append_nil]
  · exact .inr ⟨cs ++ es, by rw [append_assoc]⟩

/-- Components with slashes between them end with the last one. -/
theorem exists_toList_join (parts : List String) (name : String) :
    ∃ cs, IsAnchor cs ∧ (Text.join "/" (parts ++ [name])).toList = cs ++ name.toList := by
  induction parts with
  | nil => exact ⟨[], .inl rfl, rfl⟩
  | cons part rest ih =>
    obtain ⟨cs, hcs, hjoin⟩ := ih
    have hstep : Text.join "/" (part :: (rest ++ [name])) =
        part ++ "/" ++ Text.join "/" (rest ++ [name]) := by
      cases rest <;> rfl
    refine ⟨part.toList ++ ['/'] ++ cs, .append (.inr ⟨part.toList, rfl⟩) hcs, ?_⟩
    rw [cons_append, hstep, String.toList_append, String.toList_append, hjoin,
      append_assoc _ cs]
    rfl

/-- The last component of the **normal path** of something is its name, if it is no dots. -/
theorem baseName_normalize_join (h : IsName name) (hdot : name ≠ ".") (hdots : name ≠ "..")
    (path : String) : baseName (normalize (join path name)) = name := by
  obtain ⟨above, habove⟩ := exists_components (isAnchor_before path) h
  have hcomponents : components (join path name) = above.map String.ofList ++ [name] := by
    rw [components, Text.split, join_of_isName h, String.toList_append, habove, map_append,
      map_singleton, String.ofList_toList]
  have hadd : ∀ fromRoot parts, addComponent fromRoot parts name = name :: parts := by
    intro fromRoot parts
    simp [addComponent, h.1, hdot, hdots]
  simp only [normalize, hcomponents, foldl_append, foldl_cons, foldl_nil, hadd,
    reverse_cons]
  generalize List.reverse (List.foldl (addComponent _) [] _) = parts
  obtain ⟨cs, hcs, hjoin⟩ := exists_toList_join parts name
  have hnormal : (leadingSlashes (join path name) ++ Text.join "/" (parts ++ [name])).toList =
      (leadingSlashes (join path name)).toList ++ cs ++ name.toList := by
    rw [String.toList_append, hjoin, append_assoc]
  have hne : ¬ (leadingSlashes (join path name) ++
      Text.join "/" (parts ++ [name])).isEmpty = true := by
    intro hempty
    rw [String.isEmpty_iff.mp hempty] at hnormal
    exact h.1 (String.toList_eq_nil_iff.mp (append_eq_nil_iff.mp hnormal.symm).2)
  rw [if_neg hne]
  exact baseName_of_isAnchor ((isAnchor_leadingSlashes _).append hcs) h hnormal

/-! ### Paths along names -/

/-- The path of what is found **along** names below a path. -/
def along (path : String) (names : List String) : String := names.foldl join path

/-- Names, each with a slash behind it. -/
def withSlashes (names : List String) : List Char := names.flatMap fun name => name.toList ++ ['/']

/-- Names are split at slashes. -/
theorem splitAtChar_withSlashes (h : ∀ name ∈ names, IsName name) :
    Text.splitAtChar '/' (withSlashes names) = names.map String.toList ++ [[]] := by
  induction names with
  | nil => rfl
  | cons name names ih =>
    obtain ⟨hname, hnames⟩ := forall_mem_cons.mp h
    have hstep : withSlashes (name :: names) = name.toList ++ '/' :: withSlashes names := by
      simp [withSlashes]
    rw [hstep, Text.splitAtChar_append, Text.splitAtChar_of_not_mem hname.2, ih hnames]
    rfl

/-- What stands before the next name. -/
theorem toList_before_join (h : IsName name) (path : String) :
    (before (join path name)).toList = (before path).toList ++ (name.toList ++ ['/']) := by
  have hnot : ¬ ((join path name).isEmpty || Text.endsWith (join path name) "/") = true := by
    rw [join_of_isName h]
    intro hor
    rcases Bool.or_eq_true_iff.mp hor with hempty | hslash
    · have hnil := congrArg String.toList (String.isEmpty_iff.mp hempty)
      rw [String.toList_append] at hnil
      exact h.1 (String.toList_eq_nil_iff.mp (append_eq_nil_iff.mp hnil).2)
    · -- the last character is that of the name
      obtain ⟨cs, hcs⟩ := Text.endsWith_iff.mp hslash
      have hlast := congrArg List.getLast? hcs
      rw [String.toList_append,
        getLast?_append_of_ne_nil _ (mt String.toList_eq_nil_iff.mp h.1)] at hlast
      refine h.2 (mem_of_getLast? (hlast.symm.trans ?_))
      exact getLast?_concat
  rw [before, if_neg hnot, join_of_isName h]
  simp

/-- What stands before the name behind several. -/
theorem toList_before_along (h : ∀ name ∈ names, IsName name) (path : String) :
    (before (along path names)).toList = (before path).toList ++ withSlashes names := by
  induction names generalizing path with
  | nil => simp [along, withSlashes]
  | cons name names ih =>
    obtain ⟨hname, hnames⟩ := forall_mem_cons.mp h
    have hstep : along path (name :: names) = along (join path name) names := rfl
    rw [hstep, ih hnames, toList_before_join hname]
    simp [withSlashes]

/-- **Names can be read back** from the path of what is found along them. -/
theorem along_injective {path : String} {names' : List String} (h : ∀ name ∈ names, IsName name)
    (h' : ∀ name ∈ names', IsName name) (heq : along path names = along path names') :
    names = names' := by
  have hslashes : withSlashes names = withSlashes names' := by
    have hbefore := congrArg (fun p => (before p).toList) heq
    simp only [toList_before_along h, toList_before_along h'] at hbefore
    exact append_cancel_left hbefore
  have hsplit := congrArg (Text.splitAtChar '/') hslashes
  rw [splitAtChar_withSlashes h, splitAtChar_withSlashes h'] at hsplit
  exact map_injective_iff.mpr (fun _ _ => String.toList_inj.mp)
    (append_cancel_right hsplit)

end Path

end DocTree
