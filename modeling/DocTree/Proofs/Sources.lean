import DocTree.Code.Directory
import DocTree.Proofs.Path
import Mathlib.Data.List.Nodup
import Mathlib.Data.String.Basic

/-!
# Source files in directories

A directory **leads** along visible names to a source file. In order or not, entries lead to the
same files. In order, the source files are listed once each, those of directories first.
-/

namespace DocTree

open List

variable {e : Entry} {entries : List (String × Entry)} {names : List String} {name text : String}
  {d : String × Entry}

/-! ### Entries in order -/

namespace Entry

/-- **Induction on entries**, through the entries of directories. -/
theorem entry_induction {motive : Entry → Prop} (file : ∀ text, motive (.file text))
    (directory : ∀ entries, (∀ d ∈ entries, motive d.2) → motive (.directory entries)) :
    ∀ e, motive e
  | .file text => file text
  | .directory entries => directory entries fun d _ => entry_induction file directory d.2
termination_by e => sizeOf e
decreasing_by
  obtain ⟨name, e⟩ := d
  have hlt := sizeOf_lt_of_mem ‹(name, e) ∈ entries›
  simp only [Prod.mk.sizeOf_spec, Entry.directory.sizeOf_spec] at hlt ⊢
  omega

/-- The first entry is looked at first. -/
theorem lookup_cons (name n : String) (e : Entry) (rest : List (String × Entry)) :
    ((n, e) :: rest).lookup name = if name = n then some e else rest.lookup name := by
  rw [List.lookup_cons]
  by_cases h : name = n
  · rw [beq_iff_eq.mpr h, if_pos h]
  · rw [beq_eq_false_iff_ne.mpr h, if_neg h]

/-- An entry that was set. -/
theorem lookup_setEntry (name other : String) (e : Entry) (entries : List (String × Entry)) :
    (setEntry name e entries).lookup other =
      if other = name then some e else entries.lookup other := by
  induction entries with
  | nil => rw [setEntry, lookup_cons]
  | cons d rest ih =>
    obtain ⟨n, e'⟩ := d
    rw [setEntry]
    split
    · rename_i hn
      subst hn
      rw [lookup_cons, lookup_cons]
      split <;> rfl
    · rename_i hn
      split
      · rw [lookup_cons]
      · rw [lookup_cons, lookup_cons, ih]
        by_cases h : other = name
        · subst h
          rw [if_neg (Ne.symm hn), if_pos rfl, if_pos rfl]
        · rw [if_neg h, if_neg h]

/-- Putting entries in order changes nothing about what is found by a name. -/
theorem lookup_sortedEntries (name : String) (entries : List (String × Entry)) :
    (sortedEntries entries).lookup name = (entries.lookup name).map sorted := by
  induction entries with
  | nil => rfl
  | cons d rest ih =>
    obtain ⟨n, e⟩ := d
    rw [sortedEntries, lookup_setEntry, ih, lookup_cons]
    split <;> rfl

/-- Entries after setting one. -/
theorem mem_setEntry (h : d ∈ setEntry name e entries) : d = (name, e) ∨ d ∈ entries := by
  induction entries with
  | nil => exact .inl (mem_singleton.mp h)
  | cons d' rest ih =>
    obtain ⟨n, e'⟩ := d'
    rw [setEntry] at h
    split at h
    · rcases mem_cons.mp h with h | h
      · exact .inl h
      · exact .inr (.tail _ h)
    · split at h
      · exact mem_cons.mp h
      · rcases mem_cons.mp h with h | h
        · exact .inr (h ▸ (.head _))
        · exact (ih h).imp_right (mem_cons_of_mem _)

/-- Setting an entry keeps the order of names. -/
theorem pairwise_setEntry (h : entries.Pairwise fun a b => a.1 < b.1) :
    (setEntry name e entries).Pairwise fun a b => a.1 < b.1 := by
  induction entries with
  | nil => exact pairwise_singleton _ _
  | cons d rest ih =>
    obtain ⟨n, e'⟩ := d
    obtain ⟨hfirst, hrest⟩ := pairwise_cons.mp h
    rw [setEntry]
    split
    · rename_i hn
      subst hn
      exact .cons hfirst hrest
    · rename_i hn
      split
      · rename_i hlt
        refine .cons (fun d hd => ?_) h
        rcases mem_cons.mp hd with rfl | hd
        · exact hlt
        · exact lt_trans hlt (hfirst d hd)
      · rename_i hlt
        refine .cons (fun d hd => ?_) (ih hrest)
        rcases mem_setEntry hd with rfl | hd
        · exact lt_of_le_of_ne (not_lt.mp hlt) hn
        · exact hfirst d hd

/-- An entry is **in order**: the names in every directory in it grow. -/
inductive InOrder : Entry → Prop
  | file (text : Option String) : InOrder (.file text)
  | directory {entries : List (String × Entry)} (hnames : entries.Pairwise fun a b => a.1 < b.1)
      (hbelow : ∀ d ∈ entries, InOrder d.2) : InOrder (.directory entries)

/-- What is in order is so below. -/
theorem InOrder.of_mem (h : (Entry.directory entries).InOrder) (hd : d ∈ entries) :
    d.2.InOrder := by
  cases h with
  | directory _ hbelow => exact hbelow d hd

/-- Sorting puts in order. -/
theorem inOrder_sorted (e : Entry) : e.sorted.InOrder := by
  induction e using entry_induction with
  | file text =>
    rw [sorted]
    exact .file text
  | directory entries ih =>
    rw [sorted]
    refine .directory ?_ ?_
    · induction entries with
      | nil => exact .nil
      | cons d rest ih' =>
        rw [sortedEntries]
        exact pairwise_setEntry (ih' fun d hd => ih d (.tail _ hd))
    · induction entries with
      | nil => exact forall_mem_nil _
      | cons d rest ih' =>
        intro d' hd'
        rw [sortedEntries] at hd'
        rcases mem_setEntry hd' with rfl | hd'
        · exact ih d (.head _)
        · exact ih' (fun d hd => ih d (.tail _ hd)) d' hd'

/-- In a directory in order, what is there under a name is found by it. -/
theorem lookup_eq_some_iff (h : entries.Pairwise fun a b => a.1 < b.1) :
    entries.lookup name = some e ↔ (name, e) ∈ entries := by
  induction entries with
  | nil => simp
  | cons d rest ih =>
    obtain ⟨n, e'⟩ := d
    obtain ⟨hfirst, hrest⟩ := pairwise_cons.mp h
    rw [lookup_cons, mem_cons, ← ih hrest]
    by_cases hn : name = n
    · subst hn
      have hnot : rest.lookup name ≠ some e := fun hsome =>
        absurd (hfirst _ ((ih hrest).mp hsome)) (lt_irrefl _)
      simp [hnot, eq_comm]
    · simp [hn]

end Entry

namespace Code

open Entry

/-! ### Source files that are found -/

/-- A name is **visible**: it does not begin with a dot, and is not one of those that are left
out. -/
def IsVisible (name : String) : Prop := ¬ ['.'] <+: name.toList ∧ name ∉ ignoredNames

/-- A name is that of a **source file**: it ends as those of some language do. -/
def IsSourceName (name : String) : Prop := ∃ ending ∈ sourceEndings, ending.toList <:+ name.toList

/-- What is not ignored is visible. -/
theorem isIgnored_eq_false_iff : isIgnored name = false ↔ IsVisible name := by
  rw [isIgnored, Bool.or_eq_false_iff, IsVisible, ← Bool.not_eq_true, ← Bool.not_eq_true,
    Text.startsWith_iff, contains_iff_mem]
  rfl

/-- A directory **leads** along names to a source file with a text, if its bytes are one. -/
inductive Leads : Entry → List String → Option String → Prop
  | file {entries : List (String × Entry)} {name : String} {text : Option String}
      (hvisible : IsVisible name) (hsource : IsSourceName name)
      (h : entries.lookup name = some (.file text)) : Leads (.directory entries) [name] text
  | directory {entries : List (String × Entry)} {name : String} {e : Entry} {names : List String}
      {text : Option String} (hvisible : IsVisible name) (h : entries.lookup name = some e)
      (hbelow : Leads e names text) : Leads (.directory entries) (name :: names) text

/-- **Order does not matter** to what a directory leads to. -/
theorem leads_sorted_iff {text : Option String} :
    Leads e.sorted names text ↔ Leads e names text := by
  constructor
  · intro h
    generalize he : e.sorted = e' at h
    induction h generalizing e with
    | @file entries name text hvisible hsource h =>
      cases e with
      | file _ =>
        rw [sorted] at he
        cases he
      | directory entries' =>
        rw [sorted] at he
        cases he
        rw [lookup_sortedEntries] at h
        obtain ⟨d, hd, hsorted⟩ := Option.map_eq_some_iff.mp h
        cases d with
        | file _ =>
          rw [sorted] at hsorted
          cases hsorted
          exact .file hvisible hsource hd
        | directory _ =>
          rw [sorted] at hsorted
          cases hsorted
    | @directory entries name d names text hvisible h _ ih =>
      cases e with
      | file _ =>
        rw [sorted] at he
        cases he
      | directory entries' =>
        rw [sorted] at he
        cases he
        rw [lookup_sortedEntries] at h
        obtain ⟨d', hd', hsorted⟩ := Option.map_eq_some_iff.mp h
        exact .directory hvisible hd' (ih hsorted)
  · intro h
    induction h with
    | file hvisible hsource h =>
      rw [sorted]
      refine .file hvisible hsource ?_
      rw [lookup_sortedEntries, h, Option.map_some, sorted]
    | directory hvisible h _ ih =>
      rw [sorted]
      refine .directory hvisible ?_ ih
      rw [lookup_sortedEntries, h, Option.map_some]

/-! ### The list of source files -/

/-- The text of an entry if it is a readable source file of a visible name. -/
def sourceText? (d : String × Entry) : Option String :=
  match d.2 with
  | .file (some text) =>
    if isIgnored d.1 || !Text.endsWithAny d.1 sourceEndings then none else some text
  | _ => none

/-- The readable **source files** among entries, with their texts. -/
def sourceFiles (entries : List (String × Entry)) : List (String × String) :=
  entries.filterMap fun d => (sourceText? d).map fun text => (d.1, text)

mutual

/-- The source files below an entry with the names that lead to them: those in its directories
before its own. -/
def sources : Entry → List (List String × String)
  | .file _ => []
  | .directory entries =>
    sourcesBelow entries ++ (sourceFiles entries).map fun s => ([s.1], s.2)

/-- The readable source files in the visible directories among entries. -/
def sourcesBelow : List (String × Entry) → List (List String × String)
  | [] => []
  | (name, e) :: rest =>
    (if isIgnored name then [] else (sources e).map fun s => (name :: s.1, s.2)) ++
      sourcesBelow rest

end

/-- The directories among entries in which there are readable source files. -/
def sourceDirectories (entries : List (String × Entry)) : List (String × Entry) :=
  entries.filter fun d => !isIgnored d.1 && !(sources d.2).isEmpty

/-- Visible directories with source files. -/
theorem mem_sourceDirectories_iff :
    d ∈ sourceDirectories entries ↔ d ∈ entries ∧ IsVisible d.1 ∧ sources d.2 ≠ [] := by
  rw [sourceDirectories, mem_filter, Bool.and_eq_true_iff, Bool.not_eq_true',
    Bool.not_eq_true', isIgnored_eq_false_iff, isEmpty_eq_false_iff]

/-- Directories without readable source files do not matter. -/
theorem sourcesBelow_eq (entries : List (String × Entry)) :
    sourcesBelow entries = (sourceDirectories entries).flatMap fun d =>
      (sources d.2).map fun s => (d.1 :: s.1, s.2) := by
  induction entries with
  | nil => rfl
  | cons d rest ih =>
    obtain ⟨name, e⟩ := d
    rw [sourcesBelow, ih, sourceDirectories, sourceDirectories, filter_cons]
    cases hignored : isIgnored name with
    | true => simp
    | false =>
      cases hsources : sources e with
      | nil => simp
      | cons s more => simp [hsources]

/-- Visible source files. -/
theorem mem_sourceFiles_iff :
    (name, text) ∈ sourceFiles entries ↔
      (name, .file (some text)) ∈ entries ∧ IsVisible name ∧ IsSourceName name := by
  have htext : ∀ d : String × Entry, sourceText? d = some text ↔
      d.2 = .file (some text) ∧ IsVisible d.1 ∧ IsSourceName d.1 := by
    rintro ⟨n, e⟩
    rw [IsSourceName, ← Text.endsWithAny_iff, ← isIgnored_eq_false_iff]
    cases e with
    | directory entries => simp [sourceText?]
    | file text? =>
      cases text? with
      | none => simp [sourceText?]
      | some t =>
        cases hignored : isIgnored n <;> cases hends : Text.endsWithAny n sourceEndings <;>
          simp [sourceText?, hignored, hends]
  rw [sourceFiles, mem_filterMap]
  constructor
  · rintro ⟨⟨n, e⟩, hd, h⟩
    obtain ⟨t, ht, h⟩ := Option.map_eq_some_iff.mp h
    cases h
    obtain ⟨hfile, hvisible, hsource⟩ := (htext (n, e)).mp ht
    cases hfile
    exact ⟨hd, hvisible, hsource⟩
  · rintro ⟨hd, hvisible, hsource⟩
    refine ⟨_, hd, ?_⟩
    rw [(htext (name, .file (some text))).mpr ⟨rfl, hvisible, hsource⟩, Option.map_some]

/-- Source files below directories. -/
theorem mem_sourcesBelow_iff {s : List String × String} :
    s ∈ sourcesBelow entries ↔ ∃ name e names, (name, e) ∈ entries ∧ IsVisible name ∧
      (names, s.2) ∈ sources e ∧ s.1 = name :: names := by
  rw [sourcesBelow_eq, mem_flatMap]
  constructor
  · rintro ⟨⟨name, e⟩, hd, hs⟩
    obtain ⟨⟨names, text⟩, hnames, rfl⟩ := mem_map.mp hs
    obtain ⟨hmem, hvisible, -⟩ := mem_sourceDirectories_iff.mp hd
    exact ⟨name, e, names, hmem, hvisible, hnames, rfl⟩
  · rintro ⟨name, e, names, hmem, hvisible, hnames, hs⟩
    obtain ⟨_, text⟩ := s
    cases hs
    exact ⟨(name, e), mem_sourceDirectories_iff.mpr ⟨hmem, hvisible, ne_nil_of_mem hnames⟩,
      mem_map.mpr ⟨_, hnames, rfl⟩⟩

/-- **The list has all readable source files** that a directory in order leads to. -/
theorem mem_sources_iff (h : e.InOrder) :
    (names, text) ∈ sources e ↔ Leads e names (some text) := by
  induction h generalizing names with
  | file =>
    refine ⟨fun h => ?_, fun h => ?_⟩
    · cases h
    · cases h
  | @directory entries hpairwise _ ih =>
    rw [sources, mem_append, mem_sourcesBelow_iff]
    constructor
    · rintro (⟨name, e, below, hmem, hvisible, hbelow, rfl⟩ | hmem)
      · exact .directory hvisible ((lookup_eq_some_iff hpairwise).mpr hmem)
          ((ih _ hmem).mp hbelow)
      · obtain ⟨⟨name, t⟩, hs, heq⟩ := mem_map.mp hmem
        cases heq
        obtain ⟨hmem, hvisible, hsource⟩ := mem_sourceFiles_iff.mp hs
        exact .file hvisible hsource ((lookup_eq_some_iff hpairwise).mpr hmem)
    · intro h
      cases h with
      | @file _ name _ hvisible hsource h =>
        have hmem := (lookup_eq_some_iff hpairwise).mp h
        exact .inr (mem_map.mpr
          ⟨(name, text), mem_sourceFiles_iff.mpr ⟨hmem, hvisible, hsource⟩, rfl⟩)
      | @directory _ name e below _ hvisible h hbelow =>
        have hmem := (lookup_eq_some_iff hpairwise).mp h
        exact .inl ⟨name, e, below, hmem, hvisible, (ih _ hmem).mpr hbelow, rfl⟩

/-- Put in order, a directory has in its list **what it leads to**. -/
theorem mem_sources_sorted_iff : (names, text) ∈ sources e.sorted ↔ Leads e names (some text) :=
  (mem_sources_iff (inOrder_sorted e)).trans leads_sorted_iff

/-- Source files have names. -/
theorem ne_nil_of_mem_sources {s : List String × String} (h : s ∈ sources e) : s.1 ≠ [] := by
  cases e with
  | file => cases h
  | directory entries =>
    rw [sources] at h
    rcases mem_append.mp h with h | h
    · obtain ⟨name, e, names, -, -, -, hs⟩ := mem_sourcesBelow_iff.mp h
      rw [hs]
      exact cons_ne_nil _ _
    · obtain ⟨t, -, rfl⟩ := mem_map.mp h
      exact cons_ne_nil _ _

/-- Source files in the order of entries. -/
theorem map_fst_sourceFiles_sublist (entries : List (String × Entry)) :
    ((sourceFiles entries).map Prod.fst).Sublist (entries.map Prod.fst) := by
  induction entries with
  | nil => exact .slnil
  | cons d rest ih =>
    rw [sourceFiles, filterMap_cons, map_cons]
    cases htext : sourceText? d with
    | none => exact ih.cons _
    | some text => exact ih.cons_cons _

/-- **The list has each source file once.** -/
theorem nodup_sources (h : e.InOrder) : ((sources e).map Prod.fst).Nodup := by
  induction h with
  | file => exact nodup_nil
  | @directory entries hpairwise _ ih =>
    have hnodup : (entries.map Prod.fst).Nodup :=
      List.Pairwise.map _ (fun _ _ hlt => ne_of_lt hlt) hpairwise
    rw [sources, map_append, map_map]
    refine nodup_append.mpr ⟨?_, ?_, ?_⟩
    · -- what different directories lead to differs in the first name
      rw [sourcesBelow_eq, map_flatMap]
      refine nodup_flatMap.mpr ⟨fun d hd => ?_, ?_⟩
      · rw [map_map]
        have hcons : (Prod.fst ∘ fun s : List String × String => (d.1 :: s.1, s.2)) =
            (fun names => d.1 :: names) ∘ Prod.fst := rfl
        rw [hcons, ← map_map]
        exact (ih d (mem_of_mem_filter hd)).map fun _ _ h => (List.cons.inj h).2
      · refine (hpairwise.filter _).imp fun {a b} hlt => ?_
        refine disjoint_left.mpr fun names ha hb => ?_
        obtain ⟨s, hs, rfl⟩ := mem_map.mp ha
        obtain ⟨t, ht, heq⟩ := mem_map.mp hb
        obtain ⟨s, -, rfl⟩ := mem_map.mp hs
        obtain ⟨t, -, rfl⟩ := mem_map.mp ht
        exact absurd (List.cons.inj heq).1 (ne_of_gt hlt)
    · have hsingle : (Prod.fst ∘ fun s : String × String => ([s.1], s.2)) =
          (fun name => [name]) ∘ Prod.fst := rfl
      rw [hsingle, ← map_map]
      exact (hnodup.sublist (map_fst_sourceFiles_sublist entries)).map
        fun _ _ h => (List.cons.inj h).1
    · -- a directory does not lead to a file by its own name alone
      intro names hbelow names' hfile
      obtain ⟨s, hs, rfl⟩ := mem_map.mp hbelow
      obtain ⟨name, e, below, -, -, hmem, hnames⟩ := mem_sourcesBelow_iff.mp hs
      obtain ⟨t, -, rfl⟩ := mem_map.mp hfile
      rw [hnames]
      intro heq
      exact ne_nil_of_mem_sources hmem (List.cons.inj heq).2

end Code

end DocTree
