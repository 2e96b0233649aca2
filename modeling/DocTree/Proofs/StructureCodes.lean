import DocTree.Proofs.Links
import DocTree.Proofs.Pieces

/-!
# Nesting by structure codes

The code above a code is what stands before its **last dot**. An entry lies right below the last
earlier entry with the code above its own, and is a root if there is none.
-/

namespace DocTree.Outline

open Markdown Markdown.Tree Forest List

/-! ### Codes -/

/-- The code of an entry; null if it has none. -/
def code (entry : Value) : Value := part entry "structure"

/-- An entry whose code is a text or null. -/
structure IsCoded (entry : Value) : Prop where
  isObject : ∃ fields, entry = .object fields
  isText : code entry = .null ∨ ∃ s, code entry = .str s

/-- The code above a code. -/
theorem parentCode?_str (s : String) :
    parentCode? (.str s) =
      if Text.join "." (Text.split s '.').dropLast = "" then none
      else some (Text.join "." (Text.split s '.').dropLast) := by
  by_cases hs : s = ""
  · subst hs
    rfl
  · simp [parentCode?, Value.isTruthy, Value.display, hs]

/-- The code above is what stands **before the last dot**, if that is not empty. -/
theorem parentCode?_eq_some_iff {s above : String} :
    parentCode? (.str s) = some above ↔
      above ≠ "" ∧ ∃ component, s = above ++ "." ++ component ∧ '.' ∉ component.toList := by
  have hdot : String.singleton '.' = "." := rfl
  rw [parentCode?_str]
  constructor
  · intro h
    split at h
    · cases h
    · rename_i hne
      cases h
      have hpieces : Text.split s '.' ≠ [] := by
        simpa [Text.split] using Text.splitAtChar_ne_nil '.' s.toList
      have hfirst : (Text.split s '.').dropLast ≠ [] := fun hnil => hne (by rw [hnil]; rfl)
      refine ⟨hne, (Text.split s '.').getLast hpieces, ?_, ?_⟩
      · conv_lhs => rw [← Text.join_split s '.', ← dropLast_concat_getLast hpieces]
        rw [Text.join_append hfirst (cons_ne_nil _ _), hdot]
        rfl
      · obtain ⟨piece, hpiece, hlast⟩ := mem_map.mp (getLast_mem hpieces)
        rw [← hlast, String.toList_ofList]
        exact Text.not_mem_of_mem_splitAtChar piece hpiece
  · rintro ⟨hne, component, rfl, hcomponent⟩
    rw [← hdot, Text.split_append hcomponent, dropLast_concat, Text.join_split, if_neg hne]

/-- The code of an entry. -/
theorem codeOf_of_isCoded {entry : Value} (h : IsCoded entry) :
    codeOf entry = .ok (code entry) := by
  obtain ⟨⟨fields, rfl⟩, hcode⟩ := h
  have hlookup : (Value.object fields).lookup "structure" = .ok (code (.object fields)) := rfl
  rw [codeOf, hlookup]
  rcases hcode with hcode | ⟨s, hcode⟩
  · rw [hcode]
    rfl
  · rw [hcode]
    rfl

/-! ### Positions above -/

/-- Position `i` is right **above** position `j`: the last one before `j` with its code less the
last component. -/
def Above (codes : List Value) (i j : Nat) : Prop :=
  i < j ∧ ∃ above component, above ≠ "" ∧ '.' ∉ component.toList ∧
    codes[j]? = some (.str (above ++ "." ++ component)) ∧ codes[i]? = some (.str above) ∧
    ∀ k, i < k → k < j → codes[k]? ≠ some (.str above)

/-- Each entry is linked to the last with the code above. -/
theorem getElem?_links (before codes : List Value) (j : Nat) :
    (links before codes)[j]? = codes[j]?.map fun code =>
      (parentCode? code).bind fun above => lastIndex? (·.isStr above) (before ++ codes.take j) := by
  induction codes generalizing before j with
  | nil => rfl
  | cons first rest ih =>
    cases j with
    | zero => simp [links]
    | succ j => simp [links, ih]

/-- The last of the positions before `j` at which a text stands. -/
theorem lastIndex?_isStr_eq_some_iff {codes : List Value} {above : String} {i j : Nat} :
    lastIndex? (·.isStr above) (codes.take j) = some i ↔
      i < j ∧ codes[i]? = some (.str above) ∧
        ∀ k, i < k → k < j → codes[k]? ≠ some (.str above) := by
  rw [lastIndex?_eq_some_iff]
  constructor
  · rintro ⟨⟨found, hfound, hstr⟩, hbehind⟩
    obtain rfl := Value.isStr_iff.mp hstr
    rw [getElem?_take] at hfound
    split at hfound
    · rename_i hij
      refine ⟨hij, hfound, fun k hik hkj hk => ?_⟩
      have := hbehind k _ hik (by rwa [getElem?_take_of_lt hkj])
      rw [hstr] at this
      cases this
    · cases hfound
  · rintro ⟨hij, hi, hbetween⟩
    refine ⟨⟨_, by rwa [getElem?_take_of_lt hij], Value.isStr_iff.mpr rfl⟩,
      fun k found hik hk => ?_⟩
    rw [getElem?_take] at hk
    split at hk
    · rename_i hkj
      refine Bool.eq_false_iff.mpr fun hstr => hbetween k hik hkj ?_
      rw [hk, Value.isStr_iff.mp hstr]
    · cases hk

/-- **The links are the positions above.** -/
theorem getElem?_links_iff {codes : List Value}
    (hcodes : ∀ code ∈ codes, code = .null ∨ ∃ s, code = .str s) {i j : Nat} :
    (links [] codes)[j]? = some (some i) ↔ Above codes i j := by
  rw [getElem?_links, nil_append]
  constructor
  · intro h
    obtain ⟨code, hcode, h⟩ := Option.map_eq_some_iff.mp h
    rcases hcodes code (mem_of_getElem? hcode) with rfl | ⟨s, rfl⟩
    · cases h
    · obtain ⟨above, habove, hlast⟩ := Option.bind_eq_some_iff.mp h
      obtain ⟨hne, component, rfl, hcomponent⟩ := parentCode?_eq_some_iff.mp habove
      obtain ⟨hij, hi, hbetween⟩ := lastIndex?_isStr_eq_some_iff.mp hlast
      exact ⟨hij, above, component, hne, hcomponent, hcode, hi, hbetween⟩
  · rintro ⟨hij, above, component, hne, hcomponent, hj, hi, hbetween⟩
    have habove : parentCode? (.str (above ++ "." ++ component)) = some above :=
      parentCode?_eq_some_iff.mpr ⟨hne, component, rfl, hcomponent⟩
    rw [hj, Option.map_some, habove, Option.bind_some,
      lastIndex?_isStr_eq_some_iff.mpr ⟨hij, hi, hbetween⟩]

/-! ### The outline -/

def shown : Markdown.Tree (Value × Nat) → Value := render fun entry => node entry.1

/-- A node **shows** an entry over the nodes `below`: with its title and pages, and children exactly
if there are such nodes. -/
structure Shows (entry : Value) (below : List Value) (v : Value) : Prop where
  title : v.field? "title" = some (part entry "title")
  first : v.field? "start_index" = some (part entry "start_index")
  last : v.field? "end_index" = some (part entry "end_index")
  nodes : v.field? "nodes" = if below.isEmpty then none else some (.list below)

/-- A node shows its entry. -/
theorem shows_node (entry : Value) (below : List Value) : Shows entry below (node entry below) := by
  by_cases hempty : below.isEmpty
  · constructor <;> simp [node, part, hempty, Fields.get?]
  · constructor <;> simp [node, part, hempty, Fields.get?]

/-- A tree shows its root. -/
theorem shows_shown (t : Markdown.Tree (Value × Nat)) :
    Shows t.root.1 (t.branches.map shown) (shown t) := by
  obtain ⟨entry, ts⟩ := t
  rw [shown, render_node]
  exact shows_node _ _

/-- The outline of coded entries is a **rendered forest**. -/
theorem nest_eq_ok {entries : List Value} (h : ∀ entry ∈ entries, IsCoded entry) :
    nest (.list entries) = .ok (.list ((ofLinks Markdown.Tree.node
      ((links [] (entries.map code)).zip entries.zipIdx)).map shown)) := by
  have hcodes : entries.mapM codeOf = .ok (entries.map code) := by
    rw [mapM_eq_ok_iff, forall₂_map_right_iff, forall₂_same]
    exact fun entry hentry => codeOf_of_isCoded (h entry hentry)
  have hentries : (links [] (entries.map code)).zip entries =
      ((links [] (entries.map code)).zip entries.zipIdx).map (Prod.map id Prod.fst) := by
    rw [← zip_map_right, zipIdx_map_fst]
  have hnest : nestWith (entries.map code) entries = (ofLinks Markdown.Tree.node
      ((links [] (entries.map code)).zip entries.zipIdx)).map shown := by
    rw [nestWith, ofLinks, hentries, assemble_map, assemble_eq_map_render, ofLinks, map_map,
      map_map]
    rfl
  refine bind_ok rfl (bind_ok hcodes ?_)
  rw [hnest]
  rfl

/-- **Entries are nested by their codes.** Whatever the codes are, the outline is a forest that has
every entry once. An entry lies right below the last earlier one with the code above its own, or is
a root; siblings and roots are in order. Every node shows its entry over the nodes of its branches.
-/
theorem entries_nested_by_codes {entries : List Value} (h : ∀ entry ∈ entries, IsCoded entry) :
    ∃ forest, IsForestOf entries (Above (entries.map code)) forest ∧
      nest (.list entries) = .ok (.list (forest.map shown)) ∧
      ∀ t ∈ subtreesOf forest, Shows t.root.1 (t.branches.map shown) (shown t) := by
  have hcodes : ∀ code' ∈ entries.map code, code' = .null ∨ ∃ s, code' = .str s := by
    intro code' hcode'
    obtain ⟨entry, hentry, rfl⟩ := mem_map.mp hcode'
    exact (h entry hentry).isText
  have hlinks : ∀ i j, (links [] (entries.map code))[j]? = some (some i) ↔
      Above (entries.map code) i j := fun i j => getElem?_links_iff hcodes
  have hlength : (links [] (entries.map code)).length = entries.length := by
    rw [length_links, length_map]
  have hforest := isForestOf_ofLinks hlength fun j k hk => ((hlinks k j).mp hk).1
  simp only [hlinks] at hforest
  exact ⟨_, hforest, nest_eq_ok h, fun t _ => shows_shown t⟩

/-- An entry with a code or without one, a title, and more fields. -/
def codedEntry (code? : Option String) (title : String) (more : Fields) : Value :=
  .object (("structure", code?.elim .null .str) :: ("title", .str title) :: more)

/-- Entries with codes. -/
theorem isCoded_codedEntry (code? : Option String) (title : String) (more : Fields) :
    IsCoded (codedEntry code? title more) := by
  cases code? with
  | none => exact ⟨⟨_, rfl⟩, .inl rfl⟩
  | some s => exact ⟨⟨_, rfl⟩, .inr ⟨s, rfl⟩⟩

/-- Entries with a repeated code, no code, a missing one above, and one whose entry above comes much
earlier. -/
def disorderedCodes : List Value :=
  [(some "1", "A"), (some "1.1", "B"), (some "1", "C"), (some "1.2", "D"), (none, "E"),
    (some "2.1", "F"), (some "1.1.x", "G"), (some ".1", "H")].map fun (code?, title) =>
      codedEntry code? title [("start_index", .int 1), ("end_index", .int 2)]

/-- The node of such an entry. -/
def disorderedNode (title : String) (below : List Value) : Value :=
  node (codedEntry none title [("start_index", .int 1), ("end_index", .int 2)]) below

/-- These entries are nested by the last earlier codes. -/
theorem disordered_codes_are_nested :
    (∀ entry ∈ disorderedCodes, IsCoded entry) ∧
    nest (.list disorderedCodes) = .ok (.list
      [disorderedNode "A" [disorderedNode "B" [disorderedNode "G" []]],
        disorderedNode "C" [disorderedNode "D" []], disorderedNode "E" [], disorderedNode "F" [],
        disorderedNode "H" []]) ∧
    ∃ forest, IsForestOf disorderedCodes (Above (disorderedCodes.map code)) forest ∧
      nest (.list disorderedCodes) = .ok (.list (forest.map shown)) ∧
      ∀ t ∈ subtreesOf forest, Shows t.root.1 (t.branches.map shown) (shown t) := by
  have hcoded : ∀ entry ∈ disorderedCodes, IsCoded entry := by
    intro entry hentry
    obtain ⟨⟨code?, title⟩, -, rfl⟩ := mem_map.mp hentry
    exact isCoded_codedEntry _ _ _
  exact ⟨hcoded, by decide +kernel, entries_nested_by_codes hcoded⟩

end DocTree.Outline
