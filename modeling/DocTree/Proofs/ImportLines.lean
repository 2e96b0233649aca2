import DocTree.Proofs.BraceNesting

/-!
# Lines with imports

Imports are gathered until a line of code ends them, and become the children of a group then. What
is still gathered after the last line is not in the outline.
-/

namespace DocTree.Kotlin

open Code Forest List

/-- The import on a line. -/
def Line.import? : Line → Option String
  | .imports text => some text
  | .code _ _ _ _ => none

/-- Whether a line ends the imports before it. -/
def Line.endsImports : Line → Bool
  | .imports _ => false
  | .code _ _ _ endsImports => endsImports

section

variable (lines : List Line)

/-- The node of the **import** on line `i`, where lines are counted from zero. -/
def importAt? (i : Nat) : Option Node :=
  (lines[i]?.bind Line.import?).map fun text => importNode text (i + 1) (i + 1)

/-- Whether line `i` is **followed**, before line `n`, by one that ends imports. -/
def isFollowed (n i : Nat) : Bool :=
  (List.range n).any fun j => i < j && lines[j]?.any Line.endsImports

/-- The imports before line `n` that code follows. -/
def followedImports (n : Nat) : List Node :=
  ((List.range n).filter (isFollowed lines n)).filterMap (importAt? lines)

/-- The imports before line `n` that no code follows. -/
def pendingImports (n : Nat) : List Node :=
  ((List.range n).filter fun i => !isFollowed lines n i).filterMap (importAt? lines)

end

/-- The imports of an entry. -/
def groupImports (e : Option Nat × Node) : List Node :=
  if e.2.kind = .importGroup then e.2.children else []

/-- What is known after `n` lines **gathers** the imports. -/
structure Gathers (lines : List Line) (n : Nat) (t : Tracker) : Prop where
  pending : t.imports = pendingImports lines n
  grouped : t.entries.flatMap groupImports = followedImports lines n

section

variable {lines : List Line} {n : Nat} {t : Tracker} {l : Line}

/-- One more line may end imports. -/
theorem isFollowed_succ (h : lines[n]? = some l) (i : Nat) :
    isFollowed lines (n + 1) i = (isFollowed lines n i || i < n && l.endsImports) := by
  simp [isFollowed, range_succ, h]

/-- The imports that code follows come before the others. -/
theorem followed_append_pending (lines : List Line) (n : Nat) :
    followedImports lines n ++ pendingImports lines n =
      (List.range n).filterMap (importAt? lines) := by
  have hordered : (List.range n).Pairwise fun i j =>
      isFollowed lines n j = true → isFollowed lines n i = false →
        (importAt? lines i).toList = [] := by
    refine pairwise_lt_range.imp fun {i j} hij hj hi => ?_
    obtain ⟨k, hk, hjk⟩ := any_eq_true.mp hj
    rw [Bool.and_eq_true, decide_eq_true_eq] at hjk
    have : isFollowed lines n i = true :=
      any_eq_true.mpr ⟨k, hk, by simp [hij.trans hjk.1, hjk.2]⟩
    exact absurd (hi.symm.trans this) Bool.false_ne_true
  rw [followedImports, pendingImports, ← filterMap_append]
  simp only [filterMap_eq_flatMap_toList]
  exact flatMap_filter_append hordered

/-- Nothing has followed yet. -/
theorem isFollowed_of_le {i : Nat} (h : n ≤ i + 1) : isFollowed lines n i = false := by
  rw [isFollowed, any_eq_false]
  intro j hj
  have := mem_range.mp hj
  simp
  omega

/-- **One more line** adds all pending imports to the followed ones if it ends them. -/
theorem followedImports_succ (hl : lines[n]? = some l) :
    followedImports lines (n + 1) = followedImports lines n ++
      if l.endsImports then pendingImports lines n else [] := by
  rw [followedImports, range_succ, filter_append, filter_cons_of_neg
    (by simp [isFollowed_of_le]), filter_nil, append_nil]
  cases hends : l.endsImports with
  | true =>
    rw [if_pos rfl, followed_append_pending, filter_eq_self.mpr]
    intro i hi
    simp [isFollowed_succ hl, hends, mem_range.mp hi]
  | false =>
    have hsame : isFollowed lines (n + 1) = isFollowed lines n :=
      funext fun i => by simp [isFollowed_succ hl, hends]
    simp [hsame, followedImports]

/-- What is gathered after one more line. -/
theorem pendingImports_succ (hl : lines[n]? = some l) :
    pendingImports lines (n + 1) =
      (if l.endsImports then [] else pendingImports lines n) ++ (importAt? lines n).toList := by
  rw [pendingImports, range_succ, filter_append, filterMap_append,
    filter_cons_of_pos (by simp [isFollowed_of_le]), filter_nil]
  refine congrArg₂ _ ?_ (by cases h : importAt? lines n <;> simp [h])
  cases hends : l.endsImports with
  | true =>
    rw [if_pos rfl, filter_eq_nil_iff.mpr, filterMap_nil]
    intro i hi
    simp [isFollowed_succ hl, hends, mem_range.mp hi]
  | false => simp [isFollowed_succ hl, hends, pendingImports]

/-- A group has all imports that were gathered. -/
theorem flatMap_flush (t : Tracker) :
    t.flush.entries.flatMap groupImports = t.entries.flatMap groupImports ++ t.imports := by
  rw [Tracker.flush, flatMap_append]
  cases t.imports <;> simp [importGroup, groupImports, Node.kind, Node.children]

/-- Closing scopes changes no imports. -/
theorem flatMap_settle (t : Tracker) (line : Nat) (change : Int) :
    (t.settle line change).entries.flatMap groupImports = t.entries.flatMap groupImports := by
  have hend : ∀ e, groupImports (Tracker.endOn line e) = groupImports e := by
    rintro ⟨link, title, kind, first, last, details, children⟩
    rfl
  rw [Tracker.settle, flatMap_def, Tracker.map_closeAt hend, ← flatMap_def]

/-- A declaration has no imports. -/
theorem flatMap_declare (t : Tracker) (line : Nat) (hasBrace : Bool) (head : Head) :
    (t.declare line hasBrace head).entries.flatMap groupImports =
      t.entries.flatMap groupImports := by
  have hchildren : (t.headNode line head).children = [] := by cases head <;> rfl
  rw [Tracker.declare, flatMap_append, flatMap_singleton, groupImports, hchildren,
    ite_self, append_nil]

/-- Imports are gathered, and code that ends them makes a group of what was gathered. -/
theorem Gathers.step (h : Gathers lines n t) (hl : lines[n]? = some l) :
    Gathers lines (n + 1) (t.step (n + 1) l) := by
  cases l with
  | imports text =>
    have hown : importAt? lines n = some (importNode text (n + 1) (n + 1)) := by
      rw [importAt?, hl]
      rfl
    constructor
    case pending =>
      rw [pendingImports_succ hl, hown, ← h.pending]
      rfl
    case grouped =>
      rw [followedImports_succ hl, ← h.grouped]
      exact (append_nil _).symm
  | code change hasBrace head ends =>
    have hown : importAt? lines n = none := by
      rw [importAt?, hl]
      rfl
    have hflushed : Gathers lines (n + 1) (if ends then t.flush else t) := by
      constructor
      case pending =>
        rw [pendingImports_succ hl, hown, ← h.pending, Option.toList_none, append_nil,
          Line.endsImports]
        split <;> rfl
      case grouped =>
        rw [followedImports_succ hl, ← h.grouped, ← h.pending, Line.endsImports]
        split
        · exact flatMap_flush t
        · exact (append_nil _).symm
    have hsettled : Gathers lines (n + 1) ((if ends then t.flush else t).settle (n + 1) change) :=
      ⟨hflushed.pending, (flatMap_settle _ _ _).trans hflushed.grouped⟩
    cases head with
    | none => exact hsettled
    | some head => exact ⟨hsettled.pending, (flatMap_declare _ _ _ _).trans hsettled.grouped⟩

/-- **Every import is gathered once.** -/
theorem gathers_trackerAfter (hn : n ≤ lines.length) :
    Gathers lines n (trackerAfter lines n) := by
  induction n with
  | zero => exact ⟨rfl, rfl⟩
  | succ n ih =>
    have hl : lines[n]? = some lines[n] := getElem?_eq_getElem hn
    rw [trackerAfter_succ hl]
    exact (ih (Nat.le_of_succ_le hn)).step hl

/-! ### The outline -/

/-- Whether nodes of a kind are single imports. -/
def isImportLine (kind : Kind) : Bool := kind = .importLine

/-- An entry of a declaration has none. -/
theorem groupImports_entryWithin (lines : List Line) (n d : Nat) :
    groupImports (entryWithin lines n d) = [] :=
  ite_self _

/-- Only groups have imports below them, each of them directly. -/
theorem ofKinds_linkedLineages (h : HaveKinds lines) {e : Option Nat × Node}
    (he : e ∈ (trackerAfter lines lines.length).entries) :
    ofKinds isImportLine (linkedLineages (lineOf lines) e) =
      (groupImports e).map fun c => [c, e.2.alone] := by
  obtain ⟨j, hj⟩ := mem_iff_getElem?.mp he
  rcases entry_cases h hj with ⟨d, hd, -, rfl⟩ | hgroup
  · have hkind : isImportLine (nodeWithin lines lines.length d).kind = false := by
      have := isDeclared_nodeWithin h lines.length d
      simp_all [isDeclared, isImportLine]
    rw [groupImports_entryWithin, linkedLineages, lineages_eq_cons, ofKinds]
    exact filter_cons_of_neg (by simpa [entryWithin] using hkind)
  · have hown : groupImports e = e.2.children := if_pos hgroup.kind
    rw [hown, linkedLineages, lineages_eq_cons, ofKinds, filter_cons_of_neg
      (by simp [hgroup.kind, isImportLine]), hgroup.link, lineagesOf_eq_flatMap,
      filter_flatMap, map_eq_flatMap]
    refine flatMap_congr fun c hc => ?_
    obtain ⟨hkind, hchildren⟩ := hgroup.children c hc
    have halone : c.alone = c := by
      obtain ⟨title, kind, first, last, details, children⟩ := c
      obtain rfl : children = [] := hchildren
      rfl
    rw [lineages_eq_cons, hchildren, halone, lineagesOf]
    exact filter_cons_of_pos (by simp [hkind, isImportLine])

/-- Imports are shown below their groups. -/
theorem perm_imports (h : HaveKinds lines) :
    (ofKinds isImportLine (lineagesOf [] (outlineOf lines))).Perm
      ((trackerAfter lines lines.length).entries.flatMap fun e =>
        (groupImports e).map fun c => [c, e.2.alone]) := by
  have hlinked := linked_trackerAfter h
  rw [outlineOf_eq, hlinked.lineagesOf_ofLinks, ← flatMap_congr fun e he =>
    ofKinds_linkedLineages h he]
  simp only [ofKinds]
  rw [← filter_flatMap]
  exact hlinked.perm_lineages.filter _

end

/-- **The imports in an outline** are, each once, those that are followed by a line of code that
ends imports, below groups at the top. -/
theorem grouped_imports_are_followed (last : Option Value) (source : String) :
    ∃ nodes, outline ⟨some .null, last⟩ source = .ok (Node.values nodes) ∧
      ((ofKinds isImportLine (lineagesOf [] nodes)).map List.head?).Perm
        ((followedImports (sourceLines source) (sourceLines source).length).map some) ∧
      ∀ l ∈ ofKinds isImportLine (lineagesOf [] nodes), ∃ c g, l = [c, g] ∧
        g.title = "Imports" ∧ g.kind = .importGroup := by
  have hkinds := haveKinds_sourceLines source
  have hperm := perm_imports hkinds
  refine ⟨_, outline_eq last source, (hperm.map _).trans (.of_eq ?_), fun l hl => ?_⟩
  · rw [← (gathers_trackerAfter le_rfl).grouped, map_flatMap, map_flatMap]
    simp only [map_map]
    rfl
  · obtain ⟨e, he, hl⟩ := mem_flatMap.mp (hperm.subset hl)
    obtain ⟨c, hc, rfl⟩ := mem_map.mp hl
    obtain ⟨j, hj⟩ := mem_iff_getElem?.mp he
    rcases entry_cases hkinds hj with ⟨d, -, -, rfl⟩ | hgroup
    · rw [groupImports_entryWithin] at hc
      exact absurd hc not_mem_nil
    · exact ⟨c, _, rfl, (Node.title_alone _).trans hgroup.title,
        (Node.kind_alone _).trans hgroup.kind⟩

/-- An import that nothing follows is in no group. -/
theorem last_import_is_left_out :
    sourceLines "import a.b" = [.imports "import a.b"] ∧
      outline ⟨some .null, none⟩ "import a.b" = .ok [] :=
  ⟨rfl, by decide +kernel⟩

end DocTree.Kotlin
