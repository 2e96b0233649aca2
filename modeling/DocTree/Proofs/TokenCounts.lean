import DocTree.Proofs.Rounding
import DocTree.Proofs.Thinning

/-!
# Token counts follow the hierarchy

A section is counted with the texts of all sections within it. What is counted for a section is a
block of what is counted for one around it, and no measure gives a block more tokens.
-/

namespace DocTree

open List

/-! ### Words -/

namespace Text

/-- Of a word that has begun, only that it has begun matters for the number of words. -/
theorem length_wordsFrom_cons (c d : Char) (v w cs : List Char) :
    (wordsFrom (c :: v) cs).length = (wordsFrom (d :: w) cs).length := by
  induction cs generalizing c v d w with
  | nil => rfl
  | cons b cs ih =>
    rw [wordsFrom, wordsFrom]
    split
    · rfl
    · exact ih b b (c :: v) (d :: w)

/-- A word that has begun takes no words away. -/
theorem length_wordsFrom_nil_le (word cs : List Char) :
    (wordsFrom [] cs).length ≤ (wordsFrom word cs).length := by
  cases word with
  | nil => exact Nat.le_refl _
  | cons c word =>
    cases cs with
    | nil => exact Nat.zero_le _
    | cons b cs =>
      rw [wordsFrom, wordsFrom]
      split
      · exact Nat.le_succ _
      · exact Nat.le_of_eq (length_wordsFrom_cons b b [] (c :: word) cs)

/-- An open word is a word. -/
theorem length_wordsFrom_cons_pos (c : Char) (word cs : List Char) :
    0 < (wordsFrom (c :: word) cs).length := by
  induction cs generalizing c word with
  | nil => exact Nat.zero_lt_one
  | cons b cs ih =>
    rw [wordsFrom]
    split
    · exact Nat.succ_pos _
    · exact ih b (c :: word)

/-- More text has no fewer words. -/
theorem length_wordsFrom_le_append (word cs ds : List Char) :
    (wordsFrom word cs).length ≤ (wordsFrom word (cs ++ ds)).length := by
  induction cs generalizing word with
  | nil =>
    cases word with
    | nil => exact Nat.zero_le _
    | cons c word => exact length_wordsFrom_cons_pos c word ds
  | cons c cs ih =>
    rw [cons_append, wordsFrom, wordsFrom]
    split
    · split
      · exact ih []
      · exact Nat.succ_le_succ (ih [])
    · exact ih (c :: word)

/-- A block of a text has **no more words** than the text. -/
theorem length_words_le_append (before s after : String) :
    (words s).length ≤ (words (before ++ s ++ after)).length := by
  have hbefore : ∀ word cs, (wordsFrom [] s.toList).length ≤
      (wordsFrom word (cs ++ s.toList)).length := by
    intro word cs
    induction cs generalizing word with
    | nil => exact length_wordsFrom_nil_le word s.toList
    | cons c cs ih =>
      rw [cons_append, wordsFrom]
      split
      · split
        · exact ih []
        · exact Nat.le_succ_of_le (ih [])
      · exact ih (c :: word)
  rw [words, words, length_map, length_map, String.toList_append, String.toList_append]
  exact (hbefore [] before.toList).trans (length_wordsFrom_le_append [] _ _)

end Text

/-! ### Measures -/

namespace TokenCounter

/-- Words are counted. -/
theorem ofText_words (known : Bool) (s : String) :
    words.ofText known s = (Text.words s).length := by
  rw [ofText]
  split
  · rename_i hempty
    rw [String.isEmpty_iff.mp hempty]
    rfl
  · rfl

/-- The number of tokens of a text, which may be empty. -/
theorem count_str (counter : TokenCounter) (model : Value) (s : String) :
    counter.count model (.str s) = .ok (counter.ofText (!model.isNull) s) := by
  rw [count]
  split
  · rfl
  · rename_i hempty
    obtain rfl : s = "" := by simpa [Value.isTruthy] using hempty
    cases counter with
    | bytes =>
      rw [ofText]
      split <;> rfl
    | _ => rfl

/-- **A block of a text has no more tokens** than the text, by any measure. -/
theorem ofText_le_append (counter : TokenCounter) (known : Bool) (before s after : String) :
    counter.ofText known s ≤ counter.ofText known (before ++ s ++ after) := by
  have hlength : s.length ≤ (before ++ s ++ after).length := by
    rw [String.length_append, String.length_append]
    omega
  have hquarter : quarterOf s.length ≤ quarterOf (before ++ s ++ after).length :=
    Nat.div_le_div_right hlength
  cases counter with
  | quarter => exact hquarter
  | characters => exact hlength
  | bytes =>
    rw [ofText, ofText]
    split
    · rw [String.utf8ByteSize_append, String.utf8ByteSize_append]
      omega
    · exact hquarter
  | words =>
    rw [ofText_words, ofText_words]
    exact Text.length_words_le_append before s after

end TokenCounter

namespace Value

/-- What is less than a threshold stays so when it gets smaller, whatever the threshold is. -/
theorem less_int_mono {m n : Int} (hle : m ≤ n) {threshold : Value}
    (h : less (.int n) threshold = .ok true) : less (.int m) threshold = .ok true := by
  cases hwhole : threshold.int? with
  | some k =>
    rw [less_of_int? rfl hwhole, Except.ok.injEq, decide_eq_true_iff] at h ⊢
    exact Int.lt_of_le_of_lt hle h
  | none =>
    cases threshold with
    | float x =>
      have hless : ∀ k : Int, less (.int k) (.float x) =
          .ok ((x.compareInt? k).map Ordering.swap == some .lt) := fun _ => rfl
      rw [hless, Except.ok.injEq, beq_iff_eq] at h ⊢
      cases x with
      | nan => cases h
      | infinite s => exact h
      | finite s a e =>
        rw [Double.compareInt?_of_toRat? (Double.toRat?_finite s a e), Option.map_some,
          Option.some.injEq, Ordering.swap_eq_lt, compare_gt_iff_gt] at h ⊢
        exact lt_of_le_of_lt (by exact_mod_cast hle) h
    | int k => cases hwhole
    | bool b => cases hwhole
    | _ => cases h

end Value

namespace Markdown

/-! ### Whole texts -/

/-- A text and others behind it, each on a new line **unless it is empty**. -/
def withLines (text : String) (inner : List String) : String :=
  inner.foldl (fun text more => if more.isEmpty then text else text ++ ("\n" ++ more)) text

/-- Lines are added in turn. -/
theorem withLines_append (text : String) (as bs : List String) :
    withLines text (as ++ bs) = withLines (withLines text as) bs :=
  foldl_append

/-- What stands before a text stays before it. -/
theorem withLines_append_left (before text : String) (inner : List String) :
    withLines (before ++ text) inner = before ++ withLines text inner := by
  induction inner generalizing text with
  | nil => rfl
  | cons more inner ih =>
    rw [withLines, withLines, foldl_cons, foldl_cons]
    split
    · exact ih text
    · rw [String.append_assoc]
      exact ih (text ++ ("\n" ++ more))

/-- Lines are added behind a text. -/
theorem withLines_eq (text : String) (inner : List String) :
    withLines text inner = text ++ withLines "" inner := by
  rw [← withLines_append_left, String.append_empty]

/-- The **whole text** of a section: its own, and those of the sections that follow it with greater
levels. -/
def wholeText (s : Value) (rest : List Value) : String :=
  withLines (textOf s) ((rest.takeWhile fun t => levelOf s < levelOf t).map textOf)

/-- The whole text of a section is a **block** of that of one around it. -/
theorem exists_wholeText_eq {s t : Value} {between : List Value}
    (h : ∀ u ∈ between ++ [t], levelOf s < levelOf u) (rest : List Value) :
    ∃ before after, wholeText s (between ++ t :: rest) = before ++ wholeText t rest ++ after := by
  have hst : levelOf s < levelOf t := h t (by simp)
  obtain ⟨more, hmore⟩ : rest.takeWhile (fun u => levelOf t < levelOf u) <+:
      rest.takeWhile fun u => levelOf s < levelOf u := by
    have hboth : rest.takeWhile (fun u => levelOf t < levelOf u) =
        (rest.takeWhile fun u => levelOf s < levelOf u).takeWhile
          fun u => levelOf t < levelOf u := by
      rw [takeWhile_takeWhile]
      congr 1
      funext u
      simp only [decide_eq_true_eq, decide_eq_decide]
      exact ⟨fun htu => ⟨htu, hst.trans htu⟩, And.left⟩
    rw [hboth]
    exact takeWhile_prefix _
  set inner := rest.takeWhile fun u => levelOf t < levelOf u
  have htaken : ((between ++ t :: rest).takeWhile fun u => levelOf s < levelOf u) =
      between ++ t :: (inner ++ more) := by
    rw [hmore, takeWhile_append_of_pos fun u hu => by
      simpa using h u (mem_append_left _ hu), takeWhile_cons_of_pos (by simpa using hst)]
  set head := withLines (textOf s) (between.map textOf)
  have hwhole : wholeText s (between ++ t :: rest) =
      withLines (withLines head (textOf t :: inner.map textOf)) (more.map textOf) := by
    rw [wholeText, htaken, map_append, map_cons, map_append, withLines_append,
      ← cons_append, withLines_append]
  refine ⟨if (textOf t).isEmpty then head else head ++ "\n", withLines "" (more.map textOf), ?_⟩
  rw [hwhole, withLines_eq _ (more.map textOf)]
  congr 1
  rw [wholeText, withLines, foldl_cons]
  split
  · rename_i hempty
    rw [String.isEmpty_iff.mp hempty]
    exact withLines_eq _ _
  · rw [← String.append_assoc]
    exact withLines_append_left _ _ _

/-! ### Counting -/

/-- A section that can be **counted**: its level is a whole number, and its text is a text, if it
has one. -/
structure IsCountable (s : Value) : Prop where
  level : s.intField? "level" = some (levelOf s)
  text : s.lookupOr "text" (.str "") = .ok (.str (textOf s))

def withCount (s : Value) (n : Nat) : Value := withField s "text_token_count" (.ofNat n)

/-- The token counts of sections by their whole texts. -/
def countsOf (tokens : String → Nat) : List Value → List Nat
  | [] => []
  | s :: rest => tokens (wholeText s rest) :: countsOf tokens rest

/-- What counting looks at in a section: its **level and its text**. -/
def levelAndText (s : Value) : Int × String := (levelOf s, textOf s)

/-- A count changes neither level nor text. -/
theorem levelAndText_withCount (s : Value) (n : Nat) :
    levelAndText (withCount s n) = levelAndText s := by
  rw [levelAndText, levelAndText, levelOf, levelOf, Value.intField?, Value.intField?, textOf,
    textOf, part, part, withCount, field?_withField_of_ne _ _ (by decide),
    field?_withField_of_ne _ _ (by decide)]

/-- The whole text depends on levels and texts only. -/
theorem wholeText_congr (s : Value) {xs ys : List Value}
    (h : xs.map levelAndText = ys.map levelAndText) : wholeText s xs = wholeText s ys := by
  have hmap : ∀ zs : List Value, (zs.takeWhile fun t => levelOf s < levelOf t).map textOf =
      ((zs.map levelAndText).takeWhile fun p => levelOf s < p.1).map Prod.snd := by
    intro zs
    rw [takeWhile_map, map_map]
    rfl
  rw [wholeText, wholeText, hmap, hmap, h]

/-- A counted section is countable. -/
theorem IsCountable.withCount {s : Value} (h : IsCountable s) (n : Nat) :
    IsCountable (withCount s n) := by
  obtain ⟨x, hx, -⟩ := Value.intField?_eq_some_iff.mp h.level
  obtain ⟨fields, rfl, -⟩ := Value.exists_object_of_field? hx
  obtain ⟨hlevel, htext⟩ := Prod.mk.inj (levelAndText_withCount (.object fields) n)
  refine ⟨?_, ?_⟩
  · rw [hlevel, ← h.level, Value.intField?, Value.intField?, Markdown.withCount,
      field?_withField_of_ne _ _ (by decide)]
  · rw [htext, ← h.text]
    change Except.ok ((Fields.get? (Fields.set fields _ _) "text").getD _) = _
    rw [Fields.get?_set_of_ne _ _ (by decide)]
    rfl

/-- The sections that lie within one of a level. -/
theorem within_eq {level : Value} {n : Int} (hlevel : level.int? = some n) {xs : List Value}
    (hxs : ∀ x ∈ xs, IsCountable x) :
    within level xs = .ok (xs.takeWhile fun x => n < levelOf x).length := by
  have hsplit : (xs.takeWhile fun x => n < levelOf x) ++ (xs.dropWhile fun x => n < levelOf x) =
      xs := takeWhile_append_dropWhile
  rw [← hsplit] at hxs
  rw [← hsplit, within_append hlevel, hsplit]
  · intro x hx
    exact ⟨(hxs x (mem_append_left _ hx)).level, by simpa using mem_takeWhile_imp hx⟩
  · intro y hy
    refine ⟨(hxs y (mem_append_right _ (mem_of_mem_head? hy))).level, ?_⟩
    have hnot := head?_dropWhile_not (fun x => decide (n < levelOf x)) xs
    rw [hy] at hnot
    simpa using hnot

/-- The text of a section is one more line. -/
theorem addLine_eq {s : Value} (h : IsCountable s) (text : String) :
    addLine (.str text) s = .ok (.str (withLines text [textOf s])) := by
  rw [addLine, h.text]
  change (if (Value.str (textOf s)).isTruthy then _ else _) = _
  rw [Value.isTruthy, withLines, foldl_cons, foldl_nil]
  cases (textOf s).isEmpty <;> rfl

/-- The texts of sections are more lines. -/
theorem foldlM_addLine {xs : List Value} (hxs : ∀ x ∈ xs, IsCountable x) (text : String) :
    xs.foldlM addLine (.str text) = .ok (.str (withLines text (xs.map textOf))) := by
  induction xs generalizing text with
  | nil => rfl
  | cons x xs ih =>
    rw [foldlM_cons, addLine_eq (hxs x (.head _))]
    exact ih (fun y hy => hxs y (.tail _ hy)) _

variable {secs : List Value}

/-- Sections with counts are countable. -/
theorem isCountable_of_mem_zipWith (h : ∀ s ∈ secs, IsCountable s) (ns : List Nat) :
    ∀ x ∈ zipWith withCount secs ns, IsCountable x := by
  induction secs generalizing ns with
  | nil => exact forall_mem_nil _
  | cons s secs ih =>
    obtain ⟨hs, hsecs⟩ := forall_mem_cons.mp h
    cases ns with
    | nil => exact forall_mem_nil _
    | cons n ns => exact forall_mem_cons.mpr ⟨hs.withCount n, ih hsecs ns⟩

/-- Counting keeps levels and texts. -/
theorem map_levelAndText_zipWith (tokens : String → Nat) (secs : List Value) :
    (zipWith withCount secs (countsOf tokens secs)).map levelAndText =
      secs.map levelAndText := by
  induction secs with
  | nil => rfl
  | cons s secs ih =>
    rw [countsOf, zipWith_cons_cons, map_cons, map_cons, ih, levelAndText_withCount]

variable {tokens : String → Nat}

/-- **Sections are counted by their whole texts**, and keep all else. -/
theorem countTokens_eq {count : Value → Except Failure Nat}
    (hcount : ∀ text, count (.str text) = .ok (tokens text)) (hsecs : ∀ s ∈ secs, IsCountable s) :
    countTokens count secs = .ok (zipWith withCount secs (countsOf tokens secs)) := by
  induction secs with
  | nil => rfl
  | cons s rest ih =>
    obtain ⟨hs, hrest⟩ := forall_mem_cons.mp hsecs
    obtain ⟨level, hlevel, hint⟩ := Value.intField?_eq_some_iff.mp hs.level
    obtain ⟨fields, rfl, -⟩ := Value.exists_object_of_field? hlevel
    set s := Value.object fields
    set counted := zipWith withCount rest (countsOf tokens rest)
    have hcounted : ∀ x ∈ counted, IsCountable x := isCountable_of_mem_zipWith hrest _
    have htake : counted.take (counted.takeWhile fun x => levelOf s < levelOf x).length =
        counted.takeWhile fun x => levelOf s < levelOf x :=
      (prefix_iff_eq_take.mp (List.takeWhile_prefix _)).symm
    have hwhole : withLines (textOf s)
        ((counted.takeWhile fun x => levelOf s < levelOf x).map textOf) = wholeText s rest :=
      wholeText_congr s (map_levelAndText_zipWith tokens rest)
    rw [countTokens, ih hrest, Value.field_eq_ok_iff.mpr hlevel, hs.text]
    change (within level counted >>= _) = _
    rw [within_eq hint hcounted]
    change ((counted.take _).foldlM addLine (.str (textOf s)) >>= _) = _
    rw [htake, foldlM_addLine fun x hx => hcounted x ((takeWhile_sublist _).subset hx), hwhole]
    change (count (.str (wholeText s rest)) >>= _) = _
    rw [hcount]
    rfl

/-! ### The hierarchy -/

/-- Position `j` lies **under** position `i`: behind `i`, every position up to `j` has a greater
level. -/
def Under (levels : List Int) (i j : Nat) : Prop :=
  i < j ∧ ∀ k m n, i < k → k ≤ j → levels[i]? = some m → levels[k]? = some n → m < n

/-- What a section counts. -/
theorem exists_of_getElem?_countsOf {i n : Nat} (h : (countsOf tokens secs)[i]? = some n) :
    ∃ s rest, secs.drop i = s :: rest ∧ n = tokens (wholeText s rest) := by
  induction secs generalizing i with
  | nil => cases h
  | cons s rest ih =>
    cases i with
    | zero => exact ⟨s, rest, rfl, (Option.some.inj h).symm⟩
    | succ i => exact ih h

/-- Every section is counted. -/
theorem length_countsOf (tokens : String → Nat) (secs : List Value) :
    (countsOf tokens secs).length = secs.length := by
  induction secs with
  | nil => rfl
  | cons s rest ih => rw [countsOf, length_cons, length_cons, ih]

/-- A section **counts no more** than one that it lies under. -/
theorem countsOf_le_of_under (htokens : ∀ before s after, tokens s ≤ tokens (before ++ s ++ after))
    {i j m n : Nat} (hunder : Under (secs.map levelOf) i j)
    (hi : (countsOf tokens secs)[i]? = some m) (hj : (countsOf tokens secs)[j]? = some n) :
    n ≤ m := by
  obtain ⟨hij, hlevels⟩ := hunder
  obtain ⟨s, rest, hs, rfl⟩ := exists_of_getElem?_countsOf hi
  obtain ⟨t, rest', ht, rfl⟩ := exists_of_getElem?_countsOf hj
  have hrest : rest = rest.take (j - i - 1) ++ t :: rest' := by
    have hdrop : rest.drop (j - i - 1) = t :: rest' := by
      rw [← ht, ← drop_succ_cons (a := s), ← hs, drop_drop]
      congr 1
      omega
    rw [← hdrop, take_append_drop]
  have habove : ∀ u ∈ rest.take (j - i - 1) ++ [t], levelOf s < levelOf u := by
    have hplace : ∀ k u, (secs.drop i)[k]? = some u → (secs.map levelOf)[i + k]? =
        some (levelOf u) := by
      intro k u hu
      rw [getElem?_drop] at hu
      rw [getElem?_map, hu]
      rfl
    intro u hu
    obtain ⟨k, hk, hlt⟩ : ∃ k, (secs.drop i)[k + 1]? = some u ∧ k + 1 + i ≤ j := by
      rcases mem_append.mp hu with hu | hu
      · obtain ⟨k, hk⟩ := mem_iff_getElem?.mp hu
        rw [getElem?_take] at hk
        split at hk
        · exact ⟨k, by rw [hs]; exact hk, by omega⟩
        · cases hk
      · obtain rfl := mem_singleton.mp hu
        refine ⟨j - i - 1, ?_, by omega⟩
        rw [getElem?_drop, show i + (j - i - 1 + 1) = j + 0 by omega, ← getElem?_drop, ht]
        rfl
    exact hlevels (i + (k + 1)) _ _ (by omega) (by omega) (hplace 0 s (by rw [hs]; rfl))
      (hplace (k + 1) u hk)
  obtain ⟨before, after, hwhole⟩ := exists_wholeText_eq habove rest'
  rw [hrest, hwhole]
  exact htokens before _ after

/-- **Token counts follow the hierarchy.** Counting keeps the sections but for their counts. A
section counts no more than one that it lies under, by every measure, so under one that counts less
than a threshold it counts less, too. -/
theorem counts_follow_hierarchy (counter : TokenCounter) (model : Value) {secs : List Value}
    (hsecs : ∀ s ∈ secs, IsCountable s) :
    ∃ counts : List Nat, counts.length = secs.length ∧
      countTokens (counter.count model) secs = .ok (zipWith withCount secs counts) ∧
      ∀ i j m n, Under (secs.map levelOf) i j → counts[i]? = some m → counts[j]? = some n →
        n ≤ m ∧ ∀ threshold, Value.less (.ofNat m) threshold = .ok true →
          Value.less (.ofNat n) threshold = .ok true := by
  refine ⟨countsOf (counter.ofText (!model.isNull)) secs, length_countsOf _ secs,
    countTokens_eq (counter.count_str model) hsecs, fun i j m n hunder hi hj => ?_⟩
  have hle : n ≤ m := countsOf_le_of_under (counter.ofText_le_append _) hunder hi hj
  exact ⟨hle, fun threshold => Value.less_int_mono (Int.ofNat_le.mpr hle)⟩

/-- Sections of which one has an empty text and one has none, with levels that skip and go below
zero. -/
def leveledSections : List Value :=
  [.object [("level", .int (-1)), ("text", .str "Sea and land")],
    .object [("level", .int 3), ("text", .str "")],
    .object [("level", .int 4), ("text", .str "Tides")], .object [("level", .int 2)]]

/-- Sections without a text count with what lies within them. -/
theorem sections_without_text_follow_hierarchy :
    (∀ s ∈ leveledSections, IsCountable s) ∧ Under (leveledSections.map levelOf) 0 3 ∧
    ∃ counts : List Nat, counts.length = 4 ∧
      countTokens (TokenCounter.words.count .null) leveledSections =
        .ok (zipWith withCount leveledSections counts) ∧
      ∀ i j m n, Under (leveledSections.map levelOf) i j → counts[i]? = some m →
        counts[j]? = some n → n ≤ m ∧ ∀ threshold, Value.less (.ofNat m) threshold = .ok true →
          Value.less (.ofNat n) threshold = .ok true := by
  have hsecs : ∀ s ∈ leveledSections, IsCountable s := by
    simp only [leveledSections, forall_mem_cons]
    exact ⟨⟨rfl, rfl⟩, ⟨rfl, rfl⟩, ⟨rfl, rfl⟩, ⟨rfl, rfl⟩, forall_mem_nil _⟩
  refine ⟨hsecs, ⟨by decide, fun k m n hi hj hm hn => ?_⟩, counts_follow_hierarchy _ _ hsecs⟩
  obtain rfl : -1 = m := Option.some.inj hm
  have hlevels : ∀ l ∈ (leveledSections.map levelOf).drop 1, -1 < l := by decide
  refine hlevels n (mem_of_getElem? (i := k - 1) ?_)
  rw [getElem?_drop, Nat.add_sub_cancel' hi]
  exact hn

end Markdown

end DocTree
