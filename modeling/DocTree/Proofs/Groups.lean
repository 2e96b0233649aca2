import DocTree.Page.Group
import DocTree.Proofs.Rounding
import DocTree.Proofs.Run
import Mathlib.Data.List.Chain
import Mathlib.Data.Rat.Floor

/-!
# Groups that cover a document

The groups of a long document are the texts of intervals of pages. Each begins with the last pages
of the one before it and ends later, so no page is lost. Where a group is closed is found by
arithmetic with fractions.
-/

namespace DocTree

open List

variable {greatest : Int} {den num : Nat}

namespace Double

/-! ### Sums and halves that are finite -/

/-- A length that can be computed with in fractions, and doubled. -/
def safeBound : Nat := 2 ^ 1021

/-- A rounded quotient is finite or infinite. -/
theorem finite_or_infinite (num den : Nat) :
    (∃ m e, ofRatio false num den = .finite false m e) ∨
      ofRatio false num den = .infinite false := by
  by_cases hnum : num = 0
  · exact .inl ⟨0, minExponent, by rw [hnum, ofRatio, if_pos rfl, zero]⟩
  rw [ofRatio_eq hnum]
  split <;> split
  · exact .inr rfl
  · exact .inl ⟨_, _, rfl⟩
  · exact .inr rfl
  · exact .inl ⟨_, _, rfl⟩

/-- A quotient is rounded to a **finite** number, unless it is beyond twice the safe bound. -/
theorem ofRatio_cases (num : Nat) (hden : 0 < den) :
    (∃ m e, ofRatio false num den = .finite false m e ∧ (m : ℚ) * 2 ^ e = nearest num den) ∨
      2 * (safeBound : ℚ) < num / den ∧ ofRatio false num den = .infinite false := by
  rcases finite_or_infinite num den with ⟨m, e, hfin⟩ | hinf
  · have hvalue := (toRat?_ofRatio num den).resolve_left (by rw [hfin]; nofun)
    rw [hfin, toRat?_finite] at hvalue
    exact .inl ⟨m, e, hfin, by simpa using hvalue⟩
  · refine .inr ⟨?_, hinf⟩
    by_contra hle
    have hfin : (ofRatio false num den).toRat? = some (nearest num den) := by
      refine toRat?_ofRatio_of_quantum_lt fun hnum => ?_
      have hlog : floorLog num den ≤ floorLog (2 * safeBound) 1 := by
        refine floorLog_le_floorLog (Nat.pos_of_ne_zero hnum) hden (by decide +kernel) one_pos ?_
        rw [Nat.cast_mul, Nat.cast_ofNat, Nat.cast_one, div_one]
        exact not_lt.mp hle
      have htop : floorLog (2 * safeBound) 1 = 1022 := by decide +kernel
      rw [quantum, minExponent, maxExponent]
      omega
    rw [hinf] at hfin
    cases hfin

/-- Rounding does not pass a number that is its own nearest number. -/
theorem nearest_le {bound : Nat} (hden : 0 < den) (hbound : nearest bound 1 = bound)
    (h : (num : ℚ) / den ≤ bound) : nearest num den ≤ bound := by
  rw [← hbound]
  refine nearest_le_nearest hden one_pos ?_
  rwa [Nat.cast_one, div_one]

/-- A whole number on the grid is its own nearest number. -/
theorem nearest_one_right {n : Nat}
    (h : (shiftRatio n 1 (quantum n 1)).2 ∣ (shiftRatio n 1 (quantum n 1)).1) :
    nearest n 1 = n := by
  rw [nearest_eq_of_dvd one_pos h, Nat.cast_one, div_one]

/-- The safe bound is its own nearest number. -/
theorem nearest_safeBound : nearest safeBound 1 = safeBound :=
  nearest_one_right (by decide +kernel)

/-- So is twice the safe bound. -/
theorem nearest_two_mul_safeBound : nearest (2 * safeBound) 1 = (2 * safeBound : Nat) :=
  nearest_one_right (by decide +kernel)

/-- A quotient of at least one is not rounded to zero. -/
theorem nearest_pos (hden : 0 < den) (h : den ≤ num) : 0 < nearest num den := by
  have hone : nearest 1 1 = 1 := by simpa using @nearest_one_right 1 (by decide +kernel)
  refine lt_of_lt_of_le one_pos (hone ▸ nearest_le_nearest one_pos hden ?_)
  exact (div_le_div_iff_nat one_pos hden).mpr (by omega)

/-- A natural number of at most 52 bits is its own nearest number. -/
theorem nearest_of_le {n : Nat} (hn : n ≤ 2 ^ 52) : nearest n 1 = n := by
  have hdouble : (n : ℚ) / (1 : Nat) = (2 * n : Nat) / (2 : Nat) := by simp
  rw [nearest_congr one_pos two_pos hdouble, nearest_half (by omega)]
  simp

/-- Rounding takes less than one part in `2 ^ 53` from a quotient of at least one. -/
theorem div_le_nearest_add (hden : 0 < den) (h : den ≤ num) :
    (num : ℚ) / den ≤ nearest num den + num / den / 2 ^ 53 := by
  have hlog : floorLog 1 1 ≤ floorLog num den := by
    refine floorLog_le_floorLog one_pos one_pos (by omega) hden ?_
    exact (div_le_div_iff_nat one_pos hden).mpr (by omega)
  have hone : floorLog 1 1 = 0 := by decide
  have hquantum : quantum num den = floorLog num den - 52 := by
    rw [quantum, minExponent]
    omega
  have htwo : (0 : ℚ) < 2 ^ quantum num den := by positivity
  have hpow : (2 : ℚ) ^ quantum num den ≤ num / den / 2 ^ 52 := by
    rw [hquantum, zpow_sub₀ two_ne_zero]
    exact div_le_div_of_nonneg_right (floorLog_spec (by omega) hden).1 (by positivity)
  have hpos := shiftRatio_pos num hden (quantum num den)
  have hround := (roundDiv_spec (shiftRatio num den (quantum num den)).1 hpos).2.1
  have hshift := shiftRatio_eq num den (quantum num den)
  rw [← mantissa] at hround
  have hpos' : (0 : ℚ) < (shiftRatio num den (quantum num den)).2 := by exact_mod_cast hpos
  have hhalf : (num : ℚ) / den / 2 ^ quantum num den ≤ mantissa num den + 1 / 2 := by
    rw [← hshift, div_le_iff₀ hpos']
    have hround : (2 : ℚ) * (shiftRatio num den (quantum num den)).1 ≤
      2 * (mantissa num den * (shiftRatio num den (quantum num den)).2) +
        (shiftRatio num den (quantum num den)).2 := by exact_mod_cast hround
    linarith
  rw [div_le_iff₀ htwo, add_mul, ← nearest] at hhalf
  linarith

/-- A sum of finite numbers is **finite**, unless it is too great, and passes no number by rounding.
-/
theorem add_cases (m n : Nat) (e f : Int) :
    (∃ k g, (finite false m e).add (.finite false n f) = .finite false k g ∧
        ∀ {bound : Nat}, nearest bound 1 = bound → (m : ℚ) * 2 ^ e + n * 2 ^ f ≤ bound →
          (k : ℚ) * 2 ^ g ≤ bound) ∨
      2 * (safeBound : ℚ) < m * 2 ^ e + n * 2 ^ f ∧
        (finite false m e).add (.finite false n f) = .infinite false := by
  obtain ⟨ha, hb⟩ := align_eq ((m : Int), e) ((n : Int), f)
  set found := align ((m : Int), e) ((n : Int), f) with hfound
  have hadd : (finite false m e).add (.finite false n f) =
      if found.1 + found.2.1 = 0 then zero false
      else ofDyadic (found.1 + found.2.1) found.2.2 := rfl
  have hnonneg : 0 ≤ found.1 + found.2.1 :=
    Int.add_nonneg (Int.mul_nonneg (by omega) (by omega)) (Int.mul_nonneg (by omega) (by omega))
  have hsum : ((found.1 + found.2.1 : Int) : ℚ) * 2 ^ found.2.2 = m * 2 ^ e + n * 2 ^ f := by
    rw [Int.cast_add, add_mul, ← ha, ← hb, Int.cast_natCast, Int.cast_natCast]
  rw [hadd, ← hsum]
  generalize found.1 + found.2.1 = a at *
  generalize found.2.2 = k at *
  obtain ⟨a, rfl⟩ := Int.eq_ofNat_of_zero_le hnonneg
  split
  · refine .inl ⟨0, minExponent, rfl, fun {bound} _ _ => ?_⟩
    rw [Nat.cast_zero, zero_mul]
    exact Nat.cast_nonneg bound
  have hsign : decide ((a : Int) < 0) = false := by simp
  have hround : ∃ num den, 0 < den ∧ ofDyadic a k = ofRatio false num den ∧
      (num : ℚ) / den = a * 2 ^ k := by
    rw [ofDyadic, hsign, Int.natAbs_natCast]
    split
    · rename_i hk
      obtain ⟨k, rfl⟩ := Int.eq_ofNat_of_zero_le hk
      exact ⟨_, 1, one_pos, rfl, by simp⟩
    · rename_i hk
      obtain ⟨j, hj⟩ := Int.eq_ofNat_of_zero_le (show 0 ≤ -k by omega)
      obtain rfl : k = -(j : Int) := by omega
      exact ⟨a, _, Nat.pow_pos two_pos, rfl, by simp [zpow_neg, div_eq_mul_inv]⟩
  obtain ⟨num, den, hden, hround, hvalue⟩ := hround
  rw [hround, Int.cast_natCast, ← hvalue]
  rcases ofRatio_cases num hden with ⟨m', e', h, hnear⟩ | ⟨hlarge, h⟩
  · exact .inl ⟨m', e', h, fun hbound hle => hnear ▸ nearest_le hden hbound hle⟩
  · exact .inr ⟨hlarge, h⟩

/-- Half of a finite number is **finite**, unless it is too great, and passes no number by rounding.
-/
theorem half_cases (m : Nat) (e : Int) :
    (∃ k g, (finite false m e).div? (ofInt 2) = some (.finite false k g) ∧
        ∀ {bound : Nat}, nearest bound 1 = bound → (m : ℚ) * 2 ^ e ≤ 2 * bound →
          (k : ℚ) * 2 ^ g ≤ bound) ∨
      2 * (safeBound : ℚ) < m * 2 ^ e ∧
        (finite false m e).div? (ofInt 2) = some (.infinite false) := by
  have htwo : ofInt 2 = .finite false (2 ^ 52) (-51) := by decide +kernel
  have hdiv : (finite false m e).div? (ofInt 2) =
      some (ofRatio false (shiftRatio m (2 ^ 52) (-51 - e)).1
        (shiftRatio m (2 ^ 52) (-51 - e)).2) := by
    rw [htwo]
    rfl
  rw [hdiv]
  have hpos := shiftRatio_pos m (show 0 < 2 ^ 52 by norm_num) (-51 - e)
  have hhalf := shiftRatio_eq m (2 ^ 52) (-51 - e)
  have hexact : (m : ℚ) / (2 ^ 52 : Nat) / 2 ^ (-51 - e) = m * 2 ^ e / 2 := by
    rw [zpow_sub₀ two_ne_zero]
    field_simp
    norm_num
  rw [hexact] at hhalf
  rcases ofRatio_cases (shiftRatio m (2 ^ 52) (-51 - e)).1 hpos with ⟨k, g, h, hnear⟩ | ⟨hlarge, h⟩
  · refine .inl ⟨k, g, congrArg some h, fun hbound hle => hnear ▸ nearest_le hpos hbound ?_⟩
    linarith
  · refine .inr ⟨?_, congrArg some h⟩
    have hpos : (0 : ℚ) ≤ safeBound := Nat.cast_nonneg _
    linarith

end Double

namespace Page

/-! ### Intervals -/

/-- Intervals **cover** the pages from `low` up to `n`: each but the first begins with the last
`overlap` pages of the one before it, or with all if there are fewer, and ends later. -/
structure Covers (overlap : Int) (low n : Nat) (found : List (Nat × Nat)) : Prop where
  first : found.head?.map Prod.fst = some low
  last : found.getLast?.map Prod.snd = some n
  ordered : ∀ I ∈ found, I.1 ≤ I.2
  next : found.IsChain fun I J => I.2 < J.2 ∧ (J.1 : Int) = max ((I.2 : Int) - overlap) 0

variable {overlap : Int} {low n : Nat} {found : List (Nat × Nat)}

/-- One interval. -/
theorem covers_singleton (h : low ≤ n) : Covers overlap low n [(low, n)] :=
  ⟨rfl, rfl, forall_mem_singleton.mpr h, isChain_singleton _⟩

/-- One more interval in front. -/
theorem Covers.cons {start b : Nat} (hlow : low ≤ b)
    (hstart : (start : Int) = max ((b : Int) - overlap) 0)
    (hends : ∀ I ∈ found, b < I.2) (h : Covers overlap start n found) :
    Covers overlap low n ((low, b) :: found) := by
  obtain ⟨hfirst, hlast, hordered, hnext⟩ := h
  refine ⟨rfl, ?_, forall_mem_cons.mpr ⟨hlow, hordered⟩, hnext.cons fun J hJ => ?_⟩
  · cases found with
    | nil => cases hfirst
    | cons I found => rwa [getLast?_cons_cons]
  · rw [hJ] at hfirst
    cases hfirst
    exact ⟨hends J (mem_of_head? hJ), hstart⟩

/-- Where an interval begins. -/
theorem overlapStart_eq (hoverlap : 0 ≤ overlap) (i : Nat) :
    (overlapStart overlap i : Int) = max ((i : Int) - overlap) 0 := by
  rw [overlapStart]
  omega

/-- **The intervals cover** the pages from where the open group begins, wherever groups are closed.
-/
theorem covers_intervalsFrom (hoverlap : 0 ≤ overlap) (limit : Int) (lengths rest : List Int)
    (i low : Nat) (size : Int) (hlow : low ≤ i) (hopen : rest = [] → low < i) :
    Covers overlap low (i + rest.length) (intervalsFrom limit overlap lengths rest i low size) ∧
      ∀ I ∈ intervalsFrom limit overlap lengths rest i low size, i ≤ I.2 := by
  induction rest generalizing i low size with
  | nil =>
    rw [intervalsFrom, if_pos (hopen rfl)]
    exact ⟨covers_singleton hlow, forall_mem_singleton.mpr le_rfl⟩
  | cons m rest ih =>
    have hlength : i + (m :: rest).length = i + 1 + rest.length := by
      rw [length_cons]
      omega
    rw [hlength, intervalsFrom]
    split
    · -- the open group is closed before this page, and the next one has this page in it
      have hstart := overlapStart_eq hoverlap i
      obtain ⟨hcovers, hends⟩ := ih (i + 1) (overlapStart overlap i)
        (lengthOf lengths (overlapStart overlap i) i + m) (by omega) (by omega)
      exact ⟨hcovers.cons hlow hstart hends, forall_mem_cons.mpr
        ⟨le_rfl, fun I hI => Nat.le_of_succ_le (hends I hI)⟩⟩
    · obtain ⟨hcovers, hends⟩ := ih (i + 1) low (size + m) (by omega) (by omega)
      exact ⟨hcovers, fun I hI => Nat.le_of_succ_le (hends I hI)⟩

/-- The intervals cover all pages. -/
theorem covers_intervals (hoverlap : 0 ≤ overlap) (limit : Int) {lengths : List Int}
    (hne : lengths ≠ []) : Covers overlap 0 lengths.length (intervals limit overlap lengths) := by
  have h := (covers_intervalsFrom hoverlap limit lengths lengths 0 0 0 le_rfl
    fun h => absurd h hne).1
  rwa [Nat.zero_add] at h

/-! ### Pages of intervals -/

/-- A page **belongs** to an interval. -/
def IsIn (p : Nat) (I : Nat × Nat) : Prop := I.1 ≤ p ∧ p < I.2

/-- **No page is lost.** -/
theorem Covers.exists_mem (hoverlap : 0 ≤ overlap) (h : Covers overlap low n found) {p : Nat}
    (hlow : low ≤ p) (hp : p < n) : ∃ I ∈ found, IsIn p I := by
  induction found generalizing low with
  | nil => cases h.first
  | cons I rest ih =>
    obtain ⟨hfirst, hlast, hordered, hnext⟩ := h
    cases hfirst
    by_cases hin : p < I.2
    · exact ⟨I, .head _, hlow, hin⟩
    cases rest with
    | nil =>
      cases hlast
      exact absurd hp hin
    | cons J rest =>
      -- the next interval begins at the end of this one or before it
      obtain ⟨⟨-, hstart⟩, hnext⟩ := isChain_cons_cons.mp hnext
      rw [getLast?_cons_cons] at hlast
      obtain ⟨K, hK, hpK⟩ := ih ⟨rfl, hlast, (forall_mem_cons.mp hordered).2, hnext⟩
        (by omega)
      exact ⟨K, mem_cons_of_mem I hK, hpK⟩

/-- **Two consecutive intervals share** the last pages of the first one, as many as overlap or all.
-/
theorem Covers.shared (h : Covers overlap 0 n found) :
    found.IsChain fun I J => ∀ p, IsIn p I ∧ IsIn p J ↔ (I.2 : Int) - overlap ≤ p ∧ p < I.2 := by
  -- beginnings do not go back: an interval begins no later than the next one will
  have hall : ∀ {found : List (Nat × Nat)},
      found.IsChain (fun I J => I.2 < J.2 ∧ (J.1 : Int) = max ((I.2 : Int) - overlap) 0) →
      (∀ I ∈ found.head?, (I.1 : Int) ≤ max ((I.2 : Int) - overlap) 0) →
      found.IsChain fun I J => ∀ p, IsIn p I ∧ IsIn p J ↔ (I.2 : Int) - overlap ≤ p ∧ p < I.2 := by
    intro found hnext hfirst
    induction hnext with
    | nil => exact .nil
    | singleton I => exact .singleton I
    | cons_cons hIJ _ ih =>
      obtain ⟨hends, hstart⟩ := hIJ
      have hI := hfirst _ rfl
      refine .cons_cons (fun p => ?_) (ih fun K hK => ?_)
      · rw [IsIn, IsIn]
        omega
      · cases hK
        omega
  refine hall h.next fun I hI => ?_
  have hfirst := h.first
  rw [hI] at hfirst
  have hzero : I.1 = 0 := Option.some.inj hfirst
  omega

/-! ### Where groups are closed -/

section

open Double

/-- A whole number as a fraction. -/
theorem fraction_eq_quotient (n : Int) : fraction n = quotient n 1 := by
  simp [fraction, quotient, ofInt]

/-- A quotient of positive numbers is a finite number, unless the dividend is not safe. -/
theorem quotient_cases {a b : Int} (ha : 0 < a) (hb : 0 < b) :
    (∃ m e, quotient a b = .ok (.finite false m e) ∧
        (m : ℚ) * 2 ^ e = nearest a.natAbs b.natAbs) ∨
      (safeBound : Int) < a ∧ quotient a b = .error .overflow := by
  have hsign : (decide (a < 0) != decide (b < 0)) = false := by
    simp [not_lt.mpr ha.le, not_lt.mpr hb.le]
  have hden : 0 < b.natAbs := by omega
  rw [quotient, if_neg hb.ne', hsign]
  rcases ofRatio_cases a.natAbs hden with ⟨m, e, h, hvalue⟩ | ⟨hlarge, h⟩
  · rw [h]
    exact .inl ⟨m, e, rfl, hvalue⟩
  · rw [h]
    refine .inr ⟨?_, rfl⟩
    have hle : (a.natAbs : ℚ) / b.natAbs ≤ a.natAbs :=
      div_le_self (Nat.cast_nonneg _) (by exact_mod_cast hden)
    have : (safeBound : ℚ) < a.natAbs := by
      have hpos : (0 : ℚ) ≤ safeBound := Nat.cast_nonneg _
      linarith
    have : safeBound < a.natAbs := by exact_mod_cast this
    omega

/-- The ceiling of a fraction. -/
theorem ceiling_eq (m : Nat) (e : Int) :
    ceiling (.finite false m e) = .ok ⌈(m : ℚ) * 2 ^ e⌉ := by
  by_cases he : 0 ≤ e
  · obtain ⟨k, rfl⟩ := Int.eq_ofNat_of_zero_le he
    have hceil : ⌈(m : ℚ) * 2 ^ (k : Int)⌉ = m * 2 ^ k := by
      rw [← Int.ceil_intCast (R := ℚ) (m * 2 ^ k)]
      push_cast
      rw [zpow_natCast]
    rw [hceil]
    simp [ceiling, ceil?, dyadic?]
  · obtain ⟨k, hk⟩ := Int.eq_ofNat_of_zero_le (show 0 ≤ -e by omega)
    obtain rfl : e = -(k : Int) := by omega
    have hceil := Rat.ceil_intCast_div_natCast m (2 ^ k)
    rw [zpow_neg, zpow_natCast, ← div_eq_mul_inv]
    push_cast at hceil
    have hk : k ≠ 0 := by omega
    rw [hceil]
    simp [ceiling, ceil?, dyadic?, hk, Int.fdiv_eq_ediv_of_nonneg]

/-- The fewest groups that suffice are **enough**, although their number is found by rounding. -/
theorem le_ceil_nearest_mul {a b : Nat} (hb : 0 < b) (hba : b ≤ a) (ha : a < 2 ^ 53) :
    (a : Int) ≤ ⌈nearest a b⌉ * b := by
  by_contra hlt
  have hb' : (0 : ℚ) < b := by exact_mod_cast hb
  have hle : (⌈nearest a b⌉ * b + 1 : ℚ) ≤ a := by
    exact_mod_cast Int.add_one_le_iff.mpr (not_le.mp hlt)
  have hceil := mul_le_mul_of_nonneg_right (Int.le_ceil (nearest a b)) hb'.le
  have hnear := mul_le_mul_of_nonneg_right (div_le_nearest_add hb hba) hb'.le
  have hsmall : (a : ℚ) < 2 ^ 53 := by exact_mod_cast ha
  rw [add_mul, div_right_comm, div_mul_cancel₀ _ hb'.ne', div_mul_cancel₀ _ hb'.ne'] at hnear
  linarith [(div_lt_one (by positivity)).mpr hsmall]

/-- The limit, step by step. -/
theorem groupLimit_eq {total parts : Int} {ratio average whole half : Double}
    (hratio : quotient total greatest = .ok ratio) (hparts : ceiling ratio = .ok parts)
    (haverage : quotient total parts = .ok average) (hwhole : quotient greatest 1 = .ok whole)
    {sum : Double} (hsum : average.add whole = sum) (hhalf : sum.div? (ofInt 2) = some half) :
    groupLimit total greatest = ceiling half := by
  simp only [groupLimit, bind, Except.bind, hratio, hparts, haverage, fraction_eq_quotient, hwhole,
    hsum, hhalf]

/-- **Where groups are closed** is found up to the safe bound, and not past the greatest length. -/
theorem groupLimit_cases {total : Int} (hgreatest : 0 < greatest) (htotal : greatest < total) :
    (∃ limit, groupLimit total greatest = .ok limit ∧ (total ≤ 2 ^ 51 → limit ≤ greatest)) ∨
      (safeBound : Int) < total ∧ groupLimit total greatest = .error .overflow := by
  rcases quotient_cases (hgreatest.trans htotal) hgreatest with ⟨m, e, hratio, hm⟩ | ⟨hlarge, h⟩
  swap
  · refine .inr ⟨hlarge, ?_⟩
    rw [groupLimit, h]
    rfl
  -- at least one group is needed, so the average length is that of some group
  obtain ⟨parts, hceiling, hparts, henough⟩ : ∃ parts, ceiling (.finite false m e) = .ok parts ∧
      0 < parts ∧ (total ≤ 2 ^ 51 → total.natAbs ≤ greatest.natAbs * parts.natAbs) := by
    have hpos : 0 < ⌈nearest total.natAbs greatest.natAbs⌉ :=
      Int.ceil_pos.mpr (nearest_pos (by omega) (by omega))
    refine ⟨_, ceiling_eq m e, hm ▸ hpos, fun hsmall => ?_⟩
    have hle := le_ceil_nearest_mul (show 0 < greatest.natAbs by omega)
      (show greatest.natAbs ≤ total.natAbs by omega) (by omega)
    rw [hm]
    zify
    rwa [abs_of_pos hpos, mul_comm, ← Int.natCast_natAbs, ← Int.natCast_natAbs]
  have hsmall : ∀ {num den : Nat}, 0 < den → num ≤ total.natAbs → ¬ (safeBound : Int) < total →
      nearest num den ≤ safeBound := by
    intro num den hden hnum hsafe
    refine nearest_le hden nearest_safeBound ((div_le_self (Nat.cast_nonneg _) ?_).trans ?_)
    · exact_mod_cast hden
    · exact_mod_cast (by omega : num ≤ safeBound)
  rcases quotient_cases (hgreatest.trans htotal) hparts with ⟨k, f, haverage, hk⟩ | ⟨hlarge, h⟩
  swap
  · exact .inr ⟨hlarge, by simp only [groupLimit, bind, Except.bind, hratio, hceiling, h]⟩
  rcases quotient_cases hgreatest one_pos with ⟨n, g, hfraction, hn⟩ | ⟨hlarge, h⟩
  swap
  · refine .inr ⟨hlarge.trans htotal, ?_⟩
    simp only [groupLimit, bind, Except.bind, hratio, hceiling, haverage, fraction_eq_quotient, h]
  have hsum : ¬ (safeBound : Int) < total →
      (k : ℚ) * 2 ^ f + n * 2 ^ g ≤ (2 * safeBound : Nat) := by
    intro hsafe
    have haverage : nearest total.natAbs parts.natAbs ≤ safeBound :=
      hsmall (by omega) le_rfl hsafe
    have hwhole : nearest greatest.natAbs (Int.natAbs 1) ≤ safeBound :=
      hsmall one_pos (by omega) hsafe
    rw [hk, hn, Nat.cast_mul, Nat.cast_ofNat]
    linarith
  rcases add_cases k n f g with ⟨j, i, hadd, hj⟩ | ⟨hlarge, hadd⟩
  · rcases half_cases j i with ⟨j', i', hhalf, hj'⟩ | ⟨hlarge, hhalf⟩
    · rw [groupLimit_eq hratio hceiling haverage hfraction hadd hhalf, ceiling_eq]
      refine .inl ⟨_, rfl, fun hshort => ?_⟩
      -- both lengths are at most the greatest one, and so is what is halfway between them
      have hgrid : nearest greatest.natAbs 1 = greatest.natAbs := nearest_of_le (by omega)
      have hmean : (k : ℚ) * 2 ^ f ≤ greatest.natAbs := by
        refine hk ▸ nearest_le (by omega) hgrid ((div_le_iff₀ ?_).mpr ?_)
        · exact_mod_cast (by omega : 0 < parts.natAbs)
        · exact_mod_cast henough hshort
      have hdouble : (k : ℚ) * 2 ^ f + n * 2 ^ g ≤ (2 * greatest.natAbs : Nat) := by
        rw [hn, Int.natAbs_one, hgrid, Nat.cast_mul, Nat.cast_ofNat]
        linarith
      have hend := hj' hgrid (by exact_mod_cast hj (nearest_of_le (by omega)) hdouble)
      rw [Int.ceil_le, ← Int.natAbs_of_nonneg hgreatest.le, Int.cast_natCast]
      exact hend
    · rw [groupLimit_eq hratio hceiling haverage hfraction hadd hhalf]
      refine .inr ⟨not_imp_comm.mp hsum fun h => not_le.mpr hlarge ?_, rfl⟩
      exact_mod_cast hj nearest_two_mul_safeBound h
  · have hhalf : (infinite false).div? (ofInt 2) = some (.infinite false) := by decide +kernel
    rw [groupLimit_eq hratio hceiling haverage hfraction hadd hhalf]
    exact .inr ⟨not_imp_comm.mp hsum (not_le.mpr (by exact_mod_cast hlarge)), rfl⟩

/-- There is a limit, or an overflow. -/
theorem groupLimit_eq_ok_or_overflow {total : Int} (hgreatest : 0 < greatest)
    (htotal : greatest < total) :
    (∃ limit, groupLimit total greatest = .ok limit) ∨
      (safeBound : Int) < total ∧ groupLimit total greatest = .error .overflow :=
  (groupLimit_cases hgreatest htotal).imp_left fun h => h.imp fun _ h => h.1

end

/-! ### Groups -/

/-- **Groups cover the document.** If the pages do not fit together, the groups are the texts of
intervals of pages, the first from the first page on and the last up to the last one. Each of the
others ends later than the one before it and begins with the last pages of it, as many as overlap or
all. So every page is in a group, and just these are shared. Only beyond the safe bound the
arithmetic may fail. -/
theorem groups_cover_pages (texts : List String) (lengths : List Int) (greatest overlap : Int)
    (hlengths : lengths.length = texts.length) (hgreatest : 0 < greatest) (hoverlap : 0 ≤ overlap)
    (htotal : greatest < total lengths) (session : Session) (l : Ledger) :
    (∃ found l', (groups texts lengths greatest overlap).Returns session l
        (found.map (intervalText texts)) l' ∧
      Covers overlap 0 texts.length found ∧ (∀ p < texts.length, ∃ I ∈ found, IsIn p I) ∧
      found.IsChain fun I J => ∀ p, IsIn p I ∧ IsIn p J ↔ (I.2 : Int) - overlap ≤ p ∧ p < I.2) ∨
    (Double.safeBound : Int) < total lengths ∧
      (groups texts lengths greatest overlap).execute session l =
        (.error .overflow, l) := by
  have hne : lengths ≠ [] := by
    rintro rfl
    exact absurd htotal (not_lt.mpr hgreatest.le)
  rw [groups, if_neg (not_le.mpr htotal)]
  rcases groupLimit_eq_ok_or_overflow hgreatest htotal with ⟨limit, hlimit⟩ | ⟨hlarge, hlimit⟩
  · rw [hlimit, ← hlengths, take_length]
    have hcovers := covers_intervals hoverlap limit hne
    exact .inl ⟨_, _, rfl, hcovers, fun p => hcovers.exists_mem hoverlap (Nat.zero_le p),
      hcovers.shared⟩
  · rw [hlimit]
    exact .inr ⟨hlarge, rfl⟩

/-- Three pages, two of them too long: the first group is empty, and the others have all pages. -/
theorem three_pages_in_groups :
    ∃ found l', (groups ["a", "b", "c"] [50, 60, 1] 20 1).Returns (Run.scripted []) {}
        (found.map (intervalText ["a", "b", "c"])) l' ∧ Covers 1 0 3 found ∧
      found.map (intervalText ["a", "b", "c"]) = ["", "a", "ab", "bc"] := by
  rcases groups_cover_pages ["a", "b", "c"] [50, 60, 1] 20 1 rfl (by decide) (by decide) (by decide)
    (Run.scripted []) {} with ⟨found, l', hfound, hcovers, -⟩ | ⟨hlarge, -⟩
  · have hrun : ((groups ["a", "b", "c"] [50, 60, 1] 20 1).execute (Run.scripted []) {}).1 =
        .ok ["", "a", "ab", "bc"] := by decide +kernel
    exact ⟨found, l', hfound, hcovers, (hfound.unique (Run.returns_of_outcome hrun)).1⟩
  · exact absurd hlarge (by decide +kernel)

/-- A page can be **too long** for any division into groups. -/
theorem groups_fail_beyond_fractions :
    1 < total [10 ^ 400] ∧
      ¬ ∃ found l', (groups ["a"] [10 ^ 400] 1 0).Returns (Run.scripted []) {} found
        l' := by
  refine ⟨by decide +kernel, ?_⟩
  rintro ⟨found, l', h⟩
  have hrun : ((groups ["a"] [10 ^ 400] 1 0).execute (Run.scripted []) {}).1 =
      .error .overflow := by decide +kernel
  rw [Run.Returns] at h
  rw [h] at hrun
  cases hrun

end Page

end DocTree
