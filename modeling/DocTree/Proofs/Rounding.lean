import DocTree.Number.Double
import Mathlib.Algebra.Order.Field.Power
import Mathlib.Tactic.FieldSimp
import Mathlib.Tactic.Linarith
import Mathlib.Tactic.Positivity
import Mathlib.Tactic.Ring

/-!
# Rounding of quotients

A quotient is rounded to a **nearest binary64 number**, and to the even one of two that are equally
near. Rounding keeps the order of quotients.
-/

namespace DocTree.Double

variable {a b c d den n num : Nat}

/-! ### Rounding to whole numbers -/

/-- A rounded quotient is at most a half away, and even if it is exactly a half away. -/
theorem roundDiv_spec (num : Nat) (hden : 0 < den) :
    2 * (roundDiv num den * den) ≤ 2 * num + den ∧ 2 * num ≤ 2 * (roundDiv num den * den) + den ∧
      (2 * (roundDiv num den * den) = 2 * num + den ∨
        2 * num = 2 * (roundDiv num den * den) + den → roundDiv num den % 2 = 0) := by
  have hnum : num / den * den + num % den = num := by
    rw [Nat.mul_comm]
    exact Nat.div_add_mod num den
  have hlt : num % den < den := Nat.mod_lt num hden
  have hsucc : (num / den + 1) * den = num / den * den + den := Nat.succ_mul _ _
  simp only [roundDiv]
  split
  · refine ⟨by omega, by omega, fun h => ?_⟩
    omega
  · split
    · rw [hsucc]
      refine ⟨by omega, by omega, fun h => ?_⟩
      omega
    · split
      · exact ⟨by omega, by omega, fun _ => ‹_›⟩
      · rw [hsucc]
        exact ⟨by omega, by omega, fun _ => by omega⟩

/-- **Rounding to whole numbers is monotone.** -/
theorem roundDiv_le_roundDiv (hb : 0 < b) (hd : 0 < d) (h : a * d ≤ c * b) :
    roundDiv a b ≤ roundDiv c d := by
  obtain ⟨hlow, -, heven⟩ := roundDiv_spec a hb
  obtain ⟨-, hhigh, heven'⟩ := roundDiv_spec c hd
  generalize roundDiv a b = q at *
  generalize roundDiv c d = r at *
  by_contra hlt
  have hsucc : (r + 1) * (b * d) ≤ q * (b * d) := Nat.mul_le_mul_right _ (by omega)
  have hlow' := Nat.mul_le_mul_right d hlow
  have hhigh' := Nat.mul_le_mul_right b hhigh
  have hbd : 0 < b * d := Nat.mul_pos hb hd
  -- both quotients lie exactly halfway between `r` and `r + 1`, so both are even
  have h1 : q * (b * d) = (r + 1) * (b * d) := by nlinarith
  have hq : q = r + 1 := Nat.eq_of_mul_eq_mul_right hbd h1
  have ha : 2 * (q * b) = 2 * a + b := by
    have : d * (2 * (q * b)) = d * (2 * a + b) := by nlinarith
    exact Nat.eq_of_mul_eq_mul_left hd this
  have hc : 2 * c = 2 * (r * d) + d := by
    have : b * (2 * c) = b * (2 * (r * d) + d) := by nlinarith
    exact Nat.eq_of_mul_eq_mul_left hb this
  have := heven (.inl ha)
  have := heven' (.inr hc)
  omega

/-- Exact quotients stay. -/
theorem roundDiv_mul_self (k : Nat) (hden : 0 < den) : roundDiv (k * den) den = k := by
  simp [roundDiv, hden]

/-! ### The exponent -/

/-- Shifting keeps the denominator positive. -/
theorem shiftRatio_pos (num : Nat) (hden : 0 < den) (e : Int) : 0 < (shiftRatio num den e).2 := by
  rw [shiftRatio]
  split
  · exact Nat.mul_pos hden (Nat.pow_pos (by decide))
  · exact hden

/-- A shifted quotient is the quotient divided by a power of two. -/
theorem shiftRatio_eq (num den : Nat) (e : Int) :
    ((shiftRatio num den e).1 : ℚ) / (shiftRatio num den e).2 = num / den / 2 ^ e := by
  rw [shiftRatio]
  split
  · rename_i he
    obtain ⟨k, rfl⟩ := Int.eq_ofNat_of_zero_le he
    simp [div_div]
  · rename_i he
    obtain ⟨k, hk⟩ := Int.eq_ofNat_of_zero_le (show 0 ≤ -e by omega)
    obtain rfl : e = -(k : Int) := by omega
    simp [zpow_neg, mul_div_right_comm]

/-- Between powers of two. -/
theorem log2_bounds (hn : 0 < n) :
    (2 : ℚ) ^ (n.log2 : Int) ≤ n ∧ (n : ℚ) < 2 ^ ((n.log2 : Int) + 1) := by
  constructor
  · rw [zpow_natCast]
    exact_mod_cast Nat.log2_self_le (by omega)
  · rw [← Nat.cast_succ, zpow_natCast]
    exact_mod_cast Nat.lt_log2_self

/-- The quotient lies between two neighbouring **powers of two**. -/
theorem floorLog_spec (hnum : 0 < num) (hden : 0 < den) :
    (2 : ℚ) ^ floorLog num den ≤ num / den ∧ (num : ℚ) / den < 2 ^ (floorLog num den + 1) := by
  have hden' : (0 : ℚ) < den := by exact_mod_cast hden
  obtain ⟨hnlow, hnhigh⟩ := log2_bounds hnum
  obtain ⟨hdlow, hdhigh⟩ := log2_bounds hden
  set b : Int := (num.log2 : Int) - (den.log2 : Int) with hb
  have hupper : (num : ℚ) / den < 2 ^ (b + 1) := by
    rw [div_lt_iff₀ hden']
    calc (num : ℚ) < 2 ^ ((num.log2 : Int) + 1) := hnhigh
      _ = 2 ^ (b + 1) * 2 ^ (den.log2 : Int) := by
        rw [← zpow_add₀ two_ne_zero]
        congr 1
        omega
      _ ≤ 2 ^ (b + 1) * den := by gcongr
  have hlower : (2 : ℚ) ^ (b - 1) ≤ num / den := by
    rw [le_div_iff₀ hden']
    calc (2 : ℚ) ^ (b - 1) * den ≤ 2 ^ (b - 1) * 2 ^ ((den.log2 : Int) + 1) := by gcongr
      _ = 2 ^ (num.log2 : Int) := by
        rw [← zpow_add₀ two_ne_zero]
        congr 1
        omega
      _ ≤ num := hnlow
  have hshift := shiftRatio_eq num den b
  have hpos : (0 : ℚ) < (shiftRatio num den b).2 := by exact_mod_cast shiftRatio_pos num hden b
  have htwo : (0 : ℚ) < 2 ^ b := by positivity
  rw [floorLog]
  split
  · rename_i hle
    refine ⟨?_, hupper⟩
    have : (1 : ℚ) ≤ num / den / 2 ^ b := by
      rw [← hshift, one_le_div hpos]
      exact Nat.cast_le.mpr hle
    rwa [one_le_div htwo] at this
  · rename_i hlt
    refine ⟨hlower, ?_⟩
    have : (num : ℚ) / den / 2 ^ b < 1 := by
      rw [← hshift, div_lt_one hpos]
      exact Nat.cast_lt.mpr (Nat.lt_of_not_le hlt)
    rwa [div_lt_one htwo, ← Int.sub_add_cancel b 1] at this

/-- The exponent to which a quotient is rounded. -/
def quantum (num den : Nat) : Int := max (floorLog num den - 52) minExponent

/-- Greater quotients have greater exponents. -/
theorem floorLog_le_floorLog (ha : 0 < a) (hb : 0 < b) (hc : 0 < c) (hd : 0 < d)
    (h : (a : ℚ) / b ≤ c / d) : floorLog a b ≤ floorLog c d := by
  have hpow : (2 : ℚ) ^ floorLog a b < 2 ^ (floorLog c d + 1) :=
    ((floorLog_spec ha hb).1.trans h).trans_lt (floorLog_spec hc hd).2
  have := (zpow_lt_zpow_iff_right₀ one_lt_two).mp hpow
  omega

/-! ### Rounding to binary64 numbers -/

/-- The mantissa to which a quotient is rounded. -/
def mantissa (num den : Nat) : Nat :=
  roundDiv (shiftRatio num den (quantum num den)).1 (shiftRatio num den (quantum num den)).2

/-- The **nearest** binary64 number to a quotient, if exponents had no upper bound. -/
def nearest (num den : Nat) : ℚ := mantissa num den * 2 ^ quantum num den

/-- Zero stays zero. -/
theorem nearest_zero (den : Nat) : nearest 0 den = 0 := by
  have h : ∀ e, roundDiv (shiftRatio 0 den e).1 (shiftRatio 0 den e).2 = 0 := by
    intro e
    by_cases he : 0 ≤ e <;> simp [shiftRatio, he, roundDiv]
  simp [nearest, mantissa, h]

/-- Quotients are compared by products. -/
theorem div_le_div_iff_nat (hb : 0 < b) (hd : 0 < d) : (a : ℚ) / b ≤ c / d ↔ a * d ≤ c * b := by
  rw [div_le_div_iff₀ (by exact_mod_cast hb) (by exact_mod_cast hd)]
  exact_mod_cast Iff.rfl

/-- The mantissa has at most 53 bits. -/
theorem mantissa_le (hnum : 0 < num) (hden : 0 < den) : mantissa num den ≤ 2 ^ 53 := by
  have hpos := shiftRatio_pos num hden (quantum num den)
  rw [mantissa, ← roundDiv_mul_self (2 ^ 53) hpos]
  refine roundDiv_le_roundDiv hpos hpos ((div_le_div_iff_nat hpos hpos).mp ?_)
  rw [shiftRatio_eq, Nat.cast_mul, mul_div_cancel_right₀ _ (by exact_mod_cast hpos.ne'),
    div_le_iff₀ (by positivity)]
  refine (floorLog_spec hnum hden).2.le.trans ?_
  rw [Nat.cast_pow, ← zpow_natCast, Nat.cast_ofNat, ← zpow_add₀ two_ne_zero]
  refine zpow_le_zpow_right₀ one_le_two ?_
  rw [quantum]
  omega

/-- Above the least exponent the mantissa has at least 53 bits. -/
theorem le_mantissa (hnum : 0 < num) (hden : 0 < den) (hmin : minExponent < quantum num den) :
    2 ^ 52 ≤ mantissa num den := by
  have hpos := shiftRatio_pos num hden (quantum num den)
  rw [mantissa, ← roundDiv_mul_self (2 ^ 52) hpos]
  refine roundDiv_le_roundDiv hpos hpos ((div_le_div_iff_nat hpos hpos).mp ?_)
  rw [shiftRatio_eq, Nat.cast_mul, mul_div_cancel_right₀ _ (by exact_mod_cast hpos.ne'),
    le_div_iff₀ (by positivity)]
  refine le_trans ?_ (floorLog_spec hnum hden).1
  rw [Nat.cast_pow, ← zpow_natCast, Nat.cast_ofNat, ← zpow_add₀ two_ne_zero]
  refine zpow_le_zpow_right₀ one_le_two ?_
  rw [quantum] at hmin ⊢
  omega

/-- **Rounding to binary64 numbers is monotone.** -/
theorem nearest_le_nearest (hb : 0 < b) (hd : 0 < d) (h : (a : ℚ) / b ≤ c / d) :
    nearest a b ≤ nearest c d := by
  rcases Nat.eq_zero_or_pos a with rfl | ha
  · rw [nearest_zero, nearest]
    positivity
  have hc : 0 < c := by
    have : 0 < c * b := lt_of_lt_of_le (Nat.mul_pos ha hd) ((div_le_div_iff_nat hb hd).mp h)
    exact Nat.pos_of_mul_pos_right this
  have hlog := floorLog_le_floorLog ha hb hc hd h
  have hle : quantum a b ≤ quantum c d := by
    rw [quantum, quantum]
    omega
  rcases hle.eq_or_lt with heq | hlt
  · -- one exponent: compare the mantissas
    rw [nearest, nearest, mantissa, mantissa, heq]
    refine mul_le_mul_of_nonneg_right ?_ (by positivity)
    have hposa := shiftRatio_pos a hb (quantum c d)
    have hposc := shiftRatio_pos c hd (quantum c d)
    exact_mod_cast roundDiv_le_roundDiv hposa hposc ((div_le_div_iff_nat hposa hposc).mp (by
      rw [shiftRatio_eq, shiftRatio_eq]
      gcongr))
  · -- two exponents: a power of two lies between the numbers
    have hmin : minExponent < quantum c d := lt_of_le_of_lt (le_max_right _ _) hlt
    calc nearest a b ≤ (2 : ℚ) ^ (53 : Int) * 2 ^ quantum a b := by
          refine mul_le_mul_of_nonneg_right ?_ (by positivity)
          exact_mod_cast mantissa_le ha hb
      _ ≤ 2 ^ (52 : Int) * 2 ^ quantum c d := by
          rw [← zpow_add₀ two_ne_zero, ← zpow_add₀ two_ne_zero]
          exact zpow_le_zpow_right₀ one_le_two (by omega)
      _ ≤ nearest c d := by
          refine mul_le_mul_of_nonneg_right ?_ (by positivity)
          exact_mod_cast le_mantissa hc hd hmin

/-- Equal quotients have one nearest number. -/
theorem nearest_congr (hb : 0 < b) (hd : 0 < d) (h : (a : ℚ) / b = c / d) :
    nearest a b = nearest c d :=
  (nearest_le_nearest hb hd h.le).antisymm (nearest_le_nearest hd hb h.ge)

/-- A number with at most 53 bits after the binary point is **its own nearest** number. -/
theorem nearest_eq_of_dvd (hden : 0 < den)
    (h : (shiftRatio num den (quantum num den)).2 ∣ (shiftRatio num den (quantum num den)).1) :
    nearest num den = num / den := by
  obtain ⟨k, hk⟩ := h
  have hpos := shiftRatio_pos num hden (quantum num den)
  have hround : mantissa num den = k := by
    rw [mantissa, hk, Nat.mul_comm, roundDiv_mul_self k hpos]
  have hshift := shiftRatio_eq num den (quantum num den)
  rw [hk, Nat.cast_mul, mul_div_cancel_left₀ _ (by exact_mod_cast hpos.ne')] at hshift
  rw [nearest, hround, hshift, div_mul_cancel₀ _ (by positivity)]

/-! ### Exact values -/

/-- The **exact value** of a finite number. -/
def toRat? (x : Double) : Option ℚ := x.dyadic?.map fun d => d.1 * 2 ^ d.2

/-- The value of a finite number. -/
theorem toRat?_finite (neg : Bool) (m : Nat) (e : Int) :
    (finite neg m e).toRat? = some (((if neg then -(m : Int) else m : Int) : ℚ) * 2 ^ e) := rfl

/-- Two dyadics over a common exponent have their values. -/
theorem align_eq (a b : Int × Int) :
    (a.1 : ℚ) * 2 ^ a.2 = (align a b).1 * 2 ^ (align a b).2.2 ∧
      (b.1 : ℚ) * 2 ^ b.2 = (align a b).2.1 * 2 ^ (align a b).2.2 := by
  have hpow : ∀ {k e : Int}, e ≤ k → ((Nat.pow 2 (k - e).toNat : Nat) : ℚ) * 2 ^ e = 2 ^ k := by
    intro k e h
    rw [Nat.pow_eq, Nat.cast_pow, Nat.cast_ofNat, ← zpow_natCast, ← zpow_add₀ two_ne_zero]
    congr 1
    omega
  simp only [align, Int.cast_mul, Int.cast_natCast, mul_assoc]
  rw [hpow (min_le_left _ _), hpow (min_le_right _ _)]
  exact ⟨rfl, rfl⟩

/-- Scaling keeps the order. -/
theorem compare_eq_of_scaled {a b : Int} {x y : ℚ} {k : Int} (hx : x = a * 2 ^ k)
    (hy : y = b * 2 ^ k) : compare a b = compare x y := by
  have hpow : (0 : ℚ) < 2 ^ k := by positivity
  rcases lt_trichotomy a b with h | h | h
  · rw [compare_lt_iff_lt.mpr h, eq_comm, compare_lt_iff_lt, hx, hy]
    exact mul_lt_mul_of_pos_right (by exact_mod_cast h) hpow
  · rw [compare_eq_iff_eq.mpr h, eq_comm, compare_eq_iff_eq, hx, hy, h]
  · rw [compare_gt_iff_gt.mpr h, eq_comm, compare_gt_iff_gt, hx, hy]
    exact mul_lt_mul_of_pos_right (by exact_mod_cast h) hpow

/-- Finite numbers compare as their exact values. -/
theorem compare?_of_toRat? {x y : Double} {a b : ℚ} (hx : x.toRat? = some a)
    (hy : y.toRat? = some b) : x.compare? y = some (compare a b) := by
  cases x with
  | nan => cases hx
  | infinite => cases hx
  | finite s m e =>
    cases y with
    | nan => cases hy
    | infinite => cases hy
    | finite t n f =>
      cases hx
      cases hy
      obtain ⟨ha, hb⟩ := align_eq (if s then -(m : Int) else m, e) (if t then -(n : Int) else n, f)
      exact congrArg some (compare_eq_of_scaled ha hb)

/-- A finite number compares with an integer as its exact value. -/
theorem compareInt?_of_toRat? {x : Double} {a : ℚ} (hx : x.toRat? = some a) (n : Int) :
    x.compareInt? n = some (compare a n) := by
  cases x with
  | nan => cases hx
  | infinite => cases hx
  | finite s m e =>
    cases hx
    obtain ⟨ha, hb⟩ := align_eq (if s then -(m : Int) else m, e) (n, 0)
    rw [zpow_zero, mul_one] at hb
    exact congrArg some (compare_eq_of_scaled ha hb)

/-- How a quotient is rounded: a mantissa of 54 bits is carried into the exponent. -/
theorem ofRatio_eq (hnum : num ≠ 0) (den : Nat) :
    ofRatio false num den =
      if mantissa num den = 2 ^ 53 then
        if maxExponent < quantum num den + 1 then .infinite false
        else .finite false (2 ^ 52) (quantum num den + 1)
      else if maxExponent < quantum num den then .infinite false
      else .finite false (mantissa num den) (quantum num den) := by
  have hround : ofRatio false num den =
      (fun r : Nat × Int =>
        if maxExponent < r.2 then Double.infinite false else .finite false r.1 r.2)
        (if mantissa num den = 2 ^ 53 then (2 ^ 52, quantum num den + 1)
          else (mantissa num den, quantum num den)) := by
    rw [ofRatio, if_neg hnum]
    rfl
  rw [hround]
  split <;> rfl

/-- A quotient is rounded to **its nearest number**, or beyond all finite numbers. -/
theorem toRat?_ofRatio (num den : Nat) :
    ofRatio false num den = .infinite false ∨
      (ofRatio false num den).toRat? = some (nearest num den) := by
  by_cases hnum : num = 0
  · subst hnum
    refine .inr ?_
    rw [ofRatio, if_pos rfl, zero, toRat?_finite, nearest_zero]
    simp
  rw [ofRatio_eq hnum]
  split
  · rename_i hcarry
    split
    · exact .inl rfl
    · refine .inr ?_
      rw [toRat?_finite, nearest, hcarry, zpow_add₀ two_ne_zero]
      push_cast
      congr 1
      ring
  · split
    · exact .inl rfl
    · exact .inr rfl

/-- A quotient with an exponent of less than the greatest one is **finite**. -/
theorem toRat?_ofRatio_of_quantum_lt (h : num ≠ 0 → quantum num den < maxExponent) :
    (ofRatio false num den).toRat? = some (nearest num den) := by
  refine (toRat?_ofRatio num den).resolve_left fun hinf => ?_
  by_cases hnum : num = 0
  · subst hnum
    cases hinf
  have hquantum := h hnum
  rw [ofRatio_eq hnum] at hinf
  split at hinf
  · rw [if_neg (by omega)] at hinf
    cases hinf
  · rw [if_neg (by omega)] at hinf
    cases hinf

/-- A quotient of at most one has a finite nearest number. -/
theorem toRat?_ofRatio_of_le (hden : 0 < den) (h : num ≤ den) :
    (ofRatio false num den).toRat? = some (nearest num den) := by
  refine toRat?_ofRatio_of_quantum_lt fun hnum => ?_
  have hlog : floorLog num den ≤ floorLog 1 1 :=
    floorLog_le_floorLog (Nat.pos_of_ne_zero hnum) hden one_pos one_pos
      ((div_le_div_iff_nat hden one_pos).mpr (by omega))
  have hone : floorLog 1 1 = 0 := by decide
  rw [quantum, minExponent, maxExponent]
  omega

/-- Halves of small numbers need no rounding. -/
theorem quantum_half_le (hpos : 0 < n) (hn : n ≤ 2 ^ 53) : quantum n 2 ≤ 0 := by
  have hlog : floorLog n 2 ≤ floorLog (2 ^ 53) 2 :=
    floorLog_le_floorLog hpos two_pos (by positivity) two_pos
      ((div_le_div_iff_nat two_pos two_pos).mpr (by omega))
  have htop : floorLog (2 ^ 53) 2 = 52 := by decide +kernel
  rw [quantum, minExponent]
  omega

/-- Half of a natural number of at most 53 bits is **exact**. -/
theorem nearest_half (hn : n ≤ 2 ^ 53) : nearest n 2 = n / 2 := by
  rcases Nat.eq_zero_or_pos n with rfl | hpos
  · simp [nearest_zero]
  refine nearest_eq_of_dvd two_pos ?_
  have hquantum := quantum_half_le hpos hn
  rw [shiftRatio]
  split
  · -- the exponent is zero only for the greatest of these numbers
    have hzero : quantum n 2 = 0 := by omega
    have hlow := (floorLog_spec hpos two_pos).1
    rw [quantum, minExponent] at hzero
    have heq : floorLog n 2 = 52 := by omega
    rw [heq, le_div_iff₀ (by norm_num)] at hlow
    have : 2 ^ 53 ≤ n := by
      have h : ((2 ^ 53 : Nat) : ℚ) ≤ n := by
        refine le_trans (le_of_eq ?_) hlow
        norm_num
      exact_mod_cast h
    obtain rfl : n = 2 ^ 53 := by omega
    decide +kernel
  · obtain ⟨k, hk⟩ := Int.eq_ofNat_of_zero_le (show 0 ≤ -quantum n 2 - 1 by omega)
    have hexp : (-quantum n 2).toNat = k + 1 := by omega
    rw [hexp]
    exact Dvd.intro_left (n * 2 ^ k) (by rw [Nat.pow_eq]; ring)

/-- Halves of small numbers are exact. -/
theorem toRat?_ofRatio_half (hn : n ≤ 2 ^ 53) :
    (ofRatio false n 2).toRat? = some ((n : ℚ) / 2) := by
  rw [← nearest_half hn]
  refine toRat?_ofRatio_of_quantum_lt fun hne => ?_
  have hquantum := quantum_half_le (Nat.pos_of_ne_zero hne) hn
  rw [maxExponent]
  omega

end DocTree.Double
