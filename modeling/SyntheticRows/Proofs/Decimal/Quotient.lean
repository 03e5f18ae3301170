import Mathlib.Algebra.Order.Floor.Ring
import Mathlib.Tactic.FieldSimp
import Mathlib.Tactic.Linarith
import SyntheticRows.Proofs.Meaning.Number

/-!
# Quotients of whole numbers

A quotient that is rounded to a double is off by at most half a unit in its last place. Below
2 ^ 14 that is less than the distance to the next fraction with a denominator of up to 10 ^ 12, so
the ceiling of such a quotient is exact.
-/
namespace SyntheticRows

theorem roundHalfEven_bounds (num : ℕ) {den : ℕ} (hd : 0 < den) :
    2 * num ≤ (2 * roundHalfEven num den + 1) * den ∧
      2 * (roundHalfEven num den * den) ≤ 2 * num + den := by
  have split := Nat.div_add_mod num den
  have small := Nat.mod_lt num hd
  have scaled : (2 * (num / den) + 1) * den = 2 * (den * (num / den)) + den := by ring
  have next : (2 * (num / den + 1) + 1) * den = 2 * (den * (num / den)) + 3 * den := by ring
  have here : num / den * den = den * (num / den) := Nat.mul_comm _ _
  have above : (num / den + 1) * den = den * (num / den) + den := by ring
  unfold roundHalfEven
  dsimp only
  split_ifs
  · omega
  · omega
  · omega
  · omega

theorem twoPow_eq (n : ℕ) : twoPow n = 2 ^ n := rfl

namespace Double

theorem twoPow_cast_zpow (e : ℤ) : (twoPow e.toNat : ℚ) = 2 ^ e * twoPow (-e).toNat := by
  have cancel : (2 : ℚ) ^ e * 2 ^ (-e) = 1 := by
    rw [← zpow_add₀ (by norm_num), add_neg_cancel, zpow_zero]
  rcases Int.le_total 0 e with h | h
  · obtain ⟨n, rfl⟩ := Int.eq_ofNat_of_zero_le h
    have hn : (-(n : ℤ)).toNat = 0 := by omega
    simp [hn, twoPow_eq]
  · obtain ⟨n, hn⟩ := Int.eq_ofNat_of_zero_le (show 0 ≤ -e by omega)
    have he : e.toNat = 0 := by omega
    rw [hn] at cancel ⊢
    simp only [zpow_natCast] at cancel
    simp [he, twoPow_eq, cancel]

/-- The shifted fraction is the fraction divided by the power. -/
theorem shifted_div (num den : ℕ) (e : ℤ) :
    ((shifted num den e).1 : ℚ) / (shifted num den e).2 = num / den / 2 ^ e := by
  have up := twoPow_cast_zpow e
  have pos : (twoPow (-e).toNat : ℚ) ≠ 0 := by exact_mod_cast (twoPow_pos _).ne'
  have power : (2 : ℚ) ^ e ≠ 0 := by positivity
  rcases eq_or_ne (den : ℚ) 0 with hd | hd
  · simp [shifted, hd]
  simp only [shifted, Nat.cast_mul]
  rw [up]
  field_simp

theorem shifted_pos {den : ℕ} (hd : 0 < den) (num : ℕ) (e : ℤ) : 0 < (shifted num den e).2 :=
  Nat.mul_pos hd (twoPow_pos _)

/-- A positive fraction lies between the powers that the lengths of its parts give. -/
theorem quotient_between {num den : ℕ} (hn : 0 < num) (hd : 0 < den) :
    (2 : ℚ) ^ ((num.log2 : ℤ) - den.log2 - 1) < num / den ∧
      (num / den : ℚ) < 2 ^ ((num.log2 : ℤ) - den.log2 + 1) := by
  have numLow : (2 : ℚ) ^ (num.log2 : ℤ) ≤ num := by
    rw [zpow_natCast]
    exact_mod_cast Nat.log2_self_le hn.ne'
  have numHigh : (num : ℚ) < 2 ^ ((num.log2 : ℤ) + 1) := by
    have : num < 2 ^ (num.log2 + 1) := Nat.lt_log2_self
    exact_mod_cast this
  have denLow : (2 : ℚ) ^ (den.log2 : ℤ) ≤ den := by
    rw [zpow_natCast]
    exact_mod_cast Nat.log2_self_le hd.ne'
  have denHigh : (den : ℚ) < 2 ^ ((den.log2 : ℤ) + 1) := by
    have : den < 2 ^ (den.log2 + 1) := Nat.lt_log2_self
    exact_mod_cast this
  have posDen : (0 : ℚ) < den := by exact_mod_cast hd
  constructor
  · rw [lt_div_iff₀ posDen]
    calc (2 : ℚ) ^ ((num.log2 : ℤ) - den.log2 - 1) * den
        < 2 ^ ((num.log2 : ℤ) - den.log2 - 1) * 2 ^ ((den.log2 : ℤ) + 1) := by gcongr
      _ = 2 ^ (num.log2 : ℤ) := by
        rw [← zpow_add₀ (by norm_num)]
        congr 1
        omega
      _ ≤ num := numLow
  · rw [div_lt_iff₀ posDen]
    calc (num : ℚ) < 2 ^ ((num.log2 : ℤ) + 1) := numHigh
      _ = 2 ^ ((num.log2 : ℤ) - den.log2 + 1) * 2 ^ (den.log2 : ℤ) := by
        rw [← zpow_add₀ (by norm_num)]
        congr 1
        omega
      _ ≤ 2 ^ ((num.log2 : ℤ) - den.log2 + 1) * den := by gcongr

/-- The exponent of a positive fraction leaves a mantissa of 53 bits. -/
theorem normalExponent_spec {num den : ℕ} (hn : 0 < num) (hd : 0 < den) :
    (2 : ℚ) ^ 52 ≤ num / den / 2 ^ normalExponent num den ∧
      (num / den / 2 ^ normalExponent num den : ℚ) < 2 ^ 53 := by
  obtain ⟨low, high⟩ := quotient_between hn hd
  set guess : ℤ := (num.log2 : ℤ) - den.log2 - 52 with hg
  have power (e : ℤ) : (0 : ℚ) < 2 ^ e := by positivity
  have pos : (0 : ℚ) < (shifted num den guess).2 := by exact_mod_cast shifted_pos hd _ _
  have below : (shifted num den guess).1 < twoPow 52 * (shifted num den guess).2 ↔
      (num / den / 2 ^ guess : ℚ) < 2 ^ 52 := by
    rw [← shifted_div, div_lt_iff₀ pos, twoPow_eq]
    exact_mod_cast Iff.rfl
  have upper : (num / den / 2 ^ guess : ℚ) < 2 ^ 53 := by
    rw [div_lt_iff₀ (power _), ← zpow_natCast, ← zpow_add₀ (by norm_num)]
    have : ((53 : ℕ) : ℤ) + guess = (num.log2 : ℤ) - den.log2 + 1 := by omega
    rwa [this]
  have lower : (2 : ℚ) ^ 51 < num / den / 2 ^ guess := by
    rw [lt_div_iff₀ (power _), ← zpow_natCast, ← zpow_add₀ (by norm_num)]
    have : ((51 : ℕ) : ℤ) + guess = (num.log2 : ℤ) - den.log2 - 1 := by omega
    rwa [this]
  simp only [normalExponent, ← hg, below]
  split_ifs with h
  · rw [zpow_sub₀ (by norm_num), zpow_one, ← div_mul]
    exact ⟨by linarith, by linarith⟩
  · exact ⟨not_lt.1 h, upper⟩

/-- A fraction that is not tiny is off by at most half a unit in the last place. -/
theorem exists_mantissa {num den : ℕ} (hn : 0 < num) (hd : 0 < den)
    (least : minExponent ≤ normalExponent num den)
    (most : normalExponent num den < maxExponent) :
    ∃ m : ℕ, (ofRatio false num den).isFinite = true ∧
      (ofRatio false num den).toRat = m * 2 ^ normalExponent num den ∧
      2 * (num / den / 2 ^ normalExponent num den : ℚ) ≤ 2 * m + 1 ∧
      (2 * m : ℚ) ≤ 2 * (num / den / 2 ^ normalExponent num den) + 1 := by
  set e := normalExponent num den with he
  set m := roundHalfEven (shifted num den e).1 (shifted num den e).2 with hm
  have pos : (0 : ℚ) < (shifted num den e).2 := by exact_mod_cast shifted_pos hd _ _
  obtain ⟨low, high⟩ := roundHalfEven_bounds (shifted num den e).1 (shifted_pos hd num e)
  have below : 2 * (num / den / 2 ^ e : ℚ) ≤ 2 * m + 1 := by
    rw [← shifted_div, ← mul_div_assoc, div_le_iff₀ pos]
    exact_mod_cast low
  have above : (2 * m : ℚ) ≤ 2 * (num / den / 2 ^ e) + 1 := by
    rw [← shifted_div, ← mul_div_assoc, ← sub_le_iff_le_add, le_div_iff₀ pos]
    have : (2 * m * (shifted num den e).2 : ℚ) ≤
        2 * (shifted num den e).1 + (shifted num den e).2 := by
      rw [mul_assoc]
      exact_mod_cast high
    linarith
  refine ⟨m, ?_, ?_, below, above⟩
  all_goals simp only [ofRatio, hn.ne', if_false, ← he, max_eq_left least, ← hm]
  · split_ifs
    · simp only [pack, if_pos most.le, isFinite]
    · simp only [pack, if_pos (show e + 1 ≤ maxExponent by omega), isFinite]
  · split_ifs with hlt
    · simp only [pack, if_pos most.le, toRat, signed, Bool.false_eq_true, if_false]
      push_cast
      rfl
    -- A mantissa rounded up to 2 ^ 53 is written with the next exponent.
    · obtain ⟨_, upper⟩ := normalExponent_spec hn hd
      have : (m : ℚ) < 2 ^ 53 + 1 := by linarith
      have top : m < 2 ^ 53 + 1 := by exact_mod_cast this
      have hm53 : m = 2 ^ 53 := by
        rw [twoPow_eq] at hlt
        omega
      simp only [pack, if_pos (show e + 1 ≤ maxExponent by omega), toRat, signed,
        Bool.false_eq_true, if_false, twoPow_eq, hm53]
      rw [zpow_add₀ (by norm_num)]
      push_cast
      ring

theorem ceil_div (n : ℕ) {d : ℕ} (hd : 0 < d) :
    (((n + (d - 1)) / d : ℕ) : ℤ) = ⌈(n / d : ℚ)⌉ := by
  have posRat : (0 : ℚ) < d := by exact_mod_cast hd
  have split := Nat.div_add_mod (n + (d - 1)) d
  have small := Nat.mod_lt (n + (d - 1)) hd
  set q := (n + (d - 1)) / d
  symm
  rw [Int.ceil_eq_iff, lt_div_iff₀ posRat, div_le_iff₀ posRat]
  constructor
  · have : d * q < n + d := by omega
    have cast : (d * q : ℚ) < n + d := by exact_mod_cast this
    push_cast
    linarith
  · have : n ≤ d * q := by omega
    have cast : (n : ℚ) ≤ d * q := by exact_mod_cast this
    push_cast
    linarith

theorem ceil?_finite {x : Double} (hx : x.isFinite = true) : x.ceil? = some ⌈x.toRat⌉ := by
  obtain ⟨s, m, e, rfl⟩ : ∃ s m e, x = finite s m e := by
    cases x with
    | finite s m e => exact ⟨s, m, e, rfl⟩
    | nan => cases hx
    | infinite s => cases hx
  have pos : (twoPow (-e).toNat : ℚ) ≠ 0 := by exact_mod_cast (twoPow_pos _).ne'
  have scaled : (m * 2 ^ e : ℚ) = (m * twoPow e.toNat : ℕ) / (twoPow (-e).toNat : ℕ) := by
    rw [eq_div_iff pos]
    push_cast
    rw [twoPow_cast_zpow e]
    ring
  cases s with
  | false =>
    have rational : (finite false m e).toRat = m * 2 ^ e := by simp [toRat, signed]
    rw [rational, scaled, ← ceil_div _ (twoPow_pos _)]
    rfl
  | true =>
    have rational : (finite true m e).toRat = -(m * 2 ^ e) := by simp [toRat, signed]
    rw [rational, scaled, Int.ceil_neg, Rat.floor_natCast_div_natCast]
    rfl

/-- Where a quotient between `10 ^ -12` and `10 ^ 4` has its last place. -/
theorem normalExponent_bounds {num den : ℕ} (hn : 0 < num) (hd : 0 < den)
    (denBound : den ≤ 10 ^ 12) (quotientBound : num ≤ 10 ^ 4 * den) :
    -93 ≤ normalExponent num den ∧ normalExponent num den ≤ -39 := by
  obtain ⟨low, high⟩ := normalExponent_spec hn hd
  set e := normalExponent num den
  have posDen : (0 : ℚ) < den := by exact_mod_cast hd
  have posNum : (1 : ℚ) ≤ num := by exact_mod_cast hn
  have power : (0 : ℚ) < 2 ^ e := by positivity
  have denRat : (den : ℚ) ≤ 10 ^ 12 := by exact_mod_cast denBound
  constructor
  · by_contra h
    have unit : (2 : ℚ) ^ e ≤ 2 ^ (-94 : ℤ) := zpow_le_zpow_right₀ (by norm_num) (by omega)
    have least : (1 : ℚ) / 10 ^ 12 ≤ num / den := by
      rw [div_le_div_iff₀ (by norm_num) posDen]
      linarith
    rw [div_lt_iff₀ power] at high
    norm_num at high unit least
    linarith
  · by_contra h
    have unit : (2 : ℚ) ^ (-38 : ℤ) ≤ 2 ^ e := zpow_le_zpow_right₀ (by norm_num) (by omega)
    have most : (num / den : ℚ) ≤ 10 ^ 4 := by
      rw [div_le_iff₀ posDen]
      exact_mod_cast quotientBound
    rw [le_div_iff₀ power] at low
    norm_num at low unit most
    linarith

/-- A fraction is above the whole numbers below it by one part of its denominator at least, so
what is off by less has the same ceiling. -/
theorem ceil_eq_of_near {num den : ℕ} (hd : 0 < den) {x : ℚ} (upper : x ≤ ⌈(num / den : ℚ)⌉)
    (near : (num / den : ℚ) - x < 1 / den) : ⌈x⌉ = ⌈(num / den : ℚ)⌉ := by
  set c := ⌈(num / den : ℚ)⌉ with hc
  have posDen : (0 : ℚ) < den := by exact_mod_cast hd
  have strict : ((c : ℚ) - 1) * den < num := by
    rw [← lt_div_iff₀ posDen, sub_lt_iff_lt_add]
    exact Int.ceil_lt_add_one _
  have step : (c - 1) * (den : ℤ) + 1 ≤ num := by exact_mod_cast strict
  have stepRat : ((c : ℚ) - 1) * den + 1 ≤ num := by exact_mod_cast step
  have gap : (c : ℚ) - 1 + 1 / den ≤ num / den := by
    rw [le_div_iff₀ posDen, add_mul, one_div_mul_cancel posDen.ne']
    exact stepRat
  rw [Int.ceil_eq_iff]
  constructor
  · linarith
  · exact upper

/-- A whole number is a multiple of the last place, and rounding stays below such. -/
theorem rounded_le {q : ℚ} {c e : ℤ} {m : ℕ} (he : e ≤ 0) (hq : q ≤ c)
    (near : (2 * m : ℚ) ≤ 2 * (q / 2 ^ e) + 1) : (m * 2 ^ e : ℚ) ≤ c := by
  obtain ⟨s, hs⟩ := Int.eq_ofNat_of_zero_le (show 0 ≤ -e by omega)
  have power : (0 : ℚ) < 2 ^ e := by positivity
  have cancel : (2 : ℚ) ^ s * 2 ^ e = 1 := by
    rw [← zpow_natCast, ← zpow_add₀ (by norm_num)]
    have : ((s : ℕ) : ℤ) + e = 0 := by omega
    rw [this, zpow_zero]
  have quotient : q / 2 ^ e ≤ c * 2 ^ s := by
    rwa [div_le_iff₀ power, mul_assoc, cancel, mul_one]
  have doubled : (2 * m : ℚ) ≤ 2 * (c * 2 ^ s) + 1 := by linarith
  have cast : 2 * (m : ℤ) ≤ 2 * (c * 2 ^ s) + 1 := by exact_mod_cast doubled
  have whole : (m : ℤ) ≤ c * 2 ^ s := by omega
  have mantissa : (m : ℚ) ≤ c * 2 ^ s := by exact_mod_cast whole
  calc (m * 2 ^ e : ℚ) ≤ c * 2 ^ s * 2 ^ e := by gcongr
    _ = c := by rw [mul_assoc, cancel, mul_one]

/-- The ceiling of a rounded quotient is that of the quotient. -/
theorem ceilQuotient?_eq {num den : ℕ} (hn : 0 < num) (hd : 0 < den) (denBound : den ≤ 10 ^ 12)
    (quotientBound : num ≤ 10 ^ 4 * den) :
    ceilQuotient? num den = some ⌈(num / den : ℚ)⌉ := by
  obtain ⟨least, most⟩ := normalExponent_bounds hn hd denBound quotientBound
  obtain ⟨m, finite, rational, below, above⟩ :=
    exists_mantissa hn hd (by simp only [minExponent]; omega) (by simp only [maxExponent]; omega)
  set e := normalExponent num den with he
  have posDen : (0 : ℚ) < den := by exact_mod_cast hd
  have power : (0 : ℚ) < 2 ^ e := by positivity
  have known : ceilQuotient? num den = some ⌈(m * 2 ^ e : ℚ)⌉ := by
    rw [← rational]
    exact ceil?_finite finite
  rw [known, Option.some.injEq]
  apply ceil_eq_of_near hd
  · exact rounded_le (by omega) (Int.le_ceil _) above
  · have denRat : (den : ℚ) ≤ 10 ^ 12 := by exact_mod_cast denBound
    have unit : (2 : ℚ) ^ e ≤ 2 ^ (-39 : ℤ) := zpow_le_zpow_right₀ (by norm_num) most
    have share : (1 : ℚ) / 10 ^ 12 ≤ 1 / den := one_div_le_one_div_of_le posDen denRat
    have whole : (num / den / 2 ^ e * 2 ^ e : ℚ) = num / den := div_mul_cancel₀ _ power.ne'
    have off : (num / den : ℚ) - m * 2 ^ e ≤ 2 ^ e / 2 := by nlinarith
    norm_num only at unit share
    linarith

theorem one_le_of_ceil?_pack {m : ℕ} (hm : 0 < m) {e a : ℤ} (h : (pack false m e).ceil? = some a) :
    1 ≤ a := by
  unfold pack at h
  split at h
  · simp only [ceil?, Option.some.injEq] at h
    have filled : 0 < m * twoPow e.toNat := Nat.mul_pos hm (twoPow_pos _)
    have whole : 0 < (m * twoPow e.toNat + (twoPow (-e).toNat - 1)) / twoPow (-e).toNat :=
      Nat.div_pos (by omega) (twoPow_pos _)
    omega
  · cases h

theorem roundHalfEven_pos {num den : ℕ} (hd : 0 < den) (h : den ≤ num) :
    0 < roundHalfEven num den := by
  have least : 0 < num / den := Nat.div_pos h hd
  unfold roundHalfEven
  dsimp only
  split_ifs <;> omega

/-- However large a quotient is and however it is rounded, it does not come down to zero. -/
theorem one_le_ceilQuotient? {num den : ℕ} (hd : 0 < den) (h : den ≤ num) {a : ℤ}
    (ha : ceilQuotient? num den = some a) : 1 ≤ a := by
  have hn : 0 < num := hd.trans_le h
  obtain ⟨low, high⟩ := normalExponent_spec hn hd
  set e := normalExponent num den with he
  have power : (0 : ℚ) < 2 ^ e := by positivity
  have one : (1 : ℚ) ≤ num / den := by
    rw [one_le_div (by exact_mod_cast hd)]
    exact_mod_cast h
  have normal : minExponent ≤ e := by
    by_contra below
    have unit : (2 : ℚ) ^ e ≤ 2 ^ (-53 : ℤ) :=
      zpow_le_zpow_right₀ (by norm_num) (by simp only [minExponent] at below; omega)
    rw [div_lt_iff₀ power] at high
    norm_num at high unit
    linarith
  have covered : (shifted num den e).2 ≤ (shifted num den e).1 := by
    have pos : (0 : ℚ) < (shifted num den e).2 := by exact_mod_cast shifted_pos hd _ _
    rw [← shifted_div, le_div_iff₀ pos] at low
    have : ((shifted num den e).2 : ℚ) ≤ (shifted num den e).1 := by nlinarith
    exact_mod_cast this
  have mantissa := roundHalfEven_pos (shifted_pos hd num e) covered
  have sign : decide ((num : ℤ) < 0) = false := decide_eq_false (by omega)
  rw [ceilQuotient?, sign, Int.natAbs_natCast] at ha
  simp only [ofRatio, hn.ne', if_false, ← he, max_eq_left normal] at ha
  split at ha
  · exact one_le_of_ceil?_pack mantissa ha
  · exact one_le_of_ceil?_pack (twoPow_pos 52) ha

end Double
end SyntheticRows
