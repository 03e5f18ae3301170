import Mathlib.Algebra.Order.Group.Abs
import SyntheticRows.Proofs.Decimal.Quotient

/-!
# Nearest numbers

A mantissa of 53 bits holds some numbers, whatever the exponent. A fraction neither huge nor tiny is
rounded to the nearest of them, so rounding keeps the order, and what is held stays as it is.
-/
namespace SyntheticRows
namespace Double

/-- A mantissa of 53 bits holds the number. -/
def Held (q : ℚ) : Prop := ∃ (m : ℕ) (e : ℤ), m < 2 ^ 53 ∧ q = m * 2 ^ e

/-- No number that is held is nearer. -/
structure Rounds (q r : ℚ) : Prop where
  held : Held r
  nearest : ∀ g, Held g → |r - q| ≤ |g - q|

/-- Neither huge nor tiny. -/
def Ordinary (q : ℚ) : Prop := 2 ^ (-200 : ℤ) ≤ q ∧ q < 2 ^ (200 : ℤ)

variable {p q r s g x : ℚ} {m num den : ℕ} {e f : ℤ}

theorem Held.of_le (h : m ≤ 2 ^ 53) : Held (m * 2 ^ e) := by
  rcases h.lt_or_eq with less | rfl
  · exact ⟨m, e, less, rfl⟩
  · refine ⟨1, 53 + e, by decide, ?_⟩
    rw [zpow_add₀ (by norm_num)]
    norm_num

theorem Held.natCast (h : m ≤ 2 ^ 53) : Held m := by
  simpa using Held.of_le (e := 0) h

theorem Held.scale (h : Held q) (k : ℤ) : Held (q * 2 ^ k) := by
  obtain ⟨m, e, small, rfl⟩ := h
  exact ⟨m, e + k, small, by rw [zpow_add₀ (by norm_num), mul_assoc]⟩

/-- What is held above 0 is held by a full mantissa. -/
theorem Held.full (h : Held g) (positive : 0 < g) :
    ∃ (m : ℕ) (e : ℤ), 2 ^ 52 ≤ m ∧ m < 2 ^ 53 ∧ g = m * 2 ^ e := by
  obtain ⟨m, e, small, rfl⟩ := h
  have hm : m ≠ 0 := by
    rintro rfl
    simp at positive
  have short : m.log2 ≤ 52 := Nat.lt_succ_iff.1 ((Nat.log2_lt hm).2 small)
  have low := Nat.log2_self_le hm
  have high := Nat.lt_log2_self (n := m)
  obtain ⟨k, hk⟩ := Nat.exists_eq_add_of_le short
  refine ⟨m * 2 ^ k, e - k, ?_, ?_, ?_⟩
  · calc 2 ^ 52 = 2 ^ m.log2 * 2 ^ k := by rw [hk, Nat.pow_add]
      _ ≤ m * 2 ^ k := Nat.mul_le_mul_right _ low
  · calc m * 2 ^ k < 2 ^ (m.log2 + 1) * 2 ^ k := Nat.mul_lt_mul_of_pos_right high (by positivity)
      _ = 2 ^ 53 := by rw [← Nat.pow_add, Nat.add_right_comm, ← hk]
  · rw [zpow_sub₀ (by norm_num), zpow_natCast]
    push_cast
    field_simp

namespace Rounds

theorem le (h : Rounds q r) (hg : Held g) (below : q ≤ g) : r ≤ g := by
  have near := h.nearest g hg
  rw [abs_of_nonneg (sub_nonneg.2 below)] at near
  have upper := (le_abs_self _).trans near
  linarith

theorem ge (h : Rounds q r) (hg : Held g) (above : g ≤ q) : g ≤ r := by
  have near := h.nearest g hg
  rw [abs_sub_comm g, abs_of_nonneg (sub_nonneg.2 above)] at near
  have lower := (neg_abs_le _).trans' (neg_le_neg near)
  linarith

theorem eq_of_held (h : Rounds q r) (hq : Held q) : r = q :=
  le_antisymm (h.le hq le_rfl) (h.ge hq le_rfl)

/-- What is rounded up past a number lies in the upper half. -/
theorem add_le (h : Rounds q r) (hg : Held g) (up : g < r) : r + g ≤ 2 * q := by
  have near := sq_le_sq.2 (h.nearest g hg)
  by_contra! far
  have positive := mul_pos (sub_pos.2 up) (sub_pos.2 far)
  linarith

theorem le_add (h : Rounds q r) (hg : Held g) (down : r < g) : 2 * q ≤ r + g := by
  have near := sq_le_sq.2 (h.nearest g hg)
  by_contra! far
  have positive := mul_pos (sub_pos.2 down) (sub_pos.2 far)
  linarith

/-- Roundings of different numbers are in their order. -/
theorem mono (hp : Rounds p r) (hq : Rounds q s) (h : p < q) : r ≤ s := by
  by_contra! reversed
  have low := hp.add_le hq.held reversed
  have high := hq.le_add hp.held reversed
  linarith

/-- What is below a number by its last place stays below it. -/
theorem lt_of_share (h : Rounds q r) (hg : Held g) (positive : 0 < g)
    (below : q ≤ g * (1 - 2 ^ (-53 : ℤ))) : r < g := by
  obtain ⟨m, e, normal, full, rfl⟩ := hg.full positive
  have power : (0 : ℚ) < 2 ^ e := by positivity
  rcases normal.eq_or_lt with rfl | more
  -- Below a power of two the numbers that are held lie twice as close.
  · have previous : Held ((2 ^ 53 - 1 : ℕ) * 2 ^ (e - 1)) := .of_le (by omega)
    have value : ((2 ^ 52 : ℕ) * 2 ^ e * (1 - 2 ^ (-53 : ℤ)) : ℚ) =
        (2 ^ 53 - 1 : ℕ) * 2 ^ (e - 1) := by
      rw [zpow_sub₀ (by norm_num)]
      norm_num
      ring
    calc r ≤ (2 ^ 53 - 1 : ℕ) * 2 ^ (e - 1) := h.le previous (below.trans_eq value)
      _ = (2 ^ 52 : ℕ) * 2 ^ e * (1 - 2 ^ (-53 : ℤ)) := value.symm
      _ < (2 ^ 52 : ℕ) * 2 ^ e := mul_lt_of_lt_one_right positive (by norm_num)
  · have previous : Held ((m - 1 : ℕ) * 2 ^ e) := .of_le (by omega)
    rw [Nat.cast_sub (by omega), Nat.cast_one, sub_mul, one_mul] at previous
    have large : (2 ^ 52 + 1 : ℚ) ≤ m := by exact_mod_cast more
    have share : (2 : ℚ) ^ e < m * 2 ^ e * (2 * 2 ^ (-53 : ℤ)) := by
      have scaled := mul_le_mul_of_nonneg_right large power.le
      norm_num at scaled ⊢
      linarith
    by_contra! up
    have upper := h.add_le previous (by linarith)
    linarith

end Rounds

/-- Whole numbers next to each other are the nearest of what lies between them. -/
theorem abs_sub_le_of_near (low : 2 * x ≤ 2 * m + 1) (high : 2 * (m : ℚ) ≤ 2 * x + 1) (j : ℕ) :
    |m - x| ≤ |j - x| := by
  rcases lt_trichotomy m j with less | rfl | more
  · have step : (m : ℚ) + 1 ≤ j := by exact_mod_cast less
    exact le_abs.2 (.inl (abs_le.2 ⟨by linarith, by linarith⟩))
  · exact le_rfl
  · have step : (j : ℚ) + 1 ≤ m := by exact_mod_cast more
    exact le_abs.2 (.inr (abs_le.2 ⟨by linarith, by linarith⟩))

theorem normalExponent_of_ordinary (hn : 0 < num) (hd : 0 < den) (h : Ordinary (num / den)) :
    minExponent ≤ normalExponent num den ∧ normalExponent num den < maxExponent := by
  obtain ⟨low, high⟩ := normalExponent_spec hn hd
  set e := normalExponent num den
  have power : (0 : ℚ) < 2 ^ e := by positivity
  rw [le_div_iff₀ power, ← zpow_natCast, ← zpow_add₀ (by norm_num)] at low
  rw [div_lt_iff₀ power, ← zpow_natCast, ← zpow_add₀ (by norm_num)] at high
  have least := (zpow_lt_zpow_iff_right₀ (by norm_num)).1 (h.1.trans_lt high)
  have most := (zpow_lt_zpow_iff_right₀ (by norm_num)).1 (low.trans_lt h.2)
  simp only [minExponent, maxExponent]
  omega

/-- What has a finer unit than a full mantissa is below the least normal number. -/
theorem le_of_finer {k : ℕ} (small : k < 2 ^ 53) (fine : f < e) :
    (k * 2 ^ f : ℚ) ≤ (2 ^ 52 : ℕ) * 2 ^ e := by
  have short : (k : ℚ) ≤ 2 ^ 53 := by exact_mod_cast small.le
  calc (k * 2 ^ f : ℚ) ≤ 2 ^ 53 * 2 ^ (e - 1) := by
        gcongr
        · norm_num
        · omega
    _ = (2 ^ 52 : ℕ) * 2 ^ e := by
      rw [zpow_sub₀ (by norm_num)]
      norm_num
      ring

/-- A full mantissa that is nearest among the whole numbers is nearest among all that is held. -/
theorem rounds_of_mantissa (normal : (2 ^ 52 : ℕ) ≤ x) (full : x < 2 ^ 53)
    (low : 2 * x ≤ 2 * m + 1) (high : 2 * (m : ℚ) ≤ 2 * x + 1) :
    Rounds (x * 2 ^ e) (m * 2 ^ e) := by
  have power : (0 : ℚ) < 2 ^ e := by positivity
  have scaled (a : ℚ) : |a * 2 ^ e - x * 2 ^ e| = |a - x| * 2 ^ e := by
    rw [← sub_mul, abs_mul, abs_of_pos power]
  refine ⟨?_, ?_⟩
  · have top : (m : ℚ) < 2 ^ 53 + 1 := by linarith
    exact Held.of_le (Nat.lt_succ_iff.1 (by exact_mod_cast top))
  · rintro _ ⟨k, f, small, rfl⟩
    rcases le_or_gt e f with coarse | fine
    · obtain ⟨d, rfl⟩ := Int.le.dest coarse
      have multiple : (k * 2 ^ (e + d) : ℚ) = (k * 2 ^ d : ℕ) * 2 ^ e := by
        rw [zpow_add₀ (by norm_num), zpow_natCast]
        push_cast
        ring
      rw [multiple, scaled, scaled]
      exact mul_le_mul_of_nonneg_right (abs_sub_le_of_near low high _) power.le
    -- A finer mantissa is full only below the least normal one.
    · have near := abs_sub_le_of_near low high (2 ^ 52)
      rw [abs_sub_comm ((2 ^ 52 : ℕ) : ℚ), abs_of_nonneg (sub_nonneg.2 normal)] at near
      have below := le_of_finer small fine
      calc |m * 2 ^ e - x * 2 ^ e| = |m - x| * 2 ^ e := scaled m
        _ ≤ (x - (2 ^ 52 : ℕ)) * 2 ^ e := mul_le_mul_of_nonneg_right near power.le
        _ ≤ x * 2 ^ e - k * 2 ^ f := by rw [sub_mul]; linarith
        _ ≤ |k * 2 ^ f - x * 2 ^ e| := by rw [abs_sub_comm]; exact le_abs_self _

theorem rounds_ofRatio (hd : 0 < den) (h : Ordinary (num / den)) :
    (ofRatio false num den).isFinite = true ∧
      Rounds (num / den) (ofRatio false num den).toRat := by
  have positive : (0 : ℚ) < num / den := lt_of_lt_of_le (by positivity) h.1
  have hn : 0 < num := by
    rcases Nat.eq_zero_or_pos num with rfl | hn
    · simp at positive
    · exact hn
  obtain ⟨least, most⟩ := normalExponent_of_ordinary hn hd h
  obtain ⟨m, finite, rational, low, high⟩ := exists_mantissa hn hd least most
  obtain ⟨normal, full⟩ := normalExponent_spec hn hd
  set e := normalExponent num den
  have power : (0 : ℚ) < 2 ^ e := by positivity
  have value : (num / den : ℚ) = num / den / 2 ^ e * 2 ^ e :=
    (div_mul_cancel₀ _ power.ne').symm
  rw [rational, value]
  exact ⟨finite, rounds_of_mantissa (by exact_mod_cast normal) (by exact_mod_cast full) low high⟩

section Whole

variable {n k : ℕ}

theorem rounds_ofNat (hn : 0 < n) (small : n < 2 ^ 200) :
    (ofNat n).isFinite = true ∧ Rounds n (ofNat n).toRat := by
  have least : (1 : ℚ) ≤ n := by exact_mod_cast hn
  have most : (n : ℚ) < 2 ^ 200 := by exact_mod_cast small
  have ordinary : Ordinary (n / (1 : ℕ)) := by
    rw [Nat.cast_one, div_one]
    exact ⟨le_trans (by norm_num) least, by exact_mod_cast most⟩
  have rounded := rounds_ofRatio one_pos ordinary
  rwa [Nat.cast_one, div_one] at rounded

theorem toRat_ofNat_mono (hk : 0 < k) (h : k ≤ n) (small : n < 2 ^ 200) :
    (ofNat k).toRat ≤ (ofNat n).toRat := by
  rcases h.eq_or_lt with rfl | less
  · exact le_rfl
  · have first := (rounds_ofNat hk (by omega)).2
    have second := (rounds_ofNat (by omega) small).2
    exact first.mono second (by exact_mod_cast less)

theorem toRat_ofNat (hn : 0 < n) (held : n ≤ 2 ^ 53) : (ofNat n).toRat = n :=
  (rounds_ofNat hn (by omega)).2.eq_of_held (.natCast held)

theorem one_le_toRat_ofNat (hn : 0 < n) (small : n < 2 ^ 200) : 1 ≤ (ofNat n).toRat := by
  have held : Held (1 : ℕ) := .natCast (by decide)
  have above : ((1 : ℕ) : ℚ) ≤ n := by exact_mod_cast hn
  exact_mod_cast (rounds_ofNat hn small).2.ge held above

theorem toRat_ofNat_le (hn : 0 < n) (h : n ≤ 2 ^ 63) : (ofNat n).toRat ≤ 2 ^ 63 := by
  have held := Held.of_le (m := 2 ^ 53) (e := 10) le_rfl
  have top : ((2 ^ 53 : ℕ) : ℚ) * 2 ^ (10 : ℤ) = 2 ^ 63 := by norm_num
  have below : (n : ℚ) ≤ 2 ^ 63 := by exact_mod_cast h
  exact (rounds_ofNat hn (by omega)).2.le (top ▸ held) below

/-- The last half unit below 2 ^ 63 is rounded up to it. -/
theorem toRat_ofNat_near (near : 2 ^ 63 ≤ n + 512) (h : n ≤ 2 ^ 63) : (ofNat n).toRat = 2 ^ 63 := by
  have middle : (ofNat (2 ^ 63 - 512)).toRat = 2 ^ 63 := by
    have rounded : ofNat (2 ^ 63 - 512) = finite false (2 ^ 52) 11 := by decide +kernel
    rw [rounded]
    norm_num [toRat, signed]
  refine le_antisymm (toRat_ofNat_le (by omega) h) ?_
  rw [← middle]
  exact toRat_ofNat_mono (by decide) (by omega) (by omega)

/-- Below that a number stays below 2 ^ 63 by a unit. -/
theorem toRat_ofNat_far (hn : 0 < n) (far : n + 512 < 2 ^ 63) :
    (ofNat n).toRat ≤ 2 ^ 63 - 2 ^ 10 := by
  have last : (ofNat (2 ^ 63 - 513)).toRat = 2 ^ 63 - 2 ^ 10 := by
    have rounded : ofNat (2 ^ 63 - 513) = finite false (2 ^ 53 - 1) 10 := by decide +kernel
    rw [rounded]
    norm_num [toRat, signed]
  rw [← last]
  exact toRat_ofNat_mono hn (by omega) (by decide)

end Whole

section Products

variable {x y : Double}

theorem exists_of_pos (finite : x.isFinite = true) (positive : 0 < x.toRat) :
    ∃ (m : ℕ) (e : ℤ), x = .finite false m e ∧ x.toRat = m * 2 ^ e := by
  cases x with
  | nan => cases finite
  | infinite _ => cases finite
  | finite s m e =>
    cases s with
    | false => exact ⟨m, e, rfl, by simp [toRat, signed]⟩
    | true =>
      have magnitude : (0 : ℚ) ≤ m * 2 ^ e := by positivity
      simp only [toRat, signed, if_true] at positive
      push_cast at positive
      linarith

theorem twoPow_div (g : ℤ) : (twoPow g.toNat : ℚ) / twoPow (-g).toNat = 2 ^ g := by
  have pos : (twoPow (-g).toNat : ℚ) ≠ 0 := by exact_mod_cast (twoPow_pos _).ne'
  rw [div_eq_iff pos, twoPow_cast_zpow]

theorem rounds_mul (hx : x.isFinite = true) (hy : y.isFinite = true) (px : 0 < x.toRat)
    (py : 0 < y.toRat) (ordinary : Ordinary (x.toRat * y.toRat)) :
    (mul x y).isFinite = true ∧ Rounds (x.toRat * y.toRat) (mul x y).toRat := by
  obtain ⟨m, e, rfl, hm⟩ := exists_of_pos hx px
  obtain ⟨n, f, rfl, hn⟩ := exists_of_pos hy py
  have product : ((m * n * twoPow (e + f).toNat : ℕ) : ℚ) / (twoPow (-(e + f)).toNat : ℕ) =
      (finite false m e).toRat * (finite false n f).toRat := by
    rw [hm, hn, Nat.cast_mul, mul_div_assoc, twoPow_div, zpow_add₀ (by norm_num)]
    push_cast
    ring
  rw [← product] at ordinary ⊢
  exact rounds_ofRatio (twoPow_pos _) ordinary

end Products

end Double
end SyntheticRows
