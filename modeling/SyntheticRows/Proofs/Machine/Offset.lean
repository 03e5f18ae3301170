import SyntheticRows.Proofs.Decimal.Nearest
import SyntheticRows.Proofs.Machine.IntRange
import SyntheticRows.Proofs.Meaning.Extreme

/-!
# Offsets on SQLite

SQLite divides a draw of 63 bits by 2 ^ 63 to have a number below 1. The draw is made a double
first, and the last 512 draws are rounded to 2 ^ 63. Their quotient is 1, so the offset that they
pick in a text lies behind its end. All other draws pick a character of the text.
-/
namespace SyntheticRows
open Sql

namespace Double

variable {n l : ℕ} {x y : Double}

theorem rounds_div (hx : x.isFinite = true) (hy : y.isFinite = true) (px : 0 < x.toRat)
    (py : 0 < y.toRat) (ordinary : Ordinary (x.toRat / y.toRat)) :
    (div x y).isFinite = true ∧ Rounds (x.toRat / y.toRat) (div x y).toRat := by
  obtain ⟨m, e, rfl, hm⟩ := exists_of_pos hx px
  obtain ⟨n, f, rfl, hn⟩ := exists_of_pos hy py
  have nonzero : n ≠ 0 := by
    rintro rfl
    simp [hn] at py
  have positive : 0 < n * twoPow (f - e).toNat := Nat.mul_pos (by omega) (twoPow_pos _)
  have opposite : -(e - f) = f - e := by omega
  have power := twoPow_div (e - f)
  have quotient : ((m * twoPow (e - f).toNat : ℕ) : ℚ) / (n * twoPow (f - e).toNat : ℕ) =
      (finite false m e).toRat / (finite false n f).toRat := by
    rw [opposite] at power
    rw [hm, hn, Nat.cast_mul, Nat.cast_mul, mul_div_mul_comm, power, mul_div_mul_comm,
      zpow_sub₀ (by norm_num)]
  simp only [div, nonzero, if_false]
  rw [← quotient] at ordinary ⊢
  exact rounds_ofRatio positive ordinary

theorem ofInt_natCast (n : ℕ) : ofInt n = ofNat n := by
  have sign : decide ((n : ℤ) < 0) = false := decide_eq_false (by omega)
  rw [ofInt, ofNat, sign, Int.natAbs_natCast]

/-- A draw of 63 bits as a number between 0 and 1. -/
def unitOf (n : ℕ) : Double := div (ofNat n) (ofNat (2 ^ 63))

theorem toRat_unitOf (h : n < 2 ^ 63) :
    (unitOf n).isFinite = true ∧ (unitOf n).toRat = (ofNat n).toRat / 2 ^ 63 := by
  rcases Nat.eq_zero_or_pos n with rfl | hn
  · have none : ofNat 0 = finite false 0 minExponent := rfl
    have zero : unitOf 0 = finite false 0 minExponent := by decide +kernel
    rw [zero, none]
    simp [isFinite, toRat, signed]
  have whole : (ofNat (2 ^ 63)).toRat = 2 ^ 63 := toRat_ofNat_near (by decide) le_rfl
  have below := toRat_ofNat_le hn h.le
  have above := one_le_toRat_ofNat hn (by omega)
  obtain ⟨finite, rounds⟩ := rounds_ofNat hn (by omega)
  obtain ⟨finite', -⟩ := rounds_ofNat (n := 2 ^ 63) (by decide) (by decide)
  have ordinary : Ordinary ((ofNat n).toRat / (ofNat (2 ^ 63)).toRat) := by
    rw [whole]
    constructor
    · rw [le_div_iff₀ (by norm_num)]
      norm_num
      linarith
    · rw [div_lt_iff₀ (by norm_num)]
      norm_num
      linarith
  have divided := rounds_div finite finite' (by linarith) (by rw [whole]; norm_num) ordinary
  have held : Held ((ofNat n).toRat / 2 ^ 63) := by
    have scaled := rounds.held.scale (-63)
    have power : (2 : ℚ) ^ (-63 : ℤ) = 1 / 2 ^ 63 := by norm_num
    rwa [power, mul_one_div] at scaled
  rw [whole] at divided
  exact ⟨divided.1, divided.2.eq_of_held held⟩

/-- The number for a draw is below 1 unless the draw is one of the last 512. -/
theorem unitOf_range (h : n < 2 ^ 63) : 0 ≤ (unitOf n).toRat ∧ (unitOf n).toRat ≤ 1 ∧
    ((unitOf n).toRat < 1 ↔ n + 512 < 2 ^ 63) := by
  rw [(toRat_unitOf h).2]
  rcases Nat.eq_zero_or_pos n with rfl | hn
  · have none : ofNat 0 = finite false 0 minExponent := rfl
    rw [none]
    norm_num [toRat, signed]
  have above := one_le_toRat_ofNat hn (by omega)
  have below := toRat_ofNat_le hn h.le
  refine ⟨by positivity, (div_le_one (by norm_num)).2 below, ?_⟩
  rw [div_lt_one (by norm_num)]
  constructor
  · intro less
    by_contra near
    exact less.ne (toRat_ofNat_near (by omega) h.le)
  · intro far
    have upper := toRat_ofNat_far hn far
    linarith

theorem rounds_mul_ofNat (hx : x.isFinite = true) (low : 2 ^ (-63 : ℤ) ≤ x.toRat)
    (high : x.toRat ≤ 1) (hl : 0 < l) (small : l < 2 ^ 63) :
    (mul x (ofNat l)).isFinite = true ∧
      Rounds (x.toRat * (ofNat l).toRat) (mul x (ofNat l)).toRat := by
  have above := one_le_toRat_ofNat hl (by omega)
  have below := toRat_ofNat_le hl small.le
  have positive : 0 < x.toRat := lt_of_lt_of_le (by positivity) low
  refine rounds_mul hx (rounds_ofNat hl (by omega)).1 positive (by linarith) ⟨?_, ?_⟩
  · calc (2 : ℚ) ^ (-200 : ℤ) ≤ 2 ^ (-63 : ℤ) * 1 := by norm_num
      _ ≤ x.toRat * (ofNat l).toRat := by gcongr
  · calc x.toRat * (ofNat l).toRat ≤ 1 * 2 ^ 63 := by gcongr
      _ < 2 ^ (200 : ℤ) := by norm_num

/-- A whole number is not reached by less than its share. -/
theorem toRat_mul_ofNat_lt (hx : x.isFinite = true) (low : 2 ^ (-63 : ℤ) ≤ x.toRat)
    (high : x.toRat ≤ 1 - 2 ^ (-53 : ℤ)) (hl : 0 < l) (small : l < 2 ^ 63) :
    0 ≤ (mul x (ofNat l)).toRat ∧ (mul x (ofNat l)).toRat < l := by
  have above := one_le_toRat_ofNat hl (by omega)
  have share : (0 : ℚ) < 2 ^ (-53 : ℤ) := by positivity
  obtain ⟨-, whole⟩ := rounds_ofNat hl (by omega)
  obtain ⟨-, product⟩ := rounds_mul_ofNat hx low (by linarith) hl small
  have positive : 0 ≤ x.toRat * (ofNat l).toRat := by
    have := (show (0 : ℚ) < 2 ^ (-63 : ℤ) by positivity).trans_le low
    positivity
  have below : x.toRat * (ofNat l).toRat ≤ (ofNat l).toRat * (1 - 2 ^ (-53 : ℤ)) := by
    rw [mul_comm]
    gcongr
  have less := product.lt_of_share whole.held (by linarith) below
  have zero : Held (0 : ℕ) := .natCast (by decide)
  refine ⟨by exact_mod_cast product.ge zero (by exact_mod_cast positive), ?_⟩
  by_contra! reached
  exact not_lt.2 (whole.le product.held reached) less

theorem toRat_zero_mul {e : ℤ} (hy : y.isFinite = true) :
    (mul (finite false 0 e) y).isFinite = true ∧ (mul (finite false 0 e) y).toRat = 0 := by
  cases y with
  | nan => cases hy
  | infinite _ => cases hy
  | finite s m f => simp [mul, ofRatio, isFinite, toRat, signed]

/-- The offset from 0, with its fraction, that a draw gives in a text of a length. -/
def offsetOf (n l : ℕ) : Double := mul (unitOf n) (ofNat l)

theorem toRat_offsetOf (h : n < 2 ^ 63) (hl : 0 < l) (small : l < 2 ^ 63) :
    (offsetOf n l).isFinite = true ∧
      (n + 512 < 2 ^ 63 → 0 ≤ (offsetOf n l).toRat ∧ (offsetOf n l).toRat < l) ∧
      (2 ^ 63 ≤ n + 512 → l ≤ 2 ^ 53 → (offsetOf n l).toRat = l) := by
  obtain ⟨unit, value⟩ := toRat_unitOf h
  rcases Nat.eq_zero_or_pos n with rfl | hn
  · have zero : unitOf 0 = finite false 0 minExponent := by decide +kernel
    obtain ⟨product, nothing⟩ := toRat_zero_mul (e := minExponent) (rounds_ofNat hl (by omega)).1
    rw [offsetOf, zero, nothing]
    exact ⟨product, fun _ => ⟨le_rfl, by exact_mod_cast hl⟩, by omega⟩
  have above := one_le_toRat_ofNat hn (by omega)
  have least : 2 ^ (-63 : ℤ) ≤ (unitOf n).toRat := by
    rw [value, le_div_iff₀ (by norm_num)]
    norm_num
    exact above
  obtain ⟨product, rounds⟩ := rounds_mul_ofNat unit least (unitOf_range h).2.1 hl small
  refine ⟨product, fun far => ?_, fun near short => ?_⟩
  · refine toRat_mul_ofNat_lt unit least ?_ hl small
    have upper := toRat_ofNat_far hn far
    rw [value, div_le_iff₀ (by norm_num)]
    norm_num
    linarith
  · have one : (unitOf n).toRat = 1 := by
      rw [value, toRat_ofNat_near near h.le, div_self (by norm_num)]
    rw [one, one_mul, toRat_ofNat hl short] at rounds
    exact rounds.eq_of_held (.natCast short)

end Double

namespace Engine

variable {d : RawDraws} {names : Path → Option Value} {tag : ℤ} {column place : Expr} {s : String}
  {x y : Double}

/-- The draw without its sign. -/
def maskedWord (d : RawDraws) : ℕ := (Datum.maskedBits d.word int64Max).toNat

theorem maskedWord_spec (d : RawDraws) :
    maskedWord d < 2 ^ 63 ∧ Datum.maskedBits d.word int64Max = maskedWord d := by
  obtain ⟨m, small, masked, -⟩ := Datum.maskedBits_int64Max d.word
  rw [maskedWord, masked, Int.toNat_natCast]
  exact ⟨small, rfl⟩

theorem computed?_unit : (sqlite.unit tag).computed? (sqlite.machine d names) =
    some (.float (.unitOf (maskedWord d))) := by
  have masked : maskedRandom.computed? (sqlite.machine d names) = some (.int (maskedWord d)) :=
    computed?_maskedRandom d
  have whole : (Expr.decimal 9223372036854775808).computed? (sqlite.machine d names) =
      some (.float (.ofNat (2 ^ 63))) := by
    rw [Expr.computed?]
    rfl
  have nonzero : (Double.ofNat (2 ^ 63)).isZero = false := by decide +kernel
  rw [unit, Expr.computed?_paren, Expr.computed?_binary masked whole]
  simp only [Overflow.operate, Operator.double?, nonzero, Bool.false_eq_true, if_false,
    Option.map_some, Double.ofInt_natCast]
  rfl

/-- A cast takes the whole part of a number from 0 on that fits. -/
theorem castTo_float (hx : x.isFinite = true) (low : 0 ≤ x.toRat) (high : ⌊x.toRat⌋ < 2 ^ 63) :
    sqlite.castTo "INTEGER" (.float x) = some (.int ⌊x.toRat⌋) := by
  have positive : 0 ≤ ⌊x.toRat⌋ := Int.floor_nonneg.2 low
  simp only [castTo, Double.truncate?_finite hx, truncated, low, if_true, Option.map_some]
  rw [min_eq_left (by omega), max_eq_right (by omega)]

/-- A place in a text comes to the whole part of the product and one more. -/
theorem computed?_position (hplace : place.computed? (sqlite.machine d names) = some (.float x))
    (hcolumn : column.computed? (sqlite.machine d names) = some (.text s))
    (product : Double.mul x (.ofNat s.length) = y) (real : y.isFinite = true)
    (low : 0 ≤ y.toRat) (high : ⌊y.toRat⌋ + 1 < 2 ^ 63) :
    ((Dialect.of .sqlite).position place column).computed? (sqlite.machine d names) =
      some (.int (⌊y.toRat⌋ + 1)) := by
  have length : ((Dialect.of .sqlite).length column).computed? (sqlite.machine d names) =
      some (.int s.length) := Expr.computed?_call hcolumn
  have multiplied : (Expr.mul place ((Dialect.of .sqlite).length column)).computed?
      (sqlite.machine d names) = some (.float y) := by
    rw [Expr.mul, Expr.computed?_binary hplace length, ← product]
    simp only [Overflow.operate, Operator.double?, Option.map_some, Double.ofInt_natCast]
  have casted : (Expr.cast (.mul place ((Dialect.of .sqlite).length column)) "INTEGER").computed?
      (sqlite.machine d names) = some (.int ⌊y.toRat⌋) :=
    (Expr.computed?_cast multiplied).trans (castTo_float real low (by omega))
  have one := computed?_nat (e := .sqlite) (n := 1) names (by decide) d
  rw [Nat.cast_one] at one
  have positive : 0 ≤ ⌊y.toRat⌋ := Int.floor_nonneg.2 low
  have fits : Fits64 (⌊y.toRat⌋ + 1) := ⟨by omega, by omega⟩
  have written : (Dialect.of .sqlite).position place column =
      .paren (.add (.cast (.mul place ((Dialect.of .sqlite).length column)) "INTEGER") (.nat 1)) :=
    rfl
  rw [written, Expr.computed?_paren, Expr.add, Expr.computed?_binary casted one]
  exact Overflow.whole_of_fits (o := .promoted) fits

/-- The place that is drawn in a text lies within it unless the draw is one of the last 512; then
it is the place behind a text of ordinary length. -/
theorem computed?_position_unit (d : RawDraws) (names : Path → Option Value) (column place : Expr)
    (s : String) (tag : ℤ) (filled : 1 ≤ s.length) (small : s.length < 2 ^ 63)
    (hcolumn : column.computed? (sqlite.machine d names) = some (.text s))
    (hplace : place.computed? (sqlite.machine d names) =
      (sqlite.unit tag).computed? (sqlite.machine d names)) :
    ∃ u : Double, (sqlite.unit tag).computed? (sqlite.machine d names) = some (.float u) ∧
      u.isFinite = true ∧ 0 ≤ u.toRat ∧ u.toRat ≤ 1 ∧
      (u.toRat < 1 ↔ Datum.maskedBits d.word int64Max + 512 < 2 ^ 63) ∧
      (Datum.maskedBits d.word int64Max + 512 < 2 ^ 63 → ∃ k : ℤ, 1 ≤ k ∧ k ≤ s.length ∧
        ((Dialect.of .sqlite).position place column).computed? (sqlite.machine d names) =
          some (.int k)) ∧
      (2 ^ 63 ≤ Datum.maskedBits d.word int64Max + 512 → s.length ≤ 2 ^ 53 →
        ((Dialect.of .sqlite).position place column).computed? (sqlite.machine d names) =
          some (.int (s.length + 1))) := by
  obtain ⟨below, masked⟩ := maskedWord_spec d
  obtain ⟨nonneg, most, strict⟩ := Double.unitOf_range below
  obtain ⟨real, inside, behind⟩ := Double.toRat_offsetOf below filled small
  have drawn := hplace.trans computed?_unit
  rw [masked]
  refine ⟨_, computed?_unit, (Double.toRat_unitOf below).1, nonneg, most, ?_, ?_, ?_⟩
  · rw [strict]
    omega
  · intro far
    obtain ⟨low, less⟩ := inside (by omega)
    have floor : ⌊(Double.offsetOf (maskedWord d) s.length).toRat⌋ < s.length :=
      Int.floor_lt.2 (by exact_mod_cast less)
    have positive := Int.floor_nonneg.2 low
    refine ⟨⌊(Double.offsetOf (maskedWord d) s.length).toRat⌋ + 1, by omega, by omega, ?_⟩
    exact computed?_position drawn hcolumn rfl real low (by omega)
  · intro near short
    have whole := behind (by omega) short
    have floor : ⌊(Double.offsetOf (maskedWord d) s.length).toRat⌋ = s.length := by
      rw [whole, Int.floor_natCast]
    rw [← floor]
    exact computed?_position drawn hcolumn rfl real (by rw [whole]; positivity) (by omega)

theorem computed?_position_middle : (1 ≤ "ab".length ∧ "ab".length < 2 ^ 63) ∧
    ∃ k : ℤ, 1 ≤ k ∧ k ≤ 2 ∧ ((Dialect.of .sqlite).position (sqlite.unit 0) (.bare "t")).computed?
      (sqlite.machine .middle fun _ => some (.text "ab")) = some (.int k) := by
  obtain ⟨_, -, -, -, -, -, inside, -⟩ :=
    computed?_position_unit .middle (fun _ => some (.text "ab")) (.bare "t") (sqlite.unit 0) "ab" 0
      (by decide) (by decide) (by rw [Expr.bare, Expr.computed?]; rfl) rfl
  exact ⟨by decide, inside (by decide)⟩

/-- The greatest draw. -/
def greatestDraw : RawDraws := { RawDraws.middle with
  word := 2 ^ 63 - 1
  word_range := by decide }

/-- The greatest draw becomes 1, and picks the second place of a text of one character. -/
theorem position_behind_greatestDraw :
    (sqlite.unit 0).computed? (sqlite.machine greatestDraw fun _ => some (.text "a")) =
      some (.float (.finite false (2 ^ 52) (-52))) ∧
    (Double.finite false (2 ^ 52) (-52)).toRat = 1 ∧
    ((Dialect.of .sqlite).position (sqlite.unit 0) (.bare "t")).computed?
      (sqlite.machine greatestDraw fun _ => some (.text "a")) = some (.int 2) := by
  refine ⟨?_, ?_, ?_⟩
  · have greatest : Double.unitOf (maskedWord greatestDraw) = .finite false (2 ^ 52) (-52) := by
      decide +kernel
    rw [computed?_unit, greatest]
  · norm_num [Double.toRat, Double.signed]
  · rfl

end Engine
end SyntheticRows
