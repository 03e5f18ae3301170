import Mathlib.Algebra.Order.Field.Power
import Mathlib.Data.Rat.Floor
import Mathlib.Tactic.Positivity
import SyntheticRows.Spec.Check

/-!
# Numbers as rationals

What a double and a number stand for, and that they are compared as the rationals they stand for.
A probability stands for a rational between 0 and 1.
-/
namespace SyntheticRows

namespace Double

/-- The rational that a finite double stands for; the others stand for none, and are given 0. -/
def toRat : Double → ℚ
  | .finite s m e => signed s m * 2 ^ e
  | _ => 0

/-- The order of two whole numbers is that of their products with a positive number. -/
theorem compare_mul {c : ℚ} (hc : 0 < c) (a b : Int) :
    compare a b = compare ((a : ℚ) * c) (b * c) := by
  rcases lt_trichotomy a b with h | rfl | h
  · rw [compare_lt_iff_lt.2 h, compare_lt_iff_lt.2]
    exact mul_lt_mul_of_pos_right (by exact_mod_cast h) hc
  · rw [compare_eq_iff_eq.2 rfl, compare_eq_iff_eq.2 rfl]
  · rw [compare_gt_iff_gt.2 h, compare_gt_iff_gt.2]
    exact mul_lt_mul_of_pos_right (by exact_mod_cast h) hc

/-- Mantissas are compared after both numbers were brought to the lesser exponent. -/
theorem compareScaled_eq (m₁ e₁ m₂ e₂ : Int) :
    compareScaled m₁ e₁ m₂ e₂ = compare ((m₁ : ℚ) * 2 ^ e₁) (m₂ * 2 ^ e₂) := by
  set e := min e₁ e₂ with he
  have pos : (0 : ℚ) < 2 ^ e := by positivity
  have scaled (m f : Int) (hf : e ≤ f) :
      (m : ℚ) * 2 ^ f = ((m * twoPow (f - e).toNat : Int) : ℚ) * 2 ^ e := by
    obtain ⟨k, rfl⟩ := Int.le.dest hf
    have hk : (e + k - e).toNat = k := by omega
    rw [hk, zpow_add₀ (by norm_num), zpow_natCast]
    simp only [twoPow, Nat.pow_eq]
    push_cast
    ring
  rw [scaled m₁ e₁ (min_le_left _ _), scaled m₂ e₂ (min_le_right _ _)]
  exact compare_mul pos _ _

theorem compare?_finite {x y : Double} (hx : x.isFinite = true) (hy : y.isFinite = true) :
    x.compare? y = some (compare x.toRat y.toRat) := by
  cases x <;> cases hx
  cases y <;> cases hy
  simp [compare?, toRat, compareScaled_eq]

theorem compareInt?_finite {x : Double} (hx : x.isFinite = true) (i : Int) :
    x.compareInt? i = some (compare x.toRat i) := by
  cases x <;> cases hx
  simp [compareInt?, toRat, compareScaled_eq]

end Double

namespace Number

/-- The rational that a number stands for. -/
def toRat : Number → ℚ
  | .int i => i
  | .float x => x.toRat

/-- Whether the number stands for a rational at all. -/
def IsReal : Number → Prop
  | .int _ => True
  | .float x => x.isFinite = true

theorem compare?_real {a b : Number} (ha : a.IsReal) (hb : b.IsReal) :
    a.compare? b = some (compare a.toRat b.toRat) := by
  cases a with
  | int i =>
    cases b with
    | int j => simpa [compare?, toRat] using Double.compare_mul one_pos i j
    | float y =>
      simp only [compare?, Double.compareInt?_finite hb, toRat, Option.map_some]
      rw [Std.OrientedOrd.eq_swap (a := y.toRat), Ordering.swap_swap]
  | float x =>
    cases b with
    | int j => simp only [compare?, Double.compareInt?_finite ha, toRat]
    | float y => simp only [compare?, Double.compare?_finite ha hb, toRat]

theorem lt_iff {a b : Number} (ha : a.IsReal) (hb : b.IsReal) :
    a.lt b = true ↔ a.toRat < b.toRat := by
  simp [lt, compare?_real ha hb, compare_lt_iff_lt]

theorem le_iff {a b : Number} (ha : a.IsReal) (hb : b.IsReal) :
    a.le b = true ↔ a.toRat ≤ b.toRat := by
  simp [le, compare?_real ha hb, compare_lt_iff_lt, le_iff_lt_or_eq]

theorem inUnit_one : (Number.int 1).inUnit = true := by decide

/-- A number between two whole numbers is a real one. -/
theorem isReal_of_inUnit {n : Number} (h : n.inUnit = true) : n.IsReal := by
  cases n with
  | int i => trivial
  | float x =>
    cases x with
    | nan => cases h
    | infinite s => cases s <;> cases h
    | finite s m e => rfl

end Number

namespace Probability

theorem isReal (p : Probability) : p.val.IsReal := Number.isReal_of_inUnit p.property

/-- A probability is certain exactly if it is not below 1. -/
theorem one_le_iff (p : Probability) : (Number.int 1).le p.val = true ↔ 1 ≤ p.val.toRat := by
  rw [Number.le_iff (a := .int 1) trivial (isReal p)]
  simp [Number.toRat]

theorem lt_one_iff (p : Probability) : p.val.lt (.int 1) = true ↔ p.val.toRat < 1 := by
  rw [Number.lt_iff (b := .int 1) (isReal p) trivial]
  simp [Number.toRat]

end Probability
end SyntheticRows
