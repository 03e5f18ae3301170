import SyntheticRows.Proofs.Decimal.Quotient
import SyntheticRows.Proofs.Meaning.Effect
import SyntheticRows.Value.Whole

/-!
# Extremes of columns

What a database answers when it is asked for the greatest or the least content of a column. Nulls
play no role in this. Numbers are compared by their size and texts by their characters, so the
greatest of the texts 9 and 10 is 9.
-/
namespace SyntheticRows
open Sql

/-- A value of an answer shows a content that is not null. -/
inductive Shows : Datum → Value → Prop
  | whole (i : ℤ) : Shows (.number i) (.int i)
  | float {x : Double} : x.isFinite = true → Shows (.number x.toRat) (.float x)
  | text (s : String) : Shows (.text s) (.text s)

/-- Contents that are compared, the first of them not beyond the second. -/
inductive Datum.AtMost : Datum → Datum → Prop
  | number {a b : ℚ} : a ≤ b → AtMost (.number a) (.number b)
  | text {a b : String} : a ≤ b → AtMost (.text a) (.text b)

/-- The value shows the extreme content; it is null if there is nothing but nulls. -/
def IsExtreme (least : Bool) (contents : List Datum) (v : Value) : Prop :=
  (∃ x ∈ contents, Shows x v ∧
    ∀ y ∈ contents, y ≠ .null → if least then x.AtMost y else y.AtMost x) ∨
  (∀ y ∈ contents, y = .null) ∧ v = .null

theorem Double.truncate?_finite {x : Double} (hx : x.isFinite = true) :
    x.truncate? = some (truncated x.toRat) := by
  obtain ⟨s, m, e, rfl⟩ : ∃ s m e, x = finite s m e := by
    cases x with
    | finite s m e => exact ⟨s, m, e, rfl⟩
    | nan => cases hx
    | infinite s => cases hx
  set a := m * twoPow e.toNat with ha
  set b := twoPow (-e).toNat with hb
  have pos : (b : ℚ) ≠ 0 := by exact_mod_cast (twoPow_pos _).ne'
  have scaled : (m * 2 ^ e : ℚ) = a / b := by
    rw [eq_div_iff pos, ha, hb]
    push_cast
    rw [twoPow_cast_zpow e]
    ring
  have positive : (0 : ℚ) ≤ a / b := by positivity
  have floor : ⌊(a / b : ℚ)⌋ = ((a / b : ℕ) : ℤ) := Rat.floor_natCast_div_natCast a b
  cases s with
  | false =>
    have rational : (finite false m e).toRat = a / b := by simp [toRat, signed, scaled]
    rw [rational, truncated, if_pos positive, floor]
    rfl
  | true =>
    have rational : (finite true m e).toRat = -(a / b) := by simp [toRat, signed, scaled]
    have whole : truncated (-(a / b : ℚ)) = -((a / b : ℕ) : ℤ) := by
      unfold truncated
      split
      · next low =>
        have zero : (a / b : ℚ) = 0 := by linarith
        rw [zero, neg_zero, Int.floor_zero, ← floor, zero, Int.floor_zero, neg_zero]
      · rw [Int.ceil_neg, floor]
    rw [rational, whole]
    rfl

theorem truncated_mono {p q : ℚ} (h : p ≤ q) : truncated p ≤ truncated q := by
  unfold truncated
  split_ifs with hp hq hq
  · exact Int.floor_le_floor h
  · exact (hq (hp.trans h)).elim
  · exact (Int.ceil_le.2 (by exact_mod_cast (not_le.1 hp).le)).trans (Int.floor_nonneg.2 hq)
  · exact Int.ceil_le_ceil h

@[simp] theorem truncated_intCast (i : ℤ) : truncated i = i := by simp [truncated]

/-- A number that is shown is read as its whole part. -/
theorem whole_of_shows {q : ℚ} {v : Value} {i : ℤ} (h : Shows (.number q) v)
    (hv : v.whole = .ok i) : i = truncated q := by
  generalize hx : Datum.number q = x at h
  cases h with
  | whole j =>
    cases hx
    cases hv
    exact (truncated_intCast i).symm
  | @float x finite =>
    cases hx
    cases x with
    | finite s m e =>
      simp only [Value.whole, Double.truncate?_finite finite, orError] at hv
      exact (Except.ok.inj hv).symm
    | nan => cases finite
    | infinite s => cases finite
  | text s => cases hx

end SyntheticRows
