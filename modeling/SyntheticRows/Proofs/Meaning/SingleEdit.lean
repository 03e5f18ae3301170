import SyntheticRows.Proofs.Meaning.Draw
import SyntheticRows.Proofs.Meaning.Substitution

/-!
# A mutation is one edit

What a mutation does to a text, said by what stands before and after the edited character, and that
its expression does nothing else: with its draws in numbered places, or in a list that is bound.
-/
namespace SyntheticRows
open Sql

section Texts

variable {edit : Edit} {before after : List Char} {ch : Char}

/-- The text with one character of it edited. -/
def Edit.result (before : List Char) (ch : Char) (after : List Char) : Edit → List Char
  | replace => before ++ 'X' :: after
  | delete => before ++ after
  | insert => before ++ 'X' :: ch :: after

end Texts

namespace Mutation

variable {m : Mutation} {q : ℚ}

section Thresholds

/-- The numbers that the choice is compared with. -/
def thresholds (m : Mutation) : List ℚ :=
  (List.range (m.edits.length - 1)).map fun i => threshold i m.edits.length

/-- How many of them a draw reaches. -/
def passed (m : Mutation) (q : ℚ) : ℕ := m.thresholds.countP (· ≤ q)

section Cases

variable {a b c : Edit}

end Cases

end Thresholds

section Edits

variable {R : Rules} {c : Chance} {x v : Datum} {s : String}

/-- A draw from 0 to below 1 picks one of the characters. -/
theorem place_lt {q : ℚ} {n : ℕ} (low : 0 ≤ q) (high : q < 1) (some : 0 < n) :
    0 ≤ ⌊q * n⌋ ∧ ⌊q * n⌋.toNat < n := by
  have positive : (0 : ℚ) < n := by exact_mod_cast some
  have nonneg : 0 ≤ ⌊q * n⌋ := Int.floor_nonneg.2 (by positivity)
  have below : ⌊q * n⌋ < n := by
    rw [Int.floor_lt]
    exact_mod_cast mul_lt_of_lt_one_left positive high
  exact ⟨nonneg, by omega⟩

end Edits

section Compiled

variable {e : Engine} {column : Expr}

variable {R : Rules} {c : Chance} {x : Datum}

end Compiled
end Mutation
end SyntheticRows
