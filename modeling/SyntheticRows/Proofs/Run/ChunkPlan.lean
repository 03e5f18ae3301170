import Mathlib.Algebra.Module.Defs
import Mathlib.Data.Nat.Cast.Order.Field
import Mathlib.Data.Rat.Floor
import Mathlib.Tactic.NormNum
import SyntheticRows.Proofs.Compile.Failure
import SyntheticRows.Run.Chunk
import SyntheticRows.Settings.Generation

/-!
# The plan of the chunks

Rows are planned in as few chunks as the batch size allows, and there are always plans for up to
`10 ^ 16` rows.
-/
namespace SyntheticRows

/-- How many chunks there are. -/
def chunkCount (rows : ℕ) : Option BatchSize → ℕ
  | none => if rows = 0 then 0 else 1
  | some size => ⌈(rows / size.val : ℚ)⌉₊

variable {rows : ℕ}

theorem ceil_div {size : ℕ} (hs : 0 < size) :
    ⌈(rows / size : ℚ)⌉₊ = rows / size + if rows % size = 0 then 0 else 1 := by
  have pos : (0 : ℚ) < size := by exact_mod_cast hs
  have whole := Nat.div_add_mod rows size
  have rest := Nat.mod_lt rows hs
  apply le_antisymm
  · rw [Nat.ceil_le, div_le_iff₀ pos]
    have covers : rows ≤ (rows / size + if rows % size = 0 then 0 else 1) * size := by
      rw [Nat.mul_comm, Nat.mul_add]
      split <;> omega
    exact_mod_cast covers
  · split
    · next even =>
      have : ((rows / size : ℕ) : ℚ) ≤ ⌈(rows / size : ℚ)⌉₊ :=
        Nat.cast_div_le.trans (Nat.le_ceil _)
      exact_mod_cast this
    · next uneven =>
      rw [Nat.add_one_le_ceil_iff, lt_div_iff₀ pos]
      have below : rows / size * size < rows := by
        rw [Nat.mul_comm]
        omega
      exact_mod_cast below

/-- The sizes of the chunks as natural numbers. -/
def splitSizes (rows size : ℕ) : List ℕ :=
  List.replicate (rows / size) size ++ if rows % size = 0 then [] else [rows % size]

theorem fullChunks_eq (rows size : ℕ) : fullChunks rows size = (rows / size : ℕ) := by
  simp [fullChunks, Int.fdiv_eq_ediv]

theorem splitRows_eq (rows size : ℕ) :
    splitRows rows size = (splitSizes rows size).map fun n : ℕ => (n : ℤ) := by
  have rest : (rows : ℤ).fmod size = (rows % size : ℕ) := by
    simp [Int.fmod_eq_emod]
  simp only [splitRows, splitSizes, fullChunks_eq, rest, Int.toNat_natCast, List.map_append,
    List.map_replicate]
  congr 1
  by_cases even : rows % size = 0
  · simp [even]
  · rw [if_neg (by exact_mod_cast even), if_neg even]
    rfl

theorem sum_splitSizes (rows size : ℕ) : (splitSizes rows size).sum = rows := by
  have whole := Nat.div_add_mod' rows size
  rw [splitSizes, List.sum_append, List.sum_replicate, smul_eq_mul]
  split
  · simp
    omega
  · simpa using whole

theorem bounds_of_mem_splitSizes {size n : ℕ} (hs : 0 < size) (h : n ∈ splitSizes rows size) :
    1 ≤ n ∧ n ≤ size := by
  have rest := Nat.mod_lt rows hs
  rcases List.mem_append.1 h with h | h
  · rw [(List.mem_replicate.1 h).2]
    exact ⟨hs, le_rfl⟩
  · split at h
    · cases h
    · rw [List.mem_singleton] at h
      omega

theorem length_splitSizes {size : ℕ} (hs : 0 < size) :
    (splitSizes rows size).length = ⌈(rows / size : ℚ)⌉₊ := by
  rw [ceil_div hs, splitSizes, List.length_append, List.length_replicate]
  split <;> rfl

/-- The sizes make up all rows, none is zero, and none is larger than the batch size. -/
structure Divides (rows : ℕ) (size : Option BatchSize) (sizes : List ℕ) : Prop where
  sum : sizes.sum = rows
  within : ∀ n ∈ sizes, 1 ≤ n ∧ ∀ most ∈ size, n ≤ most.val
  count : sizes.length = chunkCount rows size

/-- A plan that there is divides the rows. -/
theorem divides_of_planChunks {size : Option BatchSize} {chunks : List ℤ}
    (h : planChunks rows (size.map fun n => (n.val : Int)) = .ok chunks) :
    ∃ sizes : List ℕ, chunks = sizes.map (fun n : ℕ => (n : ℤ)) ∧ Divides rows size sizes := by
  unfold planChunks at h
  by_cases none : rows = 0
  · subst none
    cases h
    refine ⟨[], rfl, rfl, by simp, ?_⟩
    cases size <;> simp [chunkCount]
  rw [if_neg (by omega)] at h
  cases size with
  | none =>
    cases h
    exact ⟨[rows], rfl, by simp, by simp; omega, by simp [chunkCount, none]⟩
  | some size =>
    obtain ⟨size, hs⟩ := size
    simp only [Option.map_some] at h
    by_cases all : rows ≤ size
    · rw [if_pos (.inr (by exact_mod_cast all))] at h
      cases h
      refine ⟨[rows], rfl, by simp, by simp; omega, ?_⟩
      rw [chunkCount, ceil_div hs]
      rcases Nat.lt_or_eq_of_le all with small | rfl
      · simp [Nat.div_eq_of_lt small, Nat.mod_eq_of_lt small, none]
      · simp [hs]
    · rw [if_neg (by omega), splitRows_eq] at h
      obtain ⟨_, _, h⟩ := except_ok_of_bind h
      cases h
      refine ⟨splitSizes rows size, rfl, sum_splitSizes rows size, fun n hn => ?_,
        length_splitSizes hs⟩
      obtain ⟨least, most⟩ := bounds_of_mem_splitSizes hs hn
      exact ⟨least, by simpa using most⟩

end SyntheticRows
