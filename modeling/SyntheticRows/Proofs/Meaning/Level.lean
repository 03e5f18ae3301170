import SyntheticRows.Proofs.Compile.Failure
import SyntheticRows.Proofs.Decimal.Quotient
import SyntheticRows.Proofs.Meaning.Assignment
import SyntheticRows.Proofs.Meaning.Source

/-!
# Levels of sequences

Trino's joined sequences are the digits of a number, base 10000, and the ordinal of a row is that
number plus one. The outermost digit stops at a ceiling that is taken of a rounded quotient; the
levels are so few that rounding does not matter.
-/
namespace SyntheticRows
open Sql

namespace RowSource

theorem levelCount_covers (n : ℕ) : n ≤ sequenceLimit ^ levelCount n := by
  fun_induction levelCount n with
  | case1 n h => simpa using h
  | case2 n h ih =>
    rw [pow_add, pow_one]
    have : n ≤ sequenceLimit * ((n + (sequenceLimit - 1)) / sequenceLimit) := by
      simp only [sequenceLimit] at *
      omega
    exact this.trans (Nat.mul_le_mul_left _ ih)

/-- One level less would not do. -/
theorem levelCount_least {n : ℕ} (hn : sequenceLimit < n) :
    ∃ m, levelCount n = m + 2 ∧ sequenceLimit ^ (m + 1) < n := by
  fun_induction levelCount n with
  | case1 n h => omega
  | case2 n h ih =>
    set n' := (n + (sequenceLimit - 1)) / sequenceLimit with hn'
    by_cases more : sequenceLimit < n'
    · obtain ⟨m, hm, least⟩ := ih more
      refine ⟨m + 1, by omega, ?_⟩
      have : sequenceLimit ^ (m + 1 + 1) ≤ sequenceLimit * (n' - 1) := by
        rw [pow_succ, Nat.mul_comm]
        exact Nat.mul_le_mul_left _ (by omega)
      have : sequenceLimit * (n' - 1) < n := by
        simp only [sequenceLimit] at *
        omega
      omega
    · have one : levelCount n' = 1 := by
        rw [levelCount, dif_pos (by omega)]
      exact ⟨0, by omega, by simpa using hn⟩

/-- Four levels hold all counts of rows up to `10 ^ 16`. -/
theorem levelCount_of_le {n : ℕ} (hn : sequenceLimit < n) (bound : n ≤ 10 ^ 16) :
    ∃ m, levelCount n = m + 2 ∧ m ≤ 2 := by
  obtain ⟨m, hm, least⟩ := levelCount_least hn
  refine ⟨m, hm, ?_⟩
  by_contra more
  have : sequenceLimit ^ 4 ≤ sequenceLimit ^ (m + 1) :=
    Nat.pow_le_pow_right (by decide) (by omega)
  have : sequenceLimit ^ 4 = 10 ^ 16 := by decide
  omega

theorem levelWeight_eq {levels level m : ℕ} (h : level + (m + 1) = levels) :
    levelWeight levels level = sequenceLimit ^ m := by
  have : levels - 1 - level = m := by omega
  rw [levelWeight, this]
  rfl

/-- How many entries the outermost of `m + 1` levels has. -/
def outermost (n m : ℕ) : ℕ := ⌈(n / (sequenceLimit ^ m : ℕ) : ℚ)⌉₊

theorem outermost_covers (n m : ℕ) : n ≤ outermost n m * sequenceLimit ^ m := by
  have pos : (0 : ℚ) < (sequenceLimit ^ m : ℕ) := by simp [sequenceLimit]
  have above : (n / (sequenceLimit ^ m : ℕ) : ℚ) ≤ outermost n m := Nat.le_ceil _
  rw [div_le_iff₀ pos] at above
  exact_mod_cast above

theorem outermost_pos {n m : ℕ} (hn : 0 < n) : 0 < outermost n m := by
  by_contra h
  have zero : outermost n m = 0 := by omega
  have := outermost_covers n m
  simp [zero] at this
  omega

theorem outermost_le {n m : ℕ} (h : n ≤ sequenceLimit ^ (m + 1)) :
    outermost n m ≤ sequenceLimit := by
  have pos : (0 : ℚ) < (sequenceLimit ^ m : ℕ) := by simp [sequenceLimit]
  rw [outermost, Nat.ceil_le, div_le_iff₀ pos]
  rw [pow_succ, Nat.mul_comm] at h
  exact_mod_cast h

/-- The rounded quotient of a few levels is exact. -/
theorem quotient_outermost {n m : ℕ} (hn : 0 < n) (few : m ≤ 3)
    (covers : n ≤ sequenceLimit ^ (m + 1)) :
    Double.ceilQuotient? n (sequenceLimit ^ m) = some (outermost n m : ℤ) := by
  have weight : sequenceLimit ^ m ≤ 10 ^ 12 :=
    calc sequenceLimit ^ m ≤ sequenceLimit ^ 3 := Nat.pow_le_pow_right (by decide) few
      _ = 10 ^ 12 := by decide
  have quotient := Double.ceilQuotient?_eq hn (Nat.pow_pos (by decide)) weight
    (by rw [pow_succ, Nat.mul_comm] at covers; exact covers)
  have whole : (outermost n m : ℤ) = ⌈(n / (sequenceLimit ^ m : ℕ) : ℚ)⌉ :=
    Int.natCast_ceil_eq_ceil (by positivity)
  rw [quotient, whole]

theorem levelSource_zero {n m : ℕ} (hn : 0 < n) (few : m ≤ 3)
    (covers : n ≤ sequenceLimit ^ (m + 1)) :
    levelSource n (m + 1) 0 = .ok (.level 0 0 (outermost n m - 1)) := by
  simp only [levelSource, if_true, levelWeight_eq (show 0 + (m + 1) = m + 1 by omega),
    quotient_outermost hn few covers]
  rfl

theorem levelSource_inner (n : ℤ) (levels : ℕ) {level : ℕ} (h : level ≠ 0) :
    levelSource n levels level = .ok (.level level 0 (sequenceLimit - 1)) := by
  simp only [levelSource, if_neg h]
  rfl

theorem innerSources (n : ℤ) (m : ℕ) : (List.range' 1 m).mapM (levelSource n (m + 1)) =
    .ok ((List.range' 1 m).map fun level => .level level 0 (sequenceLimit - 1)) := by
  apply mapM_ok
  intro level hl
  rw [List.mem_range'_1] at hl
  exact levelSource_inner n (m + 1) (by omega)

theorem levelSources {n m : ℕ} (hn : 0 < n) (few : m ≤ 3) (covers : n ≤ sequenceLimit ^ (m + 1)) :
    (List.range (m + 1)).mapM (levelSource n (m + 1)) =
      .ok (.level 0 0 (outermost n m - 1) ::
        (List.range' 1 m).map fun level => .level level 0 (sequenceLimit - 1)) := by
  rw [List.range_eq_range', List.range'_succ, List.mapM_cons, levelSource_zero hn few covers,
    innerSources]
  rfl

/-- However many rows there are, the outermost level has what the quotient gives. -/
theorem sources_of_levels {n : ℤ} {m : ℕ} {sources : List Source}
    (h : (List.range (m + 1)).mapM (levelSource n (m + 1)) = .ok sources) :
    ∃ a : ℤ, Double.ceilQuotient? n (sequenceLimit ^ m) = some a ∧
      sources = .level 0 0 (a - 1) ::
        (List.range' 1 m).map fun level => .level level 0 (sequenceLimit - 1) := by
  rw [List.range_eq_range', List.range'_succ, List.mapM_cons, innerSources] at h
  obtain ⟨first, hfirst, h⟩ := except_ok_of_bind h
  cases h
  simp only [levelSource, if_true, levelWeight_eq (show 0 + (m + 1) = m + 1 by omega)] at hfirst
  obtain ⟨a, ha, hfirst⟩ := except_ok_of_bind hfirst
  cases hfirst
  cases hq : Double.ceilQuotient? n (sequenceLimit ^ m) with
  | none =>
    rw [hq] at ha
    cases ha
  | some b =>
    rw [hq] at ha
    cases ha
    exact ⟨a, rfl, rfl⟩

end RowSource

namespace Sql

theorem levelPath_injective : Function.Injective levelPath := by
  intro i j h
  simp only [levelPath, List.cons.injEq, Name.bare.injEq, and_true] at h
  exact numbered_injective "_g" h

/-- The digits of a number by the names of their levels, the greatest first; the first of them is
not bounded. -/
def digitCells (level : ℕ) : ℕ → ℕ → Cells
  | 0, _ => []
  | m + 1, k =>
    (levelPath level, .number (k / RowSource.sequenceLimit ^ m : ℕ)) ::
      digitCells (level + 1) m (k % RowSource.sequenceLimit ^ m)

theorem level_of_mem_digitCells {level m k : ℕ} {path : Path} {v : Datum}
    (h : (path, v) ∈ digitCells level m k) : ∃ i, level ≤ i ∧ path = levelPath i := by
  induction m generalizing level k with
  | zero => cases h
  | succ m ih =>
    rcases List.mem_cons.1 h with h | h
    · cases h
      exact ⟨level, le_rfl, rfl⟩
    · obtain ⟨i, hi, rfl⟩ := ih h
      exact ⟨i, by omega, rfl⟩

/-- Each level is found under its name. -/
theorem lookup_digitCells {level m k : ℕ} {path : Path} {v : Datum} (others : Cells)
    (h : (path, v) ∈ digitCells level m k) :
    (digitCells level m k ++ others).lookup path = some v := by
  induction m generalizing level k with
  | zero => cases h
  | succ m ih =>
    rw [digitCells, List.cons_append, List.lookup_cons]
    rcases List.mem_cons.1 h with h | h
    · cases h
      simp
    · obtain ⟨i, hi, rfl⟩ := level_of_mem_digitCells h
      have apart : (levelPath i == levelPath level) = false := by
        rw [beq_eq_false_iff_ne]
        intro same
        have := levelPath_injective same
        omega
      rw [apart]
      exact ih h

/-- Counting by a leading digit and the rest is counting. -/
theorem range_flatMap {α : Type} (f : ℕ → α) (a w : ℕ) :
    (List.range a).flatMap (fun d => (List.range w).map fun k => f (d * w + k)) =
      (List.range (a * w)).map f := by
  induction a with
  | zero => simp
  | succ a ih =>
    rw [List.range_succ, List.flatMap_append, ih, Nat.succ_mul, List.range_add, List.map_append]
    simp

/-- A level joined with the digits below it gives the digits from that level on. -/
theorem crossed_level (level a m : ℕ) (rest : List (List Cells))
    (h : crossed rest = (List.range (RowSource.sequenceLimit ^ m)).map
      (digitCells (level + 1) m)) :
    crossed (((List.range a).map fun d => [(levelPath level, Datum.number (d : ℕ))]) :: rest) =
      (List.range (a * RowSource.sequenceLimit ^ m)).map (digitCells level (m + 1)) := by
  rw [← range_flatMap, crossed, List.flatMap_map, h]
  apply List.flatMap_congr
  intro d _
  rw [List.map_map]
  apply List.map_congr_left
  intro k hk
  have pos : 0 < RowSource.sequenceLimit ^ m := Nat.pow_pos (by decide)
  rw [List.mem_range] at hk
  simp only [Function.comp_apply, digitCells, List.singleton_append]
  rw [Nat.mul_comm d, Nat.mul_add_div pos, Nat.mul_add_mod, Nat.div_eq_of_lt hk,
    Nat.mod_eq_of_lt hk, d.add_zero]

theorem cells_level {a : ℕ} (ha : 0 < a) (level : ℕ) (definitions : List Definition)
    (arrays : String → Datum) :
    (Source.level level 0 ((a : ℤ) - 1)).cells definitions arrays =
      (List.range a).map fun d => [(levelPath level, Datum.number (d : ℕ))] := by
  have many : ((a : ℤ) - 1 + 1 - 0).toNat = a := by omega
  have upward : (0 : ℤ) ≤ a - 1 := by omega
  simp only [Source.cells, entries, if_pos upward, many, List.map_map]
  apply List.map_congr_left
  intro d _
  simp

/-- Levels of full length count up to a power of their length. -/
theorem crossed_levels (definitions : List Definition) (arrays : String → Datum) (level m : ℕ) :
    crossed (((List.range' level m).map fun i =>
        Source.level i 0 ((RowSource.sequenceLimit : ℤ) - 1)).map
          (Source.cells definitions arrays)) =
      (List.range (RowSource.sequenceLimit ^ m)).map (digitCells level m) := by
  induction m generalizing level with
  | zero => rfl
  | succ m ih =>
    rw [List.range'_succ, List.map_cons, List.map_cons, cells_level (by decide), pow_succ,
      Nat.mul_comm]
    exact crossed_level level _ m _ (ih (level + 1))

end Sql

namespace RowSource

variable {R : Rules} {env : Env}

theorem levelTerm_denotes {levels level m : ℕ} {q : ℚ} (h : level + (m + 1) = levels)
    (digit : env.resolve (levelPath level) = some (.number q)) :
    Denotes R env (levelTerm levels level) (some (.number (q * (sequenceLimit ^ m : ℕ)))) := by
  have name : Denotes R env (levelName level) (some (.number q)) :=
    (Denotes.name (levelPath level)).congr digit
  have pos : 0 < sequenceLimit ^ m := Nat.pow_pos (by decide)
  simp only [levelTerm, levelWeight_eq h]
  split
  · exact Denotes.binary_some .mul name (nat_denotes _) (by simp [Rules.operate, Datum.arithmetic])
  · have one : sequenceLimit ^ m = 1 := by omega
    simpa [one] using name

/-- The terms of the levels add up to the number of which the levels are the digits. -/
theorem levelTerms_denote {k m level : ℕ} (levels : ℕ) (h : level + m = levels)
    (bound : m = 0 → k = 0)
    (digits : ∀ path v, (path, v) ∈ digitCells level m k → env.resolve path = some v) :
    ∃ qs : List ℚ, qs.sum = k ∧ List.Forall₂ (fun x q => Denotes R env x (some (.number q)))
      ((List.range' level m).map (levelTerm levels)) qs := by
  induction m generalizing level k with
  | zero => exact ⟨[], by simp [bound rfl], .nil⟩
  | succ m ih =>
    set w := sequenceLimit ^ m with hw
    have first := levelTerm_denotes (R := R) h (digits _ _ (List.mem_cons_self ..))
    obtain ⟨qs, sum, rest⟩ := ih (k := k % w) (by omega)
      (fun hm => by rw [hw, hm, pow_zero, Nat.mod_one])
      (fun path v hv => digits path v (List.mem_cons_of_mem _ hv))
    refine ⟨((k / w : ℕ) : ℚ) * w :: qs, ?_, ?_⟩
    · have whole : k / w * w + k % w = k := by rw [Nat.mul_comm, Nat.div_add_mod]
      rw [List.sum_cons, sum]
      exact_mod_cast whole
    · rw [List.range'_succ, List.map_cons]
      exact .cons first rest

theorem sum_denotes {first : Expr} {rest : List Expr} {q : ℚ} {qs : List ℚ}
    (hf : Denotes R env first (some (.number q)))
    (hr : List.Forall₂ (fun x q => Denotes R env x (some (.number q))) rest qs) :
    Denotes R env (Expr.chain .add first rest) (some (.number (q + qs.sum))) := by
  induction hr generalizing first q with
  | nil => simpa [Expr.chain] using hf
  | @cons x p rest qs hx _ ih =>
    have next : Denotes R env (.binary .add first x) (some (.number (q + p))) :=
      Denotes.binary_some .add hf hx rfl
    have := ih next
    rw [List.sum_cons, ← add_assoc]
    exact this

/-- The ordinal of a row is the number of its digits plus one. -/
theorem levelOrdinal_denotes {m k : ℕ}
    (digits : ∀ path v, (path, v) ∈ digitCells 0 (m + 1) k → env.resolve path = some v) :
    Denotes R env (levelOrdinal (m + 1)) (some (.number (k + 1))) := by
  obtain ⟨qs, sum, terms⟩ := levelTerms_denote (R := R) (m + 1) (by omega) (by omega)
    digits
  rw [List.range'_succ, List.map_cons, List.forall₂_cons_left_iff] at terms
  obtain ⟨q, rest, first, others, rfl⟩ := terms
  have inner : (List.range (m + 1 - 1)).map (fun k => levelTerm (m + 1) (k + 1)) =
      (List.range' (0 + 1) m).map (levelTerm (m + 1)) := by
    rw [Nat.add_sub_cancel, List.range'_eq_map_range, List.map_map]
    apply List.map_congr_left
    intro k _
    simp [Nat.add_comm]
  rw [levelOrdinal, inner]
  refine .paren (Denotes.binary_some .add (sum_denotes first others) (nat_denotes 1) ?_)
  rw [List.sum_cons] at sum
  simp [Rules.operate, Datum.arithmetic, sum]

theorem level_counts {n : ℕ} (hn : 0 < n) (origin : ℤ) : Sql.RowSource.Counts
    { sources := [.level 0 1 n], row := shiftedRow (levelName 0) origin } n origin := by
  apply RowSource.counts_of_single (levelPath 0) 0
  · intro more arrays
    have upward : (1 : ℤ) ≤ n := by omega
    simp [Source.cells, entries, ordinals, upward]
  · intro R env k named
    refine (RowSource.shiftedRow_denotes ((Denotes.name _).congr named) origin).congr ?_
    push_cast
    ring_nf

/-- Levels count all their rows, less the rows beyond the last one. -/
theorem levels_count {n a : ℕ} (ha : 0 < a) (m : ℕ) (origin : ℤ) : Sql.RowSource.Counts
    { sources := .level 0 0 (a - 1) ::
        (List.range' 1 m).map fun level => .level level 0 (sequenceLimit - 1)
      row := shiftedRow (levelOrdinal (m + 1)) origin
      condition := some (.binary .atMost (levelOrdinal (m + 1)) (.int n)) }
    (min n (a * sequenceLimit ^ m)) origin := by
  refine ⟨a * sequenceLimit ^ m, digitCells 0 (m + 1), min_le_right _ _, fun h => by simp at h,
    ?_, ?_⟩
  · intro definitions arrays
    rw [List.map_cons, cells_level ha]
    exact crossed_level 0 _ _ _ (crossed_levels _ _ 1 m)
  · intro R env k others below resolved
    have ordinal : Denotes R env (levelOrdinal (m + 1)) (some (.number (k + 1))) := by
      apply levelOrdinal_denotes
      intro path v hv
      rw [resolved, lookup_digitCells others hv]
    constructor
    · rintro c hc
      cases hc
      refine Denotes.binary_some .atMost ordinal (.literal (.int n)) ?_
      have kept : ((k : ℚ) + 1 ≤ n) ↔ k < min n (a * sequenceLimit ^ m) := by
        rw [lt_min_iff, and_iff_left below]
        exact_mod_cast Iff.rfl
      simp [Rules.operate, Datum.arithmetic, Literal.datum, kept, -lt_inf_iff]
    · refine (RowSource.shiftedRow_denotes ordinal origin).congr ?_
      push_cast
      ring_nf

/-- One level is enough, or several are crossed. -/
theorem trino_counts {n : ℕ} (hn : 0 < n) (bound : n ≤ 10 ^ 16) (origin : ℤ) :
    ∃ source, trino n origin = .ok source ∧ source.Counts n origin ∧ source.Bounded := by
  unfold trino
  by_cases few : n ≤ sequenceLimit
  · rw [if_pos (by exact_mod_cast few)]
    refine ⟨_, rfl, level_counts hn origin, ?_⟩
    intro s hs
    rw [List.mem_singleton] at hs
    refine ⟨0, 1, n, hs, ?_⟩
    rw [entries_length (by omega)]
    omega
  · obtain ⟨m, count, small⟩ := levelCount_of_le (not_le.1 few) bound
    have covers := levelCount_covers n
    rw [count] at covers
    have pos := outermost_pos (m := m + 1) hn
    have top := outermost_le covers
    rw [if_neg (by exact_mod_cast few)]
    simp only [Int.toNat_natCast, count, levelSources hn (m := m + 1) (by omega) covers]
    have counts := levels_count (n := n) pos (m + 1) origin
    rw [min_eq_left (outermost_covers n (m + 1))] at counts
    refine ⟨_, rfl, counts, ?_⟩
    intro s hs
    rcases List.mem_cons.1 hs with rfl | hs
    · refine ⟨_, _, _, rfl, ?_⟩
      rw [entries_length (by omega)]
      omega
    · obtain ⟨level, _, rfl⟩ := List.mem_map.1 hs
      refine ⟨_, _, _, rfl, ?_⟩
      rw [entries_length (by decide)]
      decide

/-- Levels count all their rows, whatever the rounded quotient makes of the outermost one. -/
theorem counts_of_levels {n m a : ℕ} (hn : sequenceLimit < n) (count : levelCount n = m + 1)
    (quotient : Double.ceilQuotient? n (sequenceLimit ^ m) = some (a : ℤ)) (ha : 0 < a)
    {origin : ℤ} {source : Sql.RowSource} (h : trino n origin = .ok source) :
    source.Counts (min n (a * sequenceLimit ^ m)) origin := by
  unfold trino at h
  rw [if_neg (by exact_mod_cast not_le.2 hn), Int.toNat_natCast, count] at h
  obtain ⟨sources, hsources, h⟩ := except_ok_of_bind h
  cases h
  obtain ⟨a', quotient', rfl⟩ := sources_of_levels hsources
  cases quotient.symm.trans quotient'
  exact levels_count ha m origin

/-- Beyond `10 ^ 16` rows the rounded quotient can leave some of the last rows out. -/
theorem exists_counts_of_trino {n : ℕ} (hn : 0 < n) {origin : ℤ} {source : Sql.RowSource}
    (h : trino n origin = .ok source) : ∃ m ≤ n, source.Counts m origin := by
  by_cases few : n ≤ sequenceLimit
  · unfold trino at h
    rw [if_pos (by exact_mod_cast few)] at h
    cases h
    exact ⟨n, le_rfl, level_counts hn origin⟩
  · obtain ⟨m, count, least⟩ := levelCount_least (not_le.1 few)
    have made := h
    unfold trino at h
    rw [if_neg (by exact_mod_cast few), Int.toNat_natCast, count] at h
    obtain ⟨sources, hsources, _⟩ := except_ok_of_bind h
    obtain ⟨a, quotient, _⟩ := sources_of_levels hsources
    have pos := Double.one_le_ceilQuotient? (Nat.pow_pos (by decide)) least.le quotient
    obtain ⟨a, rfl⟩ := Int.eq_ofNat_of_zero_le (show 0 ≤ a by omega)
    exact ⟨_, min_le_left _ _, counts_of_levels (not_le.1 few) count quotient (by omega) made⟩

end RowSource
end SyntheticRows
