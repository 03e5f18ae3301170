import SyntheticRows.Proofs.Meaning.Level

/-!
# Row sources count alike

Every engine has its own way of counting, and all of them give one row for each ordinal of a chunk,
as long as the number that the ordinals are moved up by can be written at all. Asked for no rows, or
for more than four levels of sequences hold, a source can give another number of rows.
-/
namespace SyntheticRows
open Sql

namespace Sql.RowSource

/-- The rows that the source gives have the ordinals after `origin`, each ordinal once. -/
def Enumerates (source : RowSource) (n : ℕ) (origin : ℤ) : Prop :=
  ∀ w : Scene, List.Forall₂
    (fun cells i => Denotes w.rules (w.env cells) source.row (some (.number (i : ℤ))))
    (w.rows source.definitions source.sources source.condition) (ordinals origin n)

end Sql.RowSource

namespace RowSource

variable {e : Engine} {n : ℕ} {origin : ℤ}

theorem series_counts : Sql.RowSource.Counts
    { sources := [.series n], row := shiftedRow (.name [.bare "g", .bare "n"]) origin }
    n origin := by
  apply RowSource.counts_of_single [.bare "g", .bare "n"] 0
  · intro more arrays
    rfl
  · intro R env k named
    refine (RowSource.shiftedRow_denotes ((Denotes.name _).congr named) origin).congr ?_
    push_cast
    ring_nf

theorem numbers_counts : Sql.RowSource.Counts
    { sources := [.numbers n]
      row := .paren (.add (.call "toInt64" [.bare "number"]) (.int (origin + 1))) } n origin := by
  apply RowSource.counts_of_single [.bare "number"] (-1)
  · intro more arrays
    rfl
  · intro R env k named
    have number : Denotes R env (.bare "number") (some (.number (k : ℕ))) :=
      (Denotes.name _).congr (named.trans (by simp))
    have whole : Denotes R env (.call "toInt64" [.bare "number"]) (some (.number (k : ℕ))) := by
      refine (Denotes.call₁ rfl number).congr ?_
      simp [Rules.apply, truncated]
    refine .paren (Denotes.binary_some .add whole (.literal (.int (origin + 1))) ?_)
    simp [Rules.operate, Datum.arithmetic, Literal.datum]
    ring

theorem counter_counts (hn : 0 < n) : Sql.RowSource.Counts
    { definitions := [.counter n], sources := [.counter]
      row := shiftedRow (.name [.bare "seq", .bare "n"]) origin } n origin := by
  apply RowSource.counts_of_single [.bare "seq", .bare "n"] 0
  · intro more arrays
    obtain ⟨m, rfl⟩ := Nat.exists_eq_succ_of_ne_zero hn.ne'
    have limit : ((m.succ : ℕ) : ℤ) = 1 + m := by omega
    have counted := countFrom_eq m 1
    simp only [Source.cells, List.singleton_append, List.findSome?_cons, Definition.limit?]
    rw [limit, counted]
    rfl
  · intro R env k named
    refine (RowSource.shiftedRow_denotes ((Denotes.name _).congr named) origin).congr ?_
    push_cast
    ring_nf

/-- What is written makes a source, and the source counts. -/
theorem make_of_writable (hn : 0 < n) (bound : n ≤ 10 ^ 16)
    (written : writable [.int n, .int (offset e origin)] = .ok ()) :
    ∃ source, make (.of e) n origin = .ok source ∧ source.Counts n origin ∧
      (e = .trino → source.Bounded) := by
  simp only [make, Dialect.engine, bind, Except.bind, written]
  cases e with
  | postgresql => exact ⟨_, rfl, series_counts, nofun⟩
  | clickhouse => exact ⟨_, rfl, numbers_counts, nofun⟩
  | sqlite => exact ⟨_, rfl, counter_counts hn, nofun⟩
  | trino =>
    obtain ⟨source, made, counts, bounded⟩ := trino_counts hn bound origin
    exact ⟨source, made, counts, fun _ => bounded⟩

/-- No source is made of numbers that cannot be written. -/
theorem written_of_make {source : Sql.RowSource} (h : make (.of e) n origin = .ok source) :
    writable [.int n, .int (offset e origin)] = .ok () := by
  obtain ⟨_, he, rest⟩ := except_ok_of_bind h
  cases he
  obtain ⟨_, written, _⟩ := except_ok_of_bind rest
  exact written

theorem counts_of_make (hn : 0 < n) (bound : n ≤ 10 ^ 16) {source : Sql.RowSource}
    (h : make (.of e) n origin = .ok source) : source.Counts n origin := by
  obtain ⟨made, hm, counts, _⟩ := make_of_writable hn bound (written_of_make h)
  cases hm.symm.trans h
  exact counts

/-- The engine counts a chunk of so many rows to its end. -/
def IsCountable (e : Engine) (n : ℕ) : Prop := e = .trino → n ≤ 10 ^ 16

/-- A chunk of any size counts from its first row on, and never beyond its last one. -/
theorem exists_counts (hn : 0 < n) {source : Sql.RowSource}
    (h : make (.of e) n origin = .ok source) :
    ∃ m ≤ n, source.Counts m origin ∧ (IsCountable e n → m = n) := by
  obtain ⟨_, he, rest⟩ := except_ok_of_bind h
  cases he
  obtain ⟨_, _, made⟩ := except_ok_of_bind rest
  cases e with
  | postgresql =>
    cases made
    exact ⟨n, le_rfl, series_counts, fun _ => rfl⟩
  | clickhouse =>
    cases made
    exact ⟨n, le_rfl, numbers_counts, fun _ => rfl⟩
  | sqlite =>
    cases made
    exact ⟨n, le_rfl, counter_counts hn, fun _ => rfl⟩
  | trino =>
    by_cases bound : n ≤ 10 ^ 16
    · exact ⟨n, le_rfl, counts_of_make hn bound h, fun _ => rfl⟩
    · obtain ⟨m, most, counts⟩ := exists_counts_of_trino hn made
      exact ⟨m, most, counts, fun countable => (bound (countable rfl)).elim⟩

/-- A chunk of rows has a source, which numbers its rows, and no sequence in it is too long. -/
def Numbers (e : Engine) (n : ℕ) (origin : ℤ) : Prop :=
  ∃ source, make (.of e) n origin = .ok source ∧ source.Enumerates n origin ∧
    (e = .trino → source.Bounded)

end RowSource

namespace Sql

theorem length_countFrom (limit : ℤ) : (countFrom limit 1).length = max 1 limit.toNat := by
  rcases lt_or_ge limit 1 with none | some
  · have alone : ¬1 < limit := by omega
    rw [countFrom, if_neg alone, List.length_singleton]
    omega
  · obtain ⟨n, hn⟩ := Int.eq_ofNat_of_zero_le (show 0 ≤ limit - 1 by omega)
    obtain rfl : limit = 1 + (n : ℤ) := by omega
    rw [countFrom_eq, ordinals, List.length_map, List.length_range]
    omega

/-- A sequence from one to a number below it goes down. -/
theorem length_entries_one (last : ℤ) :
    (entries 1 last).length = if last ≤ 0 then (2 - last).toNat else last.toNat := by
  by_cases down : last ≤ 0
  · have falling : ¬1 ≤ last := by omega
    rw [entries, if_neg falling, if_pos down, List.length_map, List.length_range]
    rfl
  · rw [entries_length (by omega), if_neg down]
    omega

/-- Joining with sources of one row each leaves the number of rows as it is. -/
theorem length_crossed_lookups (rows : List (List Cells)) (definitions : List Definition)
    (arrays : String → Datum) (names : List String) :
    (crossed (rows ++ (names.map Source.lookup).map (Source.cells definitions arrays))).length =
      (crossed rows).length := by
  have one : crossed ((names.map Source.lookup).map (Source.cells definitions arrays)) =
      [(names.map fun name => [([.bare name, .bare "arr"], arrays name)]).flatten] := by
    rw [← crossed_singletons, List.map_map, List.map_map]
    rfl
  rw [crossed_append, one]
  simp [List.length_flatMap]

end Sql

namespace Scene

variable (w : Scene)

/-- Without a condition, one source gives its own rows, also when it is joined with lists. -/
theorem length_rows_of_single (definitions : List Definition) (source : Source)
    (names : List String) :
    (w.rows definitions ([source] ++ names.map Source.lookup) none).length =
      (source.cells definitions w.arrays).length := by
  have all : ∀ cells, w.Keeps none cells := nofun
  simp only [rows, all, decide_true, List.filter_true]
  rw [List.map_append, length_crossed_lookups]
  simp [crossed]

end Scene

namespace RowSource

variable {e : Engine} {count origin : ℤ} {source : Sql.RowSource}

/-- How many rows the levels of sequences give: no more than the rounded quotient leaves them. -/
def levelsHeight (n : ℕ) : ℕ :=
  let inner := sequenceLimit ^ (levelCount n - 1)
  min n (((Double.ceilQuotient? n inner).getD 0).toNat * inner)

/-- How many rows a source gives that is asked for a count. SQLite's counter always has its first
row, and a sequence from one goes down to a count below it. -/
def height (e : Engine) (count : ℤ) : ℕ :=
  match e with
  | .postgresql | .clickhouse => count.toNat
  | .sqlite => max 1 count.toNat
  | .trino =>
    if count ≤ 0 then (2 - count).toNat
    else if count ≤ sequenceLimit then count.toNat
    else levelsHeight count.toNat

/-- The engine gives as many rows as it is asked for. -/
def Attains (e : Engine) (count : ℤ) : Prop :=
  match e with
  | .postgresql | .clickhouse => 0 ≤ count
  | .sqlite => 1 ≤ count
  | .trino => 1 ≤ count ∧ count ≤ 10 ^ 16

theorem levelsHeight_eq {n : ℕ} (hn : sequenceLimit < n) (bound : n ≤ 10 ^ 16) :
    levelsHeight n = n := by
  obtain ⟨m, levels, small⟩ := levelCount_of_le hn bound
  have covers := levelCount_covers n
  rw [levels] at covers
  have quotient := quotient_outermost (by omega) (show m + 1 ≤ 3 by omega) covers
  have inner : levelCount n - 1 = m + 1 := by omega
  simp only [levelsHeight, inner, quotient, Option.getD_some, Int.toNat_natCast]
  exact min_eq_left (outermost_covers n (m + 1))

theorem height_eq (h : Attains e count) : (height e count : ℤ) = count := by
  cases e with
  | postgresql | clickhouse => exact Int.toNat_of_nonneg h
  | sqlite =>
    have positive : 1 ≤ count := h
    simp only [height]
    omega
  | trino =>
    obtain ⟨positive, bound⟩ := h
    simp only [height]
    rw [if_neg (by omega)]
    split
    · omega
    · next many =>
      rw [levelsHeight_eq (by omega) (by omega)]
      omega

/-- The levels of sequences keep as many rows as they give. -/
theorem length_rows_of_levels (many : sequenceLimit < count)
    (h : trino count origin = .ok source) (w : Scene) (definitions : List Definition)
    (names : List String) :
    (w.rows (source.definitions ++ definitions) (source.sources ++ names.map Source.lookup)
      source.condition).length = levelsHeight count.toNat := by
  obtain ⟨n, rfl⟩ := Int.eq_ofNat_of_zero_le (show 0 ≤ count by omega)
  have above : sequenceLimit < n := by exact_mod_cast many
  obtain ⟨m, levels, least⟩ := levelCount_least above
  have made := h
  unfold trino at h
  rw [if_neg (not_le.2 many), Int.toNat_natCast, levels] at h
  obtain ⟨sources, hsources, _⟩ := except_ok_of_bind h
  obtain ⟨a, quotient, _⟩ := sources_of_levels hsources
  have positive := Double.one_le_ceilQuotient? (Nat.pow_pos (by decide)) least.le quotient
  obtain ⟨a, rfl⟩ := Int.eq_ofNat_of_zero_le (show 0 ≤ a by omega)
  have counts := counts_of_levels above levels quotient (by omega) made
  obtain ⟨cells, hcells⟩ := counts.exists_cells w.arrays definitions names
  rw [(hcells w rfl).1, List.length_map, List.length_range]
  have inner : levelCount n - 1 = m + 1 := by omega
  simp only [levelsHeight, inner, quotient, Int.toNat_natCast, Option.getD_some]

/-- A source gives as many rows as its height, whatever is drawn for them and whatever lists they
are joined with. -/
theorem length_rows_of_make (h : make (.of e) count origin = .ok source) (w : Scene)
    (definitions : List Definition) (names : List String) :
    (w.rows (source.definitions ++ definitions) (source.sources ++ names.map Source.lookup)
      source.condition).length = height e count := by
  obtain ⟨_, engine, h⟩ := except_ok_of_bind h
  cases engine
  obtain ⟨_, _, h⟩ := except_ok_of_bind h
  cases e with
  | postgresql | clickhouse =>
    obtain rfl := Except.ok.inj h
    rw [Scene.length_rows_of_single]
    simp [Source.cells, ordinals, height]
  | sqlite =>
    obtain rfl := Except.ok.inj h
    rw [Scene.length_rows_of_single]
    simp [Source.cells, Definition.limit?, List.findSome?_cons, length_countFrom, height]
  | trino =>
    by_cases few : count ≤ sequenceLimit
    · simp only [trino, if_pos few] at h
      obtain rfl := Except.ok.inj h
      rw [Scene.length_rows_of_single]
      simp [Source.cells, length_entries_one, height, few]
    · rw [length_rows_of_levels (not_le.1 few) h, height, if_neg (by omega), if_neg few]

/-- No rows at all make a row on SQLite and two on Trino, whose sequence goes from one to zero. -/
example : height .sqlite 0 = 1 ∧ height .trino 0 = 2 := by decide

end RowSource
end SyntheticRows
