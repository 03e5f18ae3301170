import Mathlib.Data.List.Intervals
import SyntheticRows.Proofs.Meaning.Mutation
import SyntheticRows.Sql.Statement

/-!
# Sources

The rows that a statement reads: those of its sources, joined with one another, as far as its
condition keeps them. Whole numbers are exact here, as everywhere in these modules.
-/
namespace SyntheticRows
open Sql

/-- The contents of a row by the paths that name them; the first entry of a path counts. -/
abbrev Cells := List (Path × Datum)

/-- The ordinals of `n` rows after `origin`. -/
def ordinals (origin : ℤ) (n : ℕ) : List ℤ := (List.range n).map fun k : ℕ => origin + 1 + k

/-- The ordinals of two chunks, one after the other. -/
theorem ordinals_add (origin : ℤ) (m n : ℕ) :
    ordinals origin (m + n) = ordinals origin m ++ ordinals (origin + m) n := by
  simp only [ordinals, List.range_add, List.map_append, List.map_map]
  congr 1
  apply List.map_congr_left
  intro k _
  simp only [Function.comp_apply]
  push_cast
  ring

theorem ordinals_succ (origin : ℤ) (n : ℕ) :
    ordinals origin (n + 1) = (origin + 1) :: ordinals (origin + 1) n := by
  rw [Nat.add_comm, ordinals_add]
  simp [ordinals]

namespace Sql

/-- The entries of a sequence, which goes down if its first entry is the greater one. -/
def entries (first last : ℤ) : List ℤ :=
  if first ≤ last then (List.range (last + 1 - first).toNat).map fun k : ℕ => first + k
  else (List.range (first + 1 - last).toNat).map fun k : ℕ => first - k

theorem entries_length {first last : ℤ} (h : first ≤ last) :
    (entries first last).length = (last + 1 - first).toNat := by
  simp [entries, h]

/-- What a recursive counter adds to its rows from one of them on: the row after it, while the
limit is not reached. -/
def countFrom (limit n : ℤ) : List ℤ :=
  n :: if n < limit then countFrom limit (n + 1) else []
termination_by (limit - n).toNat

theorem countFrom_eq (n : ℕ) (i : ℤ) : countFrom (i + n) i = ordinals (i - 1) (n + 1) := by
  induction n generalizing i with
  | zero =>
    rw [countFrom]
    simp [ordinals]
  | succ n ih =>
    have below : i < i + (n + 1 : ℕ) := by omega
    have shift : i + ((n + 1 : ℕ) : ℤ) = i + 1 + n := by push_cast; ring
    rw [countFrom, if_pos below, shift, ih, ordinals_succ (i - 1)]
    simp

def Definition.limit? : Definition → Option ℤ
  | .counter limit => some limit
  | _ => none

def levelPath (level : ℕ) : Path := [.bare ("_g" ++ toString level), .bare "n"]

/-- The rows of a source. The definitions of the statement tell a counter its limit, and `arrays`
what the lookup lists hold. -/
def Source.cells (definitions : List Definition) (arrays : String → Datum) : Source → List Cells
  | .series count =>
    (ordinals 0 count.toNat).map fun i : ℤ => [([.bare "g", .bare "n"], .number i)]
  | .numbers count =>
    (ordinals (-1) count.toNat).map fun i : ℤ => [([.bare "number"], .number i)]
  | .counter =>
    match definitions.findSome? Definition.limit? with
    | some limit => (countFrom limit 1).map fun i : ℤ => [([.bare "seq", .bare "n"], .number i)]
    | none => []
  | .level number first last =>
    (entries first last).map fun i : ℤ => [(levelPath number, .number i)]
  | .lookup name => [[([.bare name, .bare "arr"], arrays name)]]

/-- Each row of the first with each row of the others. -/
def crossed : List (List Cells) → List Cells
  | [] => [[]]
  | rows :: rest => rows.flatMap fun row => (crossed rest).map (row ++ ·)

theorem crossed_append (rows others : List (List Cells)) :
    crossed (rows ++ others) =
      (crossed rows).flatMap fun row => (crossed others).map (row ++ ·) := by
  induction rows with
  | nil => simp [crossed]
  | cons first rows ih =>
    simp only [List.cons_append, crossed, ih, List.flatMap_assoc, List.flatMap_map,
      List.map_flatMap, List.map_map]
    simp [Function.comp_def]

/-- Sources of one row each make one row. -/
theorem crossed_singletons (rows : List Cells) :
    crossed (rows.map fun row => [row]) = [rows.flatten] := by
  induction rows with
  | nil => rfl
  | cons row rows ih => simp [crossed, ih]

end Sql

/-- What a statement is computed from besides its text: the rules, the tables, the lists that it
looks values up in, and ClickHouse's draws, for each row one number for each tag. -/
structure Scene where
  rules : Rules
  tables : Store
  arrays : String → Datum
  rand : Cells → ℤ → ℕ

namespace Scene

variable (w : Scene)

/-- What the expressions of a row can refer to. -/
def env (cells : Cells) : Env := ⟨fun path => cells.lookup path, w.tables, w.rand cells⟩

/-- The condition is true for the row, if there is one. -/
def Keeps (condition : Option Expr) (cells : Cells) : Prop :=
  ∀ c ∈ condition, Yields w.rules (w.env cells) c (.bool true)

open scoped Classical in
/-- The rows that a statement reads from its sources. -/
noncomputable def rows (definitions : List Definition) (sources : List Source)
    (condition : Option Expr) : List Cells :=
  (crossed (sources.map (Source.cells definitions w.arrays))).filter fun cells =>
    decide (w.Keeps condition cells)

/-- The condition keeps the first of the rows. -/
theorem filter_range {condition : Option Expr} {n total : ℕ} {cells : ℕ → Cells}
    [DecidablePred (w.Keeps condition)] (least : n ≤ total)
    (h : ∀ k < total, w.Keeps condition (cells k) ↔ k < n) :
    ((List.range total).map cells).filter (fun row => decide (w.Keeps condition row)) =
      (List.range n).map cells := by
  rw [List.filter_map]
  congr 1
  calc (List.range total).filter ((fun row => decide (w.Keeps condition row)) ∘ cells)
      = (List.range total).filter fun k => decide (k < n) := by
        apply List.filter_congr
        intro k hk
        simp only [Function.comp_apply, h k (List.mem_range.1 hk)]
    _ = List.range n := by
        rw [← List.Ico.zero_bot, List.Ico.filter_lt, min_eq_right least, List.Ico.zero_bot]

end Scene

namespace Sql.RowSource

/-- The source counts: joined with sources of one row each it gives rows numbered from zero, of
which the condition keeps the first `n`, and the ordinals of these run on from `origin`. -/
def Counts (source : RowSource) (n : ℕ) (origin : ℤ) : Prop :=
  ∃ (total : ℕ) (cells : ℕ → Cells), n ≤ total ∧ (source.condition = none → n = total) ∧
    (∀ definitions arrays,
      crossed (source.sources.map (Source.cells (source.definitions ++ definitions) arrays)) =
        (List.range total).map cells) ∧
    ∀ (R : Rules) (env : Env) (k : ℕ) (others : Cells), k < total →
      (∀ path, env.resolve path = (cells k ++ others).lookup path) →
      (∀ c ∈ source.condition, Denotes R env c (some (.bool (decide (k < n))))) ∧
        Denotes R env source.row (some (.number ((origin + 1 + k : ℤ) : ℚ)))

/-- Every level of sequences has at least one entry and no more than Trino allows. -/
def Bounded (source : RowSource) : Prop :=
  ∀ s ∈ source.sources, ∃ level first last, s = .level level first last ∧
    1 ≤ (entries first last).length ∧
      (entries first last).length ≤ SyntheticRows.RowSource.sequenceLimit

/-- The rows that are kept, whatever is drawn for them, and their ordinals. -/
theorem Counts.exists_cells {source : RowSource} {n : ℕ} {origin : ℤ} (h : source.Counts n origin)
    (arrays : String → Datum) (definitions : List Definition) (names : List String) :
    ∃ cells : ℕ → Cells, ∀ w : Scene, w.arrays = arrays →
      w.rows (source.definitions ++ definitions) (source.sources ++ names.map Source.lookup)
        source.condition = (List.range n).map cells ∧
      ∀ k < n, Denotes w.rules (w.env (cells k)) source.row
        (some (.number ((origin + 1 + k : ℤ) : ℚ))) := by
  obtain ⟨total, cells, least, all, joined, means⟩ := h
  set others : Cells := (names.map fun name => [([.bare name, .bare "arr"], arrays name)]).flatten
    with ho
  refine ⟨fun k => cells k ++ others, ?_⟩
  rintro w rfl
  have lists : crossed ((names.map Source.lookup).map
      (Source.cells (source.definitions ++ definitions) w.arrays)) = [others] := by
    rw [ho, ← crossed_singletons, List.map_map, List.map_map]
    rfl
  have crossing : crossed ((source.sources ++ names.map Source.lookup).map
      (Source.cells (source.definitions ++ definitions) w.arrays)) =
        (List.range total).map fun k => cells k ++ others := by
    rw [List.map_append, crossed_append, joined, lists]
    simp only [List.map_cons, List.map_nil]
    rw [List.flatMap_map, List.map_eq_flatMap]
  have meaning (k : ℕ) (hk : k < total) :=
    means w.rules (w.env (cells k ++ others)) k others hk fun _ => rfl
  refine ⟨?_, fun k hk => (meaning k (by omega)).2⟩
  classical
  rw [Scene.rows, crossing]
  convert w.filter_range least fun k hk => ?_
  constructor
  · intro passes
    cases hc : source.condition with
    | none => exact all hc ▸ hk
    | some c =>
      have known := ((meaning k hk).1 c (by simp [hc]) _).1 (passes c (by simp [hc]))
      simpa using known
  · intro below c hc
    rw [(meaning k hk).1 c hc, decide_eq_true below]

/-- The rows that are kept have the ordinals after the origin, each of them once. -/
theorem Counts.rows {source : RowSource} {n : ℕ} {origin : ℤ} (h : source.Counts n origin)
    (w : Scene) (definitions : List Definition) (names : List String) :
    List.Forall₂
      (fun cells i => Denotes w.rules (w.env cells) source.row (some (.number (i : ℤ))))
      (w.rows (source.definitions ++ definitions) (source.sources ++ names.map Source.lookup)
        source.condition)
      (ordinals origin n) := by
  obtain ⟨cells, hcells⟩ := h.exists_cells w.arrays definitions names
  obtain ⟨rows, means⟩ := hcells w rfl
  rw [rows, ordinals, List.forall₂_map_left_iff, List.forall₂_map_right_iff, List.forall₂_same]
  intro k hk
  exact means k (List.mem_range.1 hk)

variable {R : Rules} {env : Env}

theorem shiftedRow_denotes {row : Expr} {q : ℚ} (h : Denotes R env row (some (.number q)))
    (origin : ℤ) : Denotes R env (shiftedRow row origin) (some (.number (q + origin))) := by
  unfold shiftedRow
  split
  · next ho => exact h.congr (by simp [ho])
  · exact .paren (Denotes.binary_some .add h (.literal (.int origin))
      (by simp [Rules.operate, Datum.arithmetic, Literal.datum]))

/-- A source without condition, of which each row names one number. -/
theorem counts_of_single {source : Source} {definitions : List Definition} {row : Expr}
    {origin : ℤ} {n : ℕ} (path : Path) (first : ℤ)
    (rows : ∀ more arrays, source.cells (definitions ++ more) arrays =
      (ordinals first n).map fun i : ℤ => [(path, .number i)])
    (means : ∀ R env (k : ℕ), env.resolve path = some (.number ((first + 1 + k : ℤ) : ℚ)) →
      Denotes R env row (some (.number ((origin + 1 + k : ℤ) : ℚ)))) :
    Counts { definitions, sources := [source], row } n origin := by
  refine ⟨n, fun k => [(path, .number ((first + 1 + k : ℤ) : ℚ))], le_rfl, fun _ => rfl, ?_, ?_⟩
  · intro more arrays
    simp [crossed, rows, ordinals]
  · intro R env k others _ resolved
    refine ⟨by simp, means R env k ?_⟩
    rw [resolved]
    simp

end Sql.RowSource
end SyntheticRows
