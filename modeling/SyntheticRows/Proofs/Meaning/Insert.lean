import SyntheticRows.Proofs.Compile.Chunk
import SyntheticRows.Proofs.Meaning.RowSource
import SyntheticRows.Proofs.Meaning.SequenceColumn

/-!
# Inserts

The rows of an insert have the ordinals of its chunk, and what it puts into a sequence column goes
by these alone. So it does not matter which of the ordinals are in one chunk.
-/
namespace SyntheticRows
open Sql

/-- The rows that an insert reads. -/
noncomputable def Sql.Insert.rows (i : Insert) (w : Scene) : List Cells :=
  w.rows i.definitions i.sources i.condition

/-- The contents that the insert can put into the column at a place, row by row. ClickHouse draws
anew for each statement. -/
def Sql.Insert.CanStore (i : Insert) (w : Scene) (convert : Conversion) (place : ℕ)
    (vs : List Datum) : Prop :=
  ∃ x rand, i.values[place]? = some x ∧ (∀ cells tag, rand cells tag < 2 ^ 32) ∧
    List.Forall₂ (fun cells v => Stores w.rules convert ({ w with rand }.env cells) x v)
      (i.rows { w with rand }) vs

namespace Target

variable {t : Target} {now : ℤ} {table : Table} {n : ℕ} {origin : ℤ} {i : Insert}

/-- An insert reads its source of rows, and lookup lists of one row besides. -/
structure Inserts (t : Target) (now : ℤ) (table : Table) (source : RowSource) (i : Insert) :
    Prop where
  values : List.Forall₂
    (fun c x => c.1.expression t.dialect now source.row (c.2 + 1) = .ok x)
    table.columns.zipIdx i.values
  condition : i.condition = source.condition
  reads : ∃ (definitions : List Definition) (names : List String),
    i.definitions = source.definitions ++ definitions ∧
      i.sources = source.sources ++ names.map Source.lookup

theorem inserts_of_insertRows {st : Statement} (h : t.insertRows now table n origin = .ok st) :
    ∃ i source, st = .insert i ∧ RowSource.make t.dialect n origin = .ok source ∧
      t.Inserts now table source i := by
  obtain ⟨i, source, _, lists, rfl, made, _, _, _, values, _, definitions, sources, condition⟩ :=
    parts_of_insertRows h
  refine ⟨i, source, rfl, made, values, condition, lists, ?_⟩
  unfold insertSources at sources
  split at sources
  · exact ⟨[], definitions, by simpa using sources⟩
  · exact ⟨_, definitions, sources⟩

/-- An insert names its table and the columns of it. -/
theorem names_of_insertRows (h : t.insertRows now table n origin = .ok (.insert i)) :
    t.tableRef table.name = .ok i.table ∧
      List.Forall₂ (fun c ident => t.ident c.name = .ok ident) table.columns i.columns := by
  obtain ⟨_, _, _, _, ⟨⟩, _, _, _, columns, _, path, _⟩ := parts_of_insertRows h
  exact ⟨path, columns⟩

/-- The rows of the insert, whatever is drawn for them, and their ordinals. -/
theorem Inserts.exists_cells {source : RowSource} (h : t.Inserts now table source i)
    (counts : source.Counts n origin) (arrays : String → Datum) :
    ∃ cells : ℕ → Cells, ∀ w : Scene, w.arrays = arrays → i.rows w = (List.range n).map cells ∧
      ∀ k < n, Denotes w.rules (w.env (cells k)) source.row
        (some (.number ((origin + 1 + k : ℤ) : ℚ))) := by
  obtain ⟨definitions, names, hd, hs⟩ := h.reads
  obtain ⟨cells, hcells⟩ := counts.exists_cells arrays definitions names
  refine ⟨cells, fun w hw => ?_⟩
  rw [Insert.rows, hd, hs, h.condition]
  exact hcells w hw

theorem Inserts.compiled {source : RowSource} (h : t.Inserts now table source i) {e : Engine}
    (he : t.dialect = .of e) {place : ℕ} {c : Column} {s : Sequence}
    (hc : table.columns[place]? = some c) (hg : c.generator = .sequence s) :
    ∃ x, i.values[place]? = some x ∧
      Column.Compiled e c s source.row (((place : ℤ) + 1) * 1000 + 1) x := by
  have placed : table.columns.zipIdx[place]? = some (c, place) := by
    simp [List.getElem?_zipIdx, hc]
  obtain ⟨x, hx, compiled⟩ := partner_at h.values placed
  rw [he] at compiled
  exact ⟨x, hx, Column.compiled_of_expression hg compiled⟩

/-- Any draws are those of some scene, as long as no row comes twice. -/
theorem exists_rand (e : Engine) {cells : ℕ → Cells} {n : ℕ}
    (distinct : ∀ j < n, ∀ k < n, cells j = cells k → j = k) {q : ℕ → ℚ}
    (drawn : ∀ k < n, e.IsDraw (q k)) :
    ∃ rand : Cells → ℤ → ℕ, (∀ row tag, rand row tag < 2 ^ 32) ∧
      ∀ (w : Scene) (tag : ℤ), ∀ k < n,
        e.Drawn ({ w with rand }.env (cells k)) tag (q k) := by
  by_cases he : e = .clickhouse
  · subst he
    choose m below drawn using drawn
    classical
    let number (row : Cells) : ℕ :=
      if h : ∃ k, ∃ hk : k < n, cells k = row then m h.choose h.choose_spec.choose else 0
    refine ⟨fun row _ => number row, fun row _ => ?_, fun w tag k hk => ?_⟩
    · simp only [number]
      split
      · exact below _ _
      · positivity
    · have found : ∃ j, ∃ _ : j < n, cells j = cells k := ⟨k, hk, rfl⟩
      have same : found.choose = k :=
        distinct _ found.choose_spec.choose _ hk found.choose_spec.choose_spec
      have drew : number (cells k) = m k hk := by
        simp only [number, dif_pos found]
        congr 1
      show q k = (number (cells k) : ℚ) / 2 ^ 32
      rw [drew]
      exact drawn k hk
  · refine ⟨fun _ _ => 0, fun _ _ => by positivity, fun w tag k hk => ?_⟩
    cases e with
    | clickhouse => exact (he rfl).elim
    | postgresql => exact drawn k hk
    | sqlite => exact drawn k hk
    | trino => exact drawn k hk

/-- The insert is that of a chunk: it has one row for each ordinal of the chunk, and its columns are
computed from an expression that gives the ordinal. -/
structure Covers (t : Target) (now : ℤ) (table : Table) (n : ℕ) (origin : ℤ) (i : Insert) :
    Prop where
  compiled : t.insertRows now table n origin = .ok (.insert i)
  counted : ∃ row : Expr,
    List.Forall₂ (fun c x => c.1.expression t.dialect now row (c.2 + 1) = .ok x)
      table.columns.zipIdx i.values ∧
    ∀ w : Scene, List.Forall₂
      (fun cells k => Denotes w.rules (w.env cells) row (some (.number ((k : ℤ) : ℚ))))
      (i.rows w) (ordinals origin n)

end Target

/-- The contents that inserts, one after the other, can put into the column at a place. -/
def CanStoreAll (w : Scene) (convert : Conversion) (place : ℕ) (inserts : List Insert)
    (vs : List Datum) : Prop :=
  ∃ parts, List.Forall₂ (fun i part => i.CanStore w convert place part) inserts parts ∧
    vs = parts.flatten

/-- Chunks by their origins and sizes: each begins where the one before ends. -/
def blocks (origin : ℤ) : List ℕ → List (ℤ × ℕ)
  | [] => []
  | n :: rest => (origin, n) :: blocks (origin + n) rest

namespace Target

variable {t : Target} {now : ℤ} {table : Table} {origin : ℤ} {e : Engine} {sizes : List ℕ}
  {inserts : List Insert}

end Target
end SyntheticRows
