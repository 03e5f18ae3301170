import SyntheticRows.Proofs.Run.ResumedSeries

/-!
# Sequence columns beside the first

All sequence columns of a table go by the ordinals that the first of them is asked for. In a series
of generations these go up, and no column gets a number twice, as long as the first one is compared
by its numbers and shows the last row whenever a generation starts.
-/
namespace SyntheticRows.Run
open Sql

variable {R : Rules} {convert : Conversion} {config : DatabaseConfig} {table : Table}
  {path : Path} {column : Column} {sequence : Sequence} {name : String} {turns : List Turn}
  {σ σ' : Store}

section OtherColumns

variable {is js : List ℤ} {prior added more : List Row}

/-- Rows with ordinals that go up, at which the type of the column keeps the numbers. -/
structure Ascends (e : Engine) (convert : Conversion) (table : Table) (column : Column)
    (sequence : Sequence) (is : List ℤ) (added : List Row) : Prop where
  numbers : List.Forall₂ (table.Numbers e convert) is added
  increasing : is.Pairwise (· < ·)
  kept : ∀ i ∈ is, column.Keeps e convert sequence i

namespace Ascends

variable {e : Engine}

theorem nil : Ascends e convert table column sequence [] [] := ⟨.nil, .nil, nofun⟩

theorem append (h : Ascends e convert table column sequence is added)
    (h' : Ascends e convert table column sequence js more) (beyond : ∀ i ∈ is, ∀ j ∈ js, i < j) :
    Ascends e convert table column sequence (is ++ js) (added ++ more) where
  numbers := List.rel_append h.numbers h'.numbers
  increasing := List.pairwise_append.2 ⟨h.increasing, h'.increasing, beyond⟩
  kept := fun i hi => (List.mem_append.1 hi).elim (h.kept i) (h'.kept i)

variable (h : Ascends e convert table column sequence is added) (hc : column ∈ table.columns)
  (hg : column.generator = .sequence sequence) (named : column.name = .text name)
include h hc hg named

end Ascends

variable (series : Turns R convert config table path σ turns σ')
  (hR : R.engine = config.driver)
  (ht : (Target.ofDatabase config).tableRef table.name = .ok path)
  (hf : table.firstSequence? = some (column, sequence)) (named : column.name = .text name)
  (keeps : ∀ turn ∈ turns, ∀ i, turn.origin < i → i ≤ turn.origin + turn.rows →
    column.Keeps config.driver convert sequence i)
include series hR ht hf named keeps

end OtherColumns

section PriorRow

/-- The numbers 1, 6, 11 and so on beside those of the first column. -/
def besideColumn : Column :=
  { name := .text "m", type := .integer, generator := .sequence { byFive with start := 1 } }

def pairTable : Table := { name := .text "pairs", columns := [numberColumn, besideColumn] }

end PriorRow

section Repeated

/-- Whole numbers are spelled by texts, and all but zero are true. -/
def casting : Conversion
  | "TEXT", .number q => .text (toString q.num)
  | "BOOLEAN", .number q => .bool (q ≠ 0)
  | _, v => v

/-- A series that starts from an empty table gives the contents to a sequence column without
nulls. -/
def Gives (c : Connection) (table : Table) (name : String) (contents : List Datum) : Prop :=
  (∃ column ∈ table.columns, ∃ s, column.name = .text name ∧ column.generator = .sequence s ∧
    column.nullShare ≤ 0) ∧
  ∃ path turns σ σ', c.target.tableRef table.name = .ok path ∧ σ.rowsOf path = [] ∧
    Turns (.plain c.config.driver) casting c.config table path σ turns σ' ∧
    σ'.contents path name = contents

end Repeated

end SyntheticRows.Run
