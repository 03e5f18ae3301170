import SyntheticRows.Settings.Database
import SyntheticRows.Settings.Generation
import SyntheticRows.Spec.Table
import SyntheticRows.Spec.Transformation

/-!
# Scenarios

A scenario is an ordered list of steps that generate or transform rows. A document declares
tables, and may declare a database, settings and a scenario.
-/
namespace SyntheticRows

structure GenerateStep where
  table : Table
  rowCount : Nat
  batches : List Batch := []

def GenerateStep.make (table : Table) (rowCount : Value) (batches : List Batch) :
    Except Error GenerateStep := do
  let owner := "generate step " ++ (← table.name.shown)
  let n ← Spec.checkWhole owner "row_count" rowCount
  if n < 0 then refuse (.negativeRowCount table.name) else return ⟨table, n.toNat, batches⟩

structure TransformStep where
  tableName : Value
  batches : List Batch

inductive Step where
  | generate (s : GenerateStep)
  | transform (s : TransformStep)

def Step.tableName : Step → Value
  | generate s => s.table.name
  | transform s => s.tableName

structure Scenario where
  name : Value
  steps : List Step
  description : Value := .null

/-- Everything that a scenario file declares. -/
structure Document where
  scenario : Option Scenario := none
  tables : List (Value × Table) := []
  database : Option DatabaseConfig := none
  settings : GenerationSettings := {}

/-- The declared table with that name. -/
def Document.table? (d : Document) (name : String) : Option Table :=
  (d.tables.find? fun e => (Value.text name).same e.1).map Prod.snd

end SyntheticRows
