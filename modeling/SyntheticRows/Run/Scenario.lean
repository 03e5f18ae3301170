import SyntheticRows.Run.Generation
import SyntheticRows.Run.Transformation
import SyntheticRows.Spec.Scenario

/-!
# Running scenarios

The steps run in order, without a transaction around them. A table is dropped only the first time
it is generated, and maintenance waits for the end.
-/
namespace SyntheticRows

structure StepResult where
  tableName : Value
  generate : Option GenerateResult := none
  transform : Option TransformResult := none

structure ScenarioResult where
  name : Value
  steps : List StepResult := []
  totalRows : Int := 0
  optimizedTables : List Value := []

/-- What a scenario did to one table. -/
structure TableStats where
  rowsInserted : Int := 0
  batchesApplied : Nat := 0

namespace TableStats

def add (s : TableStats) (r : StepResult) : TableStats :=
  { rowsInserted := s.rowsInserted + (r.generate.map (·.rowsInserted)).getD 0
    batchesApplied := s.batchesApplied + (r.transform.map (·.batchesApplied)).getD 0 }

end TableStats

/-- Totals per table, in the order in which the tables were first touched. -/
def ScenarioResult.tableStats (r : ScenarioResult) : Except Error (List (Value × TableStats)) :=
  match r.steps.find? fun s => !s.tableName.isKey with
  | some s => .error (.notKey s.tableName)
  | none => .ok (r.steps.foldl (fun stats step =>
      let before := ((stats.find? (step.tableName.same ·.1)).map Prod.snd).getD {}
      Value.insertEntry step.tableName (before.add step) stats) [])

/-- The tables of a run so far. -/
structure Progress where
  result : ScenarioResult
  generated : List Value := []
  touched : List Value := []

namespace Run

def applyStepBatches (settings : GenerationSettings) (table : Value) (batches : List Batch) :
    Run TransformResult :=
  applyTransformations settings.strictTemplates table batches

def runStep (settings : GenerationSettings) (p : Progress) (s : Step) : Run Progress := do
  let name := s.tableName
  let touched := if name.memberOf p.touched then p.touched else p.touched ++ [name]
  writable [name]
  match s with
  | .generate g =>
    writable [.int g.rowCount]
    if !name.isKey then throw (.notKey name)
    let dropFirst := settings.dropFirst && !name.memberOf p.generated
    let generated ← generateRows settings g.table g.rowCount dropFirst false
    let transform ← if g.batches.isEmpty then pure none
      else some <$> applyStepBatches settings name g.batches
    let step : StepResult := { tableName := name, generate := some generated, transform }
    return {
      result := { p.result with
        steps := p.result.steps ++ [step]
        totalRows := p.result.totalRows + generated.rowsInserted }
      generated := name :: p.generated
      touched }
  | .transform g =>
    let transform ← applyStepBatches settings name g.batches
    let step : StepResult := { tableName := name, transform := some transform }
    return { p with
      result := { p.result with steps := p.result.steps ++ [step] }
      touched }

/-- Runs the steps, and then the maintenance of the tables if the settings ask for it. -/
def runScenario (settings : GenerationSettings) (s : Scenario) : Run ScenarioResult := do
  writable [s.name]
  let p ← s.steps.foldlM (runStep settings) { result := { name := s.name } }
  if settings.optimize then p.touched.forM optimize
  writable [.int p.result.totalRows]
  return { p.result with optimizedTables := if settings.optimize then p.touched else [] }

end Run
end SyntheticRows
