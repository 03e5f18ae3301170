import SyntheticRows.Run.Inspection
import SyntheticRows.Run.Scenario

/-!
# Operations with overrides

Generating, transforming and running scenarios under settings of which single ones are overridden
for the call.
-/
namespace SyntheticRows

/-- The settings with overrides. Unknown names are refused all at once, in ascending order. -/
def GenerationSettings.withOverrides (s : GenerationSettings) (overrides : Settings.Fields) :
    Except Error GenerationSettings :=
  let names := overrides.map fun o => o.1.display
  let unknown := names.filter fun n => !GenerationSettings.fieldNames.contains n
  if unknown.isEmpty then
    (s.override overrides).mapError fun r => .configuration (.invalidOverrides r)
  else refuse (.unknownSettings (unknown.mergeSort (· ≤ ·)))

namespace Run

def generate (settings : GenerationSettings) (overrides : Settings.Fields) (table : Table)
    (rows : Int) : Run GenerateResult := do
  let settings ← settings.withOverrides overrides
  generateRows settings table rows settings.dropFirst settings.optimize

def transform (settings : GenerationSettings) (overrides : Settings.Fields) (table : Value)
    (batches : List Batch) : Run TransformResult := do
  let settings ← settings.withOverrides overrides
  applyTransformations settings.strictTemplates table batches

/-- A document need not declare a scenario; then there is none to run. -/
def scenario (settings : GenerationSettings) (overrides : Settings.Fields)
    (s : Option Scenario) : Run ScenarioResult := do
  let settings ← settings.withOverrides overrides
  runScenario settings (← orError .missingField s)

def createTable (table : Table) : Run Unit := do execute (← (← target).createTable table)

def dropTable (table : Value) : Run Unit := do execute (← (← target).dropTable table)

def clearTable (table : Value) : Run Unit := do execute (← (← target).clearTable table)

end Run
end SyntheticRows
