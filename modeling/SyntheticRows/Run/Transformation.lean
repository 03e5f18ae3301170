import SyntheticRows.Compile.Rebuild
import SyntheticRows.Run.Session
import SyntheticRows.Run.Shadow

/-!
# Transforming rows

Batches are applied strictly in order. A batch that the engine cannot update in place rebuilds
the table: the shadow table is made, filled and put in the table's place, and the old one dropped.
A failure after the first of these steps leaves tables behind, which are listed and kept.
-/
namespace SyntheticRows

structure TransformResult where
  tableName : Value
  batchesApplied : Nat := 0
  replacementPasses : Nat := 0

namespace Run

/-- Compiles, and logs the warnings even if it fails. -/
def compile {α : Type} (c : Warned α) : Run α := do
  let (result, warnings) := c.run.run []
  warnings.forM (log .warning)
  result

/-- Runs a step of a replacement. A refused statement is reported with the tables left behind. -/
def replacementStep (table : Value) (step : ReplacementStep) (orphans : List String)
    (action : Run Unit) : Run Unit :=
  tryCatch action fun
    | .statementFailed reason => do
      log .error ("Table replacement of " ++ table.display ++ " failed during " ++ step.name ++
        ": " ++ reason ++ ". Orphaned tables: " ++ Text.joined ", " orphans)
      throw (.replacementFailed table step orphans reason)
    | e => throw e

/-- Names made of the table, the time and the number of the replacement. -/
def newShadowNames (table : Value) : Run (String × String) := do
  let now := (← read).now
  let n := (← get).replacements + 1
  modify ({ · with replacements := n })
  writable [table]
  return (shadowName table .new now n, shadowName table .old now n)

def replaceTable (columns : List Value) (p : ReplacementPass) : Run Unit := do
  let t ← target
  let table := p.tableName
  let (shadow, old) ← newShadowNames table
  let scope : Target.Scope := ⟨table, columns, p.strict⟩
  let populate ← compile (t.populateShadow (.text shadow) scope p.transformations)
  execute (← t.createShadow table (.text shadow))
  replacementStep table .populate [shadow] (execute populate)
  replacementStep table .rename [shadow] do
    execute (← t.exchangeTables table (.text shadow) (.text old))
  replacementStep table .drop [old] do
    execute (← t.dropTable (.text old))

/-- Runs the actions of a batch and counts the replacements. -/
def runActions (columns : List Value) (result : TransformResult) :
    List Action → Run TransformResult
  | [] => return { result with batchesApplied := result.batchesApplied + 1 }
  | .run s :: rest => do
    execute s
    runActions columns result rest
  | .replace p :: rest => do
    replaceTable columns p
    runActions columns { result with replacementPasses := result.replacementPasses + 1 } rest

def applyBatches (strict : Bool) (columns : List Value) (result : TransformResult) :
    List Batch → Run TransformResult
  | [] => return result
  | b :: rest => do
    writable [result.tableName, b.description]
    let scope : Target.Scope := ⟨result.tableName, columns, strict⟩
    let actions ← compile ((← target).batchActions scope b)
    applyBatches strict columns (← runActions columns result actions) rest

def columnNames (table : Value) : Run (List Value) := do
  let q ← (← target).columnsQuery
  let result ← query { q with parameters := q.parameters ++ [("name", table)] }
  return firstFields result

/-- Applies the batches that are not empty. All are checked for columns assigned twice before
anything is sent. -/
def applyTransformations (strict : Bool) (table : Value) (batches : List Batch) :
    Run TransformResult := do
  let batches := batches.filter fun b => !b.transformations.isEmpty
  let result : TransformResult := { tableName := table }
  if batches.isEmpty then return result
  batches.forM fun b => b.checkAssignments table
  let columns ← columnNames table
  applyBatches strict columns result batches

/-- Drops the tables that failed replacements of a table left behind. -/
def sweepOrphans (table : String) : Run (List String) := do
  let found := firstFields (← query (← (← target).tablesQuery))
  let names ← found.mapM fun
    | .text name => pure name
    | v => throw (.notText v)
  let orphans := names.filter (Shadow.isOrphanOf table)
  orphans.forM fun name => do execute (← (← target).dropTable (.text name))
  return orphans

end Run
end SyntheticRows
