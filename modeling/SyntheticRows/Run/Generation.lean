import SyntheticRows.Compile.Table
import SyntheticRows.Run.Chunk
import SyntheticRows.Run.Session
import SyntheticRows.Settings.Generation

/-!
# Generating rows

A table is filled by the database itself, one statement per chunk. Sequences continue after what
the table holds.
-/
namespace SyntheticRows

structure GenerateResult where
  tableName : Value
  rowsInserted : Int := 0
  chunks : Nat := 0

namespace Run

/-- How many positions of the first sequence are used up, given the extreme value in its column:
the next value is one step beyond that. -/
def originAfter (s : Sequence) (extreme : Int) : Int := (extreme + s.step - s.start).fdiv s.step

/-- The rows used up by the first sequence column. A sequence that goes down is continued from its
minimum. -/
def resumeOrigin (table : Table) : Run Int := do
  match table.firstSequence? with
  | none => return 0
  | some (column, s) =>
    let q ← (← target).extreme (s.step < 0) table.name column.name
    match ← fetchScalar q with
    | .null => return 0
    | current =>
      let extreme ← current.whole
      let origin := originAfter s extreme
      writable [.int (extreme + s.step), .int origin]
      return origin

def runAll (statements : List Sql.Statement) : Run Unit := statements.forM execute

/-- Runs the engine's maintenance for a table. -/
def optimize (table : Value) : Run Unit := do
  runAll (← (← target).maintenance table)

/-- Writes the chunks one after the other. -/
def writeChunks (table : Table) (origin : Int) (result : GenerateResult) :
    List Int → Run GenerateResult
  | [] => return result
  | size :: rest => do
    execute (← (← target).insertRows (← read).now table size origin)
    writeChunks table (origin + size)
      { result with rowsInserted := result.rowsInserted + size, chunks := result.chunks + 1 } rest

/-- Drops, creates and empties the table as the settings say, then writes the rows. A table that
was just dropped is not emptied. -/
def generateRows (settings : GenerationSettings) (table : Table) (rows : Int)
    (dropFirst optimizeAfter : Bool) : Run GenerateResult := do
  let t ← target
  if dropFirst then execute (← t.dropTable table.name)
  if settings.createTable then execute (← t.createTable table)
  if settings.truncateFirst && !dropFirst then execute (← t.clearTable table.name)
  let origin ← if settings.resumeSequences then resumeOrigin table else pure 0
  let chunks ← planChunks rows (settings.batchSize.map fun n => (n.val : Int))
  writable [.int rows]
  let result ← writeChunks table origin { tableName := table.name } chunks
  if optimizeAfter then optimize table.name
  return result

end Run
end SyntheticRows
