import SyntheticRows.Run.Session
import SyntheticRows.Text.Measure

/-!
# Looking at tables

Rows, counts, extremes and sizes of tables, as the engine reports them.
-/
namespace SyntheticRows.Run

def countRows (table : Value) : Run Int := do
  (← fetchScalar (← (← target).countRows table)).wholeOrZero

def maxValue (table column : Value) : Run Value := do
  fetchScalar (← (← target).extreme false table column)

/-- Rows as mappings from column to content. -/
def selectRows (table limit order : Value) : Run (List (List (String × Value))) := do
  let result ← fetch (← (← target).selectRows table limit order)
  return result.rows.map fun row => result.columns.zip row

/-- A size as a catalog query gives it; no row means that there is none. -/
def reportedSize (r : ResultSet) : Except Error Int :=
  if r.rows.isEmpty then .ok 0 else (firstField r).wholeOrZero

/-- A number of pages or of bytes per page. -/
def pageNumber (q : Sql.Query) : Run Value := do
  let result ← fetch q
  return if result.rows.isEmpty then .int 0 else firstField result

/-- The size of the whole database file, which stands in for the table's. -/
def fileSize : Run Int := do
  let count ← pageNumber .pageCount
  let size ← pageNumber .pageSize
  let count ← count.whole
  return count * (← size.whole)

/-- The bytes that a table takes. SQLite may not be able to tell tables apart. -/
def tableSize (table : Value) : Run Int := do
  let t ← target
  match (← read).config.driver with
  | .postgresql =>
    let path ← t.tableRef table
    reportedSize (← query {
      text := "SELECT pg_total_relation_size(CAST(:name AS regclass))"
      parameters := [("name", .text (Sql.Path.render t.writer path))] })
  | .clickhouse =>
    reportedSize (← query {
      text := "SELECT total_bytes FROM system.tables " ++
        "WHERE database = currentDatabase() AND name = :name"
      parameters := [("name", table)] })
  | .sqlite =>
    let found ← tryQuery {
      text := "SELECT SUM(pgsize) FROM dbstat WHERE name = :name"
      parameters := [("name", table)] }
    match found with
    | some result => (firstField result).wholeOrZero
    | none => fileSize
  | .trino =>
    let files ← t.tableRef (.text (table.display ++ "$files"))
    (← fetchScalar (.fileSizes files)).wholeOrZero

def tableSizeText (table : Value) : Run String := do
  let size ← tableSize table
  Text.formatBytes (.int size)

end SyntheticRows.Run
