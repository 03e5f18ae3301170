import SyntheticRows.Sql.Target
import SyntheticRows.Value.Whole

/-!
# Queries

Queries on the rows of a table are written out in full. Queries on the engine's catalog take
their values as parameters.
-/
namespace SyntheticRows

namespace Sql

inductive Query where
  | countRows (table : Path)
  | extreme (least : Bool) (column : Ident) (table : Path)
  | rows (table : Path) (order : Option Ident) (limit : Int)
  | fileSizes (table : Path)
  | pageCount
  | pageSize

def Query.render (e : Engine) : Query → String
  | countRows table => "SELECT COUNT(*) FROM " ++ Path.render e table
  | extreme least column table =>
    "SELECT " ++ (if least then "MIN(" else "MAX(") ++ column.quote e ++ ") FROM " ++
      Path.render e table
  | rows table order limit =>
    "SELECT * FROM " ++ Path.render e table ++
      (match order with
        | none => ""
        | some c => " ORDER BY " ++ c.quote e) ++ " LIMIT " ++ toString limit
  | fileSizes table => "SELECT COALESCE(SUM(file_size_in_bytes), 0) FROM " ++ Path.render e table
  | pageCount => "PRAGMA page_count"
  | pageSize => "PRAGMA page_size"

/-- A text with named places and what is put there. -/
structure CatalogQuery where
  text : String
  parameters : List (String × Value) := []

end Sql
open Sql

namespace Target

def countRows (t : Target) (table : Value) : Except Error Query := do
  return .countRows (← t.tableRef table)

def extreme (t : Target) (least : Bool) (table column : Value) : Except Error Query := do
  let column ← t.ident column
  return .extreme least column (← t.tableRef table)

/-- An order column that counts as absent leaves the order open. -/
def selectRows (t : Target) (table limit order : Value) : Except Error Query := do
  let table ← t.tableRef table
  let order ← if order.isPresent then some <$> t.ident order else pure none
  return .rows table order (← limit.whole)

/-- A view of Trino's information schema. -/
def informationSchema (t : Target) (view : String) : Except Error String := do
  let catalog ← t.ident (.text t.catalog)
  return catalog.quote t.writer ++ ".information_schema." ++ view

/-- The columns of the table `:name` in order. -/
def columnsQuery (t : Target) : Except Error CatalogQuery := do
  match ← t.dialect.engine (.notImplemented "") with
  | .postgresql => return {
      text := "SELECT column_name FROM information_schema.columns " ++
        "WHERE table_schema = current_schema() AND table_name = :name ORDER BY ordinal_position" }
  | .clickhouse => return {
      text := "SELECT name FROM system.columns " ++
        "WHERE database = currentDatabase() AND table = :name ORDER BY position" }
  | .sqlite => return { text := "SELECT name FROM pragma_table_info(:name) ORDER BY cid" }
  | .trino => return {
      text := "SELECT column_name FROM " ++ (← t.informationSchema "columns") ++
        " WHERE table_schema = :schema AND table_name = :name ORDER BY ordinal_position"
      parameters := [("schema", .text t.schema)] }

/-- The tables of the connection's schema. -/
def tablesQuery (t : Target) : Except Error CatalogQuery := do
  match ← t.dialect.engine (.notImplemented "") with
  | .postgresql => return {
      text := "SELECT table_name FROM information_schema.tables " ++
        "WHERE table_schema = current_schema()" }
  | .clickhouse => return {
      text := "SELECT name FROM system.tables WHERE database = currentDatabase()" }
  | .sqlite => return { text := "SELECT name FROM sqlite_master WHERE type = 'table'" }
  | .trino => return {
      text := "SELECT table_name FROM " ++ (← t.informationSchema "tables") ++
        " WHERE table_schema = :schema"
      parameters := [("schema", .text t.schema)] }

end Target
end SyntheticRows
