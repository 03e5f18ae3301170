import SyntheticRows.Compile.Generator
import SyntheticRows.Spec.Table
import SyntheticRows.Sql.Target

/-!
# Compiling tables

Table definitions, and the statement that fills a chunk of rows.
-/
namespace SyntheticRows
open Sql

def Engine.physicalType : Engine → ColumnType → String
  | .postgresql, .integer => "INTEGER"
  | .postgresql, .bigint => "BIGINT"
  | .postgresql, .float => "DOUBLE PRECISION"
  | .postgresql, .string => "TEXT"
  | .postgresql, .boolean => "BOOLEAN"
  | .postgresql, .datetime => "TIMESTAMP"
  | .postgresql, .date => "DATE"
  | .clickhouse, .integer => "Int32"
  | .clickhouse, .bigint => "Int64"
  | .clickhouse, .float => "Float64"
  | .clickhouse, .string => "String"
  | .clickhouse, .boolean => "Bool"
  | .clickhouse, .datetime => "DateTime"
  | .clickhouse, .date => "Date"
  | .sqlite, .integer | .sqlite, .bigint | .sqlite, .boolean => "INTEGER"
  | .sqlite, .float => "REAL"
  | .sqlite, .string | .sqlite, .datetime | .sqlite, .date => "TEXT"
  | .trino, .integer => "INTEGER"
  | .trino, .bigint => "BIGINT"
  | .trino, .float => "DOUBLE"
  | .trino, .string => "VARCHAR"
  | .trino, .boolean => "BOOLEAN"
  | .trino, .datetime => "TIMESTAMP(6)"
  | .trino, .date => "DATE"

namespace Column

/-- On ClickHouse the type itself says whether it holds nulls. -/
def physicalType (e : Engine) (c : Column) : String :=
  let type := e.physicalType c.type
  if e = .clickhouse ∧ c.nullable then "Nullable(" ++ type ++ ")" else type

/-- The expression with the column's type. SQLite has functions for its texts of time. -/
def cast (d : Dialect) (x : Expr) (c : Column) : Except Error Expr := do
  let e ← d.engine .missingEntry
  match e, c.type with
  | .sqlite, .datetime => return .call "datetime" [x]
  | .sqlite, .date => return .call "date" [x]
  | _, _ => return .cast x (c.physicalType e)

/-- The typed expression, with null at the column's probability. -/
def compile (d : Dialect) (now : Int) (row : Expr) (c : Column) : Tagged Expr := do
  let p := c.effectiveNullProbability
  if (Number.int 1).le p then return .null
  let x ← cast d (← c.generator.compile d now row) c
  if p.le (.int 0) then return x
  let tag ← nextTag
  d.nullWrap x (← Expr.ofNumber p) tag

def expression (d : Dialect) (now : Int) (row : Expr) (salt : Int) (c : Column) :
    Except Error Expr :=
  Prod.fst <$> (c.compile d now row).run (.ofSalt salt)

def definition (t : Target) (c : Column) : Except Error ColumnDefinition := do
  let name ← t.ident c.name
  let e ← t.dialect.engine .missingEntry
  return ⟨name, c.physicalType e, e ≠ .clickhouse && !c.nullable⟩

/-- The list that a column picks from, if it picks from one at all. -/
def lookupValues? (c : Column) : Option (List Value) :=
  match c.generator with
  | .choiceByLookup values =>
    if !values.isEmpty && c.effectiveNullProbability.lt (.int 1) then some values else none
  | _ => none

end Column

namespace Table

/-- The lookup lists of a table by name, each name once. -/
def lookups (t : Table) : Except Error (List (String × List Value)) :=
  (t.columns.filterMap Column.lookupValues?).foldlM (fun found values => do
    let name ← lookupName values
    return if found.any (·.1 == name) then found else found ++ [(name, values)]) []

end Table

namespace Target

def createTable (t : Target) (table : Table) : Except Error Statement := do
  let columns ← table.columns.mapM (Column.definition t)
  let path ← t.tableRef table.name
  match t.dialect, table.columns with
  | .of .clickhouse, key :: _ =>
    return .createTable path columns (.sorted (← t.ident key.name) key.nullable)
  | .of .trino, _ => return .createTable path columns .parquet
  | _, _ => return .createTable path columns .standard

def dropTable (t : Target) (table : Value) : Except Error Statement := do
  return .drop (← t.tableRef table)

def clearTable (t : Target) (table : Value) : Except Error Statement := do
  return .clear (← t.tableRef table)

def createSchema (t : Target) : Except Error Statement := do
  return .createSchema (← t.qualifiers)

/-- What keeps a table fast and small after it was written. -/
def maintenance (t : Target) (table : Value) : Except Error (List Statement) := do
  let path ← match t.dialect with
    | .core => pure []
    | _ => t.tableRef table
  match t.dialect with
  | .core => return []
  | .of .postgresql => return [.maintain (.vacuumAnalyze path)]
  | .of .clickhouse => return [.maintain (.mergeParts path)]
  | .of .sqlite => return [.maintain .vacuum, .maintain (.analyze path)]
  | .of .trino =>
    return [.maintain (.compactFiles path), .maintain (.expireSnapshots path),
      .maintain (.removeOrphanFiles path)]

/-- The sources of an insert: the rows, and each lookup list where it is a relation. -/
def insertSources (d : Dialect) (rows : RowSource) (names : List String) : List Source :=
  match d with
  | .of .clickhouse => rows.sources
  | _ => rows.sources ++ names.map Source.lookup

/-- One statement that writes `count` rows with the ordinals after `origin`. The draws of each
column are salted with its place. -/
def insertRows (t : Target) (now : Int) (table : Table) (count origin : Int) :
    Except Error Statement := do
  let d := t.dialect
  let rows ← RowSource.make d count origin
  let lookups ← table.lookups
  let definitions ← lookups.mapM fun l => d.lookupDefinition l.1 l.2
  let columns ← table.columns.mapM fun c => t.ident c.name
  let values ← table.columns.zipIdx.mapM fun c => c.1.expression d now rows.row (c.2 + 1)
  let path ← t.tableRef table.name
  return .insert {
    table := path
    columns
    definitions := rows.definitions ++ definitions
    sources := insertSources d rows (lookups.map Prod.fst)
    values
    condition := rows.condition }

end Target
end SyntheticRows
