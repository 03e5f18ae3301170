import SyntheticRows.Settings.Database
import SyntheticRows.Sql.Statement

/-!
# Targets

A dialect together with the catalog and schema that qualify table names on Trino.
-/
namespace SyntheticRows

structure Target where
  dialect : Dialect
  catalog : String := "iceberg"
  schema : String := "default"

namespace Target
open Sql

def ofConfig (d : Dialect) (c : DatabaseConfig) : Target :=
  { dialect := d, catalog := c.catalog, schema := c.schema }

/-- The target of a connection. -/
def ofDatabase (c : DatabaseConfig) : Target := ofConfig (.of c.driver) c

/-- How the target is shown to a programmer. -/
def inspect (t : Target) : String :=
  match t.dialect with
  | .core => "SqlDialect()"
  | .of .postgresql => "PostgresDialect()"
  | .of .clickhouse => "ClickHouseDialect()"
  | .of .sqlite => "SQLiteDialect()"
  | .of .trino =>
    "TrinoDialect(catalog=" ++ Text.quoted t.catalog ++ ", schema=" ++ Text.quoted t.schema ++ ")"

def writer (t : Target) : Engine := t.dialect.writer

def ident (t : Target) (v : Value) : Except Error Ident := t.dialect.ident v

def isTrino (t : Target) : Bool := t.dialect = .of .trino

/-- The qualifiers of a table name: catalog and schema on Trino, none elsewhere. -/
def qualifiers (t : Target) : Except Error Path :=
  if t.isTrino then do
    let catalog ← t.ident (.text t.catalog)
    return [.given catalog, .given (← t.ident (.text t.schema))]
  else .ok []

/-- The full name of a table. -/
def tableRef (t : Target) (name : Value) : Except Error Path := do
  let qualifiers ← t.qualifiers
  return qualifiers ++ [.given (← t.ident name)]

/-- A column of a table, both by their own names. -/
def columnRef (t : Target) (table column : Value) : Except Error Path := do
  let table ← t.ident table
  return [.given table, .given (← t.ident column)]

end Target
end SyntheticRows
