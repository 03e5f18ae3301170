import SyntheticRows.Sql.RowSource

/-!
# Statements

The statements that change a database, as data, and their text on each engine.
-/
namespace SyntheticRows.Sql

structure ColumnDefinition where
  name : Ident
  type : String
  notNull : Bool

def ColumnDefinition.render (e : Engine) (c : ColumnDefinition) : String :=
  c.name.quote e ++ " " ++ c.type ++ (if c.notNull then " NOT NULL" else "")

/-- How an engine stores a table. -/
inductive Storage where
  | standard
  | parquet
  | sorted (key : Ident) (nullable : Bool)

def Storage.render (e : Engine) : Storage → String
  | standard => ""
  | parquet => " WITH (format = 'PARQUET')"
  | sorted key nullable =>
    " ENGINE = MergeTree() ORDER BY " ++ key.quote e ++
      (if nullable then " SETTINGS allow_nullable_key = 1" else "")

/-- Rows computed by a query. -/
structure Insert where
  table : Path
  columns : List Ident
  definitions : List Definition
  sources : List Source
  values : List Expr
  condition : Option Expr

/-- An assignment of columns. The draws have one value per row, shared by all expressions. -/
structure Update where
  table : Path
  assignments : List (Ident × Expr)
  draws : List (String × Expr) := []
  condition : Option Expr := none

/-- The content of `wanted` for each distinct `key` of a table, joined where `key` is `target`. -/
structure LookupJoin where
  label : String
  source : Path
  key : Ident
  wanted : Ident
  target : Expr

/-- The rows of a table with some columns computed anew, put into a table of the same form. -/
structure Rebuild where
  table : Path
  shadow : Path
  columns : List Ident
  values : List Expr
  draws : List (String × Expr)
  joins : List LookupJoin

inductive Maintenance where
  | vacuum
  | vacuumAnalyze (table : Path)
  | analyze (table : Path)
  | mergeParts (table : Path)
  | compactFiles (table : Path)
  | expireSnapshots (table : Path)
  | removeOrphanFiles (table : Path)

inductive Statement where
  | createSchema (path : Path)
  | createTable (table : Path) (columns : List ColumnDefinition) (storage : Storage)
  | createLike (table model : Path)
  | drop (table : Path)
  | clear (table : Path)
  | insert (i : Insert)
  | update (u : Update)
  | rebuild (r : Rebuild)
  /-- The table takes the name `old`, and the shadow that of the table. -/
  | exchange (table shadow old : Path)
  | maintain (m : Maintenance)

def identList (e : Engine) (columns : List Ident) : String :=
  Text.joined ", " (columns.map (Ident.quote e))

def whereClause (e : Engine) (condition : Option Expr) : String :=
  match condition with
  | none => ""
  | some c => " WHERE " ++ c.render e

def Insert.render (e : Engine) (i : Insert) : String :=
  let keyword := if e = .sqlite then "WITH RECURSIVE " else "WITH "
  let withClause := if i.definitions.isEmpty then ""
    else keyword ++ Text.joined ", " (i.definitions.map (Definition.render e)) ++ " "
  let target := "INSERT INTO " ++ Path.render e i.table ++ " (" ++ identList e i.columns ++ ") "
  let select := "SELECT " ++ Text.joined ", " (i.values.map (Expr.render e)) ++ " FROM " ++
    renderSources i.sources ++ whereClause e i.condition
  match e with
  | .postgresql | .sqlite => withClause ++ target ++ select
  | .clickhouse | .trino => target ++ withClause ++ select

def assignmentList (e : Engine) (assignments : List (Ident × Expr)) : String :=
  Text.joined ", " (assignments.map fun a => a.1.quote e ++ " = " ++ a.2.render e)

def aliased (e : Engine) (draw : String × Expr) : String := draw.2.render e ++ " AS " ++ draw.1

/-- The physical identifier of a row, by which its draws are found. -/
def rowId : Engine → String
  | .postgresql => "ctid"
  | .sqlite => "rowid"
  | .clickhouse | .trino => ""

def Update.render (e : Engine) (u : Update) : String :=
  let table := Path.render e u.table
  let set := " SET " ++ assignmentList e u.assignments
  if e = .clickhouse then
    "ALTER TABLE " ++ table ++ " UPDATE " ++ assignmentList e u.assignments ++
      " WHERE 1 SETTINGS mutations_sync = 2, allow_nondeterministic_mutations = 1"
  else if u.draws.isEmpty then "UPDATE " ++ table ++ set ++ whereClause e u.condition
  else
    "WITH _d AS MATERIALIZED (SELECT " ++
      Text.joined ", " ((rowId e ++ " AS _rid") :: u.draws.map (aliased e)) ++ " FROM " ++ table ++
      ") UPDATE " ++ table ++ set ++ " FROM _d WHERE " ++ table ++ "." ++ rowId e ++ " = _d._rid"

def LookupJoin.render (e : Engine) (j : LookupJoin) : String :=
  " LEFT JOIN (SELECT " ++ j.key.quote e ++ " AS _k, any(" ++ j.wanted.quote e ++ ") AS _v FROM " ++
    Path.render e j.source ++ " GROUP BY " ++ j.key.quote e ++ ") AS " ++ j.label ++ " ON " ++
    j.target.render e ++ " = " ++ j.label ++ "._k"

def Rebuild.render (e : Engine) (r : Rebuild) : String :=
  "INSERT INTO " ++ Path.render e r.shadow ++ " (" ++ identList e r.columns ++ ") SELECT " ++
    Text.joined ", " (r.values.map (Expr.render e)) ++ " FROM (SELECT *" ++
    String.join (r.draws.map fun d => ", " ++ aliased e d) ++ " FROM " ++ Path.render e r.table ++
    ") AS _src" ++ String.join (r.joins.map (LookupJoin.render e)) ++
    " SETTINGS join_use_nulls = 1"

/-- Snapshots and files younger than a week are kept. -/
def retention : String := "(retention_threshold => '7d')"

def Maintenance.render (e : Engine) : Maintenance → String
  | vacuum => "VACUUM"
  | vacuumAnalyze t => "VACUUM ANALYZE " ++ Path.render e t
  | analyze t => "ANALYZE " ++ Path.render e t
  | mergeParts t => "OPTIMIZE TABLE " ++ Path.render e t ++ " FINAL"
  | compactFiles t => "ALTER TABLE " ++ Path.render e t ++ " EXECUTE optimize"
  | expireSnapshots t =>
    "ALTER TABLE " ++ Path.render e t ++ " EXECUTE expire_snapshots" ++ retention
  | removeOrphanFiles t =>
    "ALTER TABLE " ++ Path.render e t ++ " EXECUTE remove_orphan_files" ++ retention

def clearKeywords : Engine → String
  | .postgresql => "TRUNCATE TABLE "
  | .clickhouse => "TRUNCATE TABLE IF EXISTS "
  | .sqlite | .trino => "DELETE FROM "

def Statement.render (e : Engine) : Statement → String
  | createSchema path => "CREATE SCHEMA IF NOT EXISTS " ++ Path.render e path
  | createTable table columns storage =>
    "CREATE TABLE IF NOT EXISTS " ++ Path.render e table ++ " (" ++
      Text.joined ", " (columns.map (ColumnDefinition.render e)) ++ ")" ++ storage.render e
  | createLike table model =>
    "CREATE TABLE " ++ Path.render e table ++ " AS " ++ Path.render e model
  | drop table => "DROP TABLE IF EXISTS " ++ Path.render e table
  | clear table => clearKeywords e ++ Path.render e table
  | insert i => i.render e
  | update u => u.render e
  | rebuild r => r.render e
  | exchange table shadow old =>
    "RENAME TABLE " ++ Path.render e table ++ " TO " ++ Path.render e old ++ ", " ++
      Path.render e shadow ++ " TO " ++ Path.render e table
  | maintain m => m.render e

end SyntheticRows.Sql
