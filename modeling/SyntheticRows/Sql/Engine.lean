/-!
# Engines

The database engines, and dialects: the common core or the dialect of one engine.
-/
namespace SyntheticRows

inductive Engine where
  | postgresql
  | clickhouse
  | sqlite
  | trino
  deriving DecidableEq, Repr

namespace Engine

def all : List Engine := [postgresql, clickhouse, sqlite, trino]

def name : Engine → String
  | postgresql => "postgresql"
  | clickhouse => "clickhouse"
  | sqlite => "sqlite"
  | trino => "trino"

def label : Engine → String
  | postgresql => "PostgreSQL"
  | clickhouse => "ClickHouse"
  | sqlite => "SQLite"
  | trino => "Trino"

def ofName? (name : String) : Option Engine := all.find? (·.name == name)

end Engine

/-- The core that the dialects share belongs to no engine: it has neither literals nor names nor
random draws. -/
inductive Dialect where
  | core
  | of (engine : Engine)
  deriving DecidableEq, Repr

namespace Dialect

def name : Dialect → String
  | core => ""
  | of e => e.name

def label : Dialect → String
  | core => ""
  | of e => e.label

/-- The engine whose written forms are used; the core has the plain ones, which are SQLite's. -/
def writer : Dialect → Engine
  | core => .sqlite
  | of e => e

end Dialect
end SyntheticRows
