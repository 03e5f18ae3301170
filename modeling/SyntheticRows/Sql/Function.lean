import SyntheticRows.Sql.Draw

/-!
# Functions of the dialects

The text functions that transformations need, conversions, and the names and literals of a
dialect. What the common core lacks fails with its own error.
-/
namespace SyntheticRows.Dialect
open Sql

/-- The common core has no name, so it can neither quote nor write literals. -/
def speaking (d : Dialect) : Except Error Engine :=
  d.engine (.configuration (.unsupportedDialect d.name))

def ident (d : Dialect) (v : Value) : Except Error Ident := do
  let _ ← d.speaking
  Ident.ofValue v

def literal (d : Dialect) (v : Value) : Except Error Expr := do
  let _ ← d.speaking
  return .literal (← Literal.ofValue v)

/-- The parts of a text put together; no parts make the empty text. -/
def concat (d : Dialect) : List Expr → Except Error Expr
  | [] => d.literal (.text "")
  | first :: rest => .ok (Expr.chain .concat first rest)

def textCast (d : Dialect) (x : Expr) : Expr :=
  match d with
  | .of .clickhouse => .call "toString" [x]
  | .of .trino => .cast x "VARCHAR"
  | _ => .cast x "TEXT"

def lower (d : Dialect) (x : Expr) : Expr :=
  .call (if d = .of .clickhouse then "lowerUTF8" else "lower") [x]

def length (d : Dialect) (x : Expr) : Expr :=
  .call (if d = .of .clickhouse then "lengthUTF8" else "length") [x]

/-- The part of a text from `start` on; `count` bounds its length. -/
def substring (d : Dialect) (x start : Expr) (count : Option Expr) : Expr :=
  .call (if d = .of .clickhouse then "substringUTF8" else "substr") (x :: start :: count.toList)

/-- The offset from 1 that a unit draw picks in a text. PostgreSQL's cast would round, so the
product is cut off by `floor` first. -/
def position (d : Dialect) (draw x : Expr) : Expr :=
  let product := Expr.mul draw (d.length x)
  let offset := match d with
    | .of .postgresql => Expr.convert (.call "floor" [product]) "int"
    | .of .clickhouse => .call "toInt64" [.call "floor" [product]]
    | .of .trino => .cast (.call "floor" [product]) "BIGINT"
    | _ => .cast product "INTEGER"
  .paren (.add offset (.nat 1))

/-- A point in time from seconds since 1970. -/
def fromEpoch (d : Dialect) (seconds : Expr) : Except Error Expr := do
  match ← d.engine (.unsupportedGenerator d.name "datetime") with
  | .postgresql => return .paren (.atUtc (.call "to_timestamp" [seconds]))
  | .clickhouse => return .call "toDateTime" [seconds, .word "UTC"]
  | .sqlite => return .call "datetime" [seconds, .word "unixepoch"]
  | .trino => return .cast (.call "from_unixtime" [seconds, .word "UTC"]) "TIMESTAMP(6)"

/-- Null with a probability, and the expression otherwise. -/
def nullWrap (d : Dialect) (x probability : Expr) (tag : Int) : Except Error Expr := do
  let draw ← d.unit tag
  match d with
  | .of .clickhouse => return .call "if" [.less draw probability, .null, x]
  | _ => return .caseWhen [(.less draw probability, .null)] x

end SyntheticRows.Dialect
