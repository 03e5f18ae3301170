import SyntheticRows.Sql.Expr

/-!
# Random draws

A unit draw is a number in `[0, 1)`, an integer draw one in `[0, n)`. ClickHouse merges equal
calls in a statement, so each draw there carries a tag; the other engines ignore it.
-/
namespace SyntheticRows

namespace Sql

/-- The tags given out so far: `base + 1` up to `base + count`. -/
structure Tags where
  base : Int
  count : Nat := 0

/-- Salts a thousand tags apart keep the draws of different columns apart. -/
def Tags.ofSalt (salt : Int) : Tags := { base := salt * 1000 }

def Tags.last (t : Tags) : Int := t.base + t.count

/-- Compilation that gives out tags. -/
abbrev Tagged := StateT Tags (Except Error)

def nextTag : Tagged Int := modifyGet fun t =>
  let t := { t with count := t.count + 1 }
  (t.last, t)

end Sql
open Sql

namespace Engine

def random : Expr := .call "random" []

/-- The greatest signed 64-bit integer. -/
def int64Max : Nat := 9223372036854775807

/-- SQLite's signed 64-bit draw without its sign bit. -/
def maskedRandom : Expr := .paren (.binary .bitAnd random (.nat int64Max))

def unit (e : Engine) (tag : Int) : Expr :=
  match e with
  | .postgresql | .trino => random
  | .clickhouse => .paren (.binary .div (.call "rand" [.int tag]) (.decimal 4294967296))
  | .sqlite => .paren (.binary .div maskedRandom (.decimal 9223372036854775808))

def floorRandom (n : Int) : Except Error Expr := do
  return .call "floor" [.mul random (← Expr.given n)]

/-- SQLite's draw has 63 bits, so a wider range is refused. -/
def integer (e : Engine) (n : Int) (tag : Int) : Except Error Expr := do
  match e with
  | .postgresql => return .convert (← floorRandom n) "bigint"
  | .clickhouse =>
    return .call "toInt64" [.binary .mod (.call "rand64" [.int tag]) (← Expr.given n)]
  | .sqlite =>
    if n ≤ int64Max then return .paren (.binary .mod maskedRandom (← Expr.given n))
    else refuse (.rangeTooWide n)
  | .trino => return .cast (.call "random" [← Expr.given n]) "BIGINT"

end Engine

/-- The engine of a dialect. The common core has none and fails with the given error. -/
def Dialect.engine (d : Dialect) (e : Error) : Except Error Engine :=
  match d with
  | .core => .error e
  | .of engine => .ok engine

def Dialect.unit (d : Dialect) (tag : Int) : Except Error Expr := do
  return Engine.unit (← d.engine (.notImplemented "")) tag

def Dialect.integer (d : Dialect) (n tag : Int) : Except Error Expr := do
  Engine.integer (← d.engine (.notImplemented "")) n tag

end SyntheticRows
