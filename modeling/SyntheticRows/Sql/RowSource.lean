import SyntheticRows.Sql.Lookup

/-!
# Row sources

What a generating statement reads from: one row per ordinal of a chunk, whose ordinals run from
`origin + 1` to `origin + count`.
-/
namespace SyntheticRows

namespace Sql

inductive Source where
  /-- PostgreSQL's series from 1. -/
  | series (count : Int)
  /-- ClickHouse's numbers from 0. -/
  | numbers (count : Int)
  /-- The counter that a definition of the statement holds. -/
  | counter
  /-- One level of Trino's bounded sequences. -/
  | level (number : Nat) (first last : Int)
  /-- The one row of a lookup list. -/
  | lookup (name : String)
  deriving DecidableEq, Repr

def Source.render : Source → String
  | series count => "generate_series(1::bigint, " ++ toString count ++ "::bigint) AS g(n)"
  | numbers count => "numbers(" ++ toString count ++ ")"
  | counter => "seq"
  | level number first last =>
    "UNNEST(sequence(" ++ toString first ++ ", " ++ toString last ++ ")) AS _g" ++
      toString number ++ "(n)"
  | lookup name => name

def renderSources (sources : List Source) : String :=
  Text.joined " CROSS JOIN " (sources.map Source.render)

structure RowSource where
  definitions : List Definition := []
  sources : List Source
  /-- The ordinal of a row. -/
  row : Expr
  condition : Option Expr := none

/-- An ordinal moved up by an origin other than zero. -/
def shiftedRow (row : Expr) (origin : Int) : Expr :=
  if origin = 0 then row else .paren (.add row (.int origin))

end Sql
open Sql

namespace RowSource

/-- A sequence on Trino has at most this many entries. -/
def sequenceLimit : Nat := 10000

/-- The least number of levels, each of `sequenceLimit` entries, that hold `n` rows. -/
def levelCount (n : Nat) : Nat :=
  if h : n ≤ sequenceLimit then 1
  else 1 + levelCount ((n + (sequenceLimit - 1)) / sequenceLimit)
termination_by n
decreasing_by
  simp only [sequenceLimit] at *
  omega

def levelName (level : Nat) : Expr := .name [.bare ("_g" ++ toString level), .bare "n"]

/-- What one entry of a level counts for. -/
def levelWeight (levels level : Nat) : Nat := Nat.pow sequenceLimit (levels - 1 - level)

def levelTerm (levels level : Nat) : Expr :=
  let weight := levelWeight levels level
  if weight > 1 then .mul (levelName level) (.nat weight) else levelName level

/-- The outermost level is only as long as the count needs. -/
def levelSource (count : Int) (levels level : Nat) : Except Error Source := do
  let last ← if level = 0 then
      orError .quotientTooLarge (Double.ceilQuotient? count (levelWeight levels level))
    else pure (sequenceLimit : Int)
  return .level level 0 (last - 1)

/-- The mixed-radix number of a row, counted from 1. -/
def levelOrdinal (levels : Nat) : Expr :=
  let rest := (List.range (levels - 1)).map fun k => levelTerm levels (k + 1)
  .paren (.add (Expr.chain .add (levelTerm levels 0) rest) (.nat 1))

def trino (count origin : Int) : Except Error RowSource :=
  if count ≤ sequenceLimit then
    .ok { sources := [.level 0 1 count], row := shiftedRow (levelName 0) origin }
  else do
    let levels := levelCount count.toNat
    let sources ← (List.range levels).mapM (levelSource count levels)
    let ordinal := levelOrdinal levels
    return { sources, row := shiftedRow ordinal origin
             condition := some (.binary .atMost ordinal (.int count)) }

/-- What ClickHouse, which counts from 0, adds to its numbers; the other engines add the origin. -/
def offset (e : Engine) (origin : Int) : Int := if e = .clickhouse then origin + 1 else origin

/-- The source of `count` rows after `origin`. -/
def make (d : Dialect) (count origin : Int) : Except Error RowSource := do
  let e ← d.engine (.notImplemented "")
  writable [.int count, .int (offset e origin)]
  match e with
  | .postgresql =>
    return { sources := [.series count]
             row := shiftedRow (.name [.bare "g", .bare "n"]) origin }
  | .clickhouse =>
    return { sources := [.numbers count]
             row := .paren (.add (.call "toInt64" [.bare "number"]) (.int (offset e origin))) }
  | .sqlite =>
    return { definitions := [.counter count], sources := [.counter]
             row := shiftedRow (.name [.bare "seq", .bare "n"]) origin }
  | .trino => trino count origin

end RowSource
end SyntheticRows
