import SyntheticRows.Spec.Generator
import SyntheticRows.Sql.Lookup

/-!
# Compiling generators

Each generator becomes an expression that gives one value per row. `row` stands for the row's
ordinal, counted from 1, and `now` for the time in seconds at which a statement is compiled.
-/
namespace SyntheticRows
open Sql

namespace Generator

/-- `start - step + row * step`. -/
def sequenceExpr (s : Sequence) (row : Expr) : Except Error Expr := do
  let step ← Expr.ofInt s.step
  return .paren (.add (.sub (← Expr.ofInt s.start) step) (.mul row step))

/-- A range of one value needs no draw. -/
def intRangeExpr (d : Dialect) (r : IntRange) : Tagged Expr := do
  let low ← Expr.ofInt r.low
  if r.width = 1 then return low
  return .paren (.add low (← d.integer r.width (← nextTag)))

/-- The lower end and the width of a range as doubles. -/
def floatBounds (r : FloatRange) : Except Error (Expr × Expr) := do
  let low ← Expr.ofFloat (← orError .numberTooLarge r.low.val.toDouble?)
  let width ← orError .numberTooLarge (r.high.val.sub? r.low.val)
  return (low, ← Expr.ofFloat (← orError .numberTooLarge width.toDouble?))

/-- PostgreSQL rounds to decimals only in its exact numeric type. -/
def floatRangeExpr (d : Dialect) (r : FloatRange) : Tagged Expr := do
  let (low, width) ← floatBounds r
  let tag ← nextTag
  let value := Expr.add low (.mul (← d.unit tag) width)
  let places ← Expr.given r.places
  match d with
  | .of .postgresql => return .call "round" [.convert (.paren value) "numeric", places]
  | _ => return .call "round" [value, places]

/-- How many pieces of `size` characters make up at least `length` of them. -/
def pieceCount (length size : Nat) : Except Error Nat := do
  let n ← orError .quotientTooLarge (Double.ceilQuotient? length size)
  return n.toNat

/-- The pieces that are written out, each told its place. -/
def piecesOf (length : Nat) (piece : Nat → Tagged Expr) : Tagged (List Expr) := do
  let n ← pieceCount length 32
  checkSize n
  (List.range n).mapM piece

/-- The pieces put together and cut to the length. -/
def cutPieces (function : String) (length : Nat) : List Expr → Expr
  | [] => .call function [.null, .nat 1, .nat length]
  | first :: rest => .call function [.chain .concat first rest, .nat 1, .nat length]

def undashed (function : String) (text : Expr) : Expr :=
  .call function [text, .word "-", .word ""]

/-- Pieces of 32 hexadecimal digits from digests or identifiers; on SQLite a blob of random
bytes, two digits each. -/
def randomTextExpr (d : Dialect) (length : Nat) : Tagged Expr := do
  match ← d.engine (.unsupportedGenerator d.name "randomString") with
  | .postgresql =>
    let piece := Expr.call "md5" [.convert Engine.random "text"]
    return cutPieces "substr" length (← piecesOf length fun _ => pure piece)
  | .clickhouse =>
    let pieces ← piecesOf length fun _ => do
      return undashed "replaceAll"
        (.call "toString" [.call "generateUUIDv4" [.int (← nextTag)]])
    return cutPieces "substring" length pieces
  | .sqlite =>
    let bytes := max 1 (← pieceCount length 2)
    return cutPieces "substr" length
      [.call "lower" [.call "hex" [.call "randomblob" [.nat bytes]]]]
  | .trino =>
    let piece := undashed "replace" (.cast (.call "uuid" []) "VARCHAR")
    return cutPieces "substr" length (← piecesOf length fun _ => pure piece)

/-- SQLite numbers the branches of a case expression from 0. -/
def caseOfItems (items : List Expr) : List (Expr × Expr) :=
  items.zipIdx.map fun i => (.nat i.2, i.1)

def choiceExpr (d : Dialect) : List Value → Tagged Expr
  | [] => return .null
  | [v] => d.literal v
  | values => do
    let items ← values.mapM fun v => liftM (d.literal v)
    let tag ← nextTag
    if d = .of .sqlite then
      return .caseOf (← d.integer values.length tag) (caseOfItems items)
    d.pick items values.length tag

def choiceByLookupExpr (d : Dialect) (values : List Value) : Tagged Expr := do
  if values.isEmpty then return .null
  let name ← lookupName values
  d.lookupPick name values.length (← nextTag)

/-- The seconds of the epoch between the ends of a span, both included. -/
def spanExpr (d : Dialect) (now : Int) (s : Span) : Tagged Expr := do
  let start ← orError .dateTooFar s.start.epochSeconds?
  let stop ← match s.stop with
    | some t => orError .dateTooFar t.epochSeconds?
    | none => pure now
  if stop < start then liftM (refuse .startInFuture : Except Error Unit)
  if stop = start then d.fromEpoch (.int start)
  else
    let draw ← d.integer (stop - start + 1) (← nextTag)
    d.fromEpoch (.paren (.add (.int start) draw))

/-- A version 4 identifier put together from random bytes. -/
def sqliteUuid : Expr :=
  let blob (n : Nat) := Expr.call "hex" [.call "randomblob" [.nat n]]
  let tail := Expr.call "substr" [blob 2, .nat 2]
  let variant := Expr.call "substr"
    [.word "89ab", .add (.nat 1) (.binary .mod Engine.maskedRandom (.nat 4)), .nat 1]
  .call "lower" [.chain .concat (blob 4)
    [.word "-", blob 2, .word "-4", tail, .word "-", variant, tail, .word "-", blob 6]]

def uuidExpr (d : Dialect) : Tagged Expr := do
  match ← d.engine (.unsupportedGenerator d.name "uuid") with
  | .postgresql => return .call "gen_random_uuid" []
  | .clickhouse => return .call "generateUUIDv4" [.int (← nextTag)]
  | .sqlite => return sqliteUuid
  | .trino => return .call "uuid" []

def compile (d : Dialect) (now : Int) (row : Expr) : Generator → Tagged Expr
  | sequence s => sequenceExpr s row
  | intRange r => intRangeExpr d r
  | floatRange r => floatRangeExpr d r
  | randomText length =>
    if length = 0 then d.literal (.text "") else randomTextExpr d length
  | choice values => choiceExpr d values
  | choiceByLookup values => choiceByLookupExpr d values
  | constant v => d.literal v
  | span s => spanExpr d now s
  | uuid => uuidExpr d
  | other kind => throw (.unsupportedGenerator d.name (Spec.kindLabel kind))

/-- The expression of a generator with draws of its own. -/
def expression (d : Dialect) (now : Int) (row : Expr) (salt : Int) (g : Generator) :
    Except Error Expr :=
  Prod.fst <$> (g.compile d now row).run (.ofSalt salt)

end Generator
end SyntheticRows
