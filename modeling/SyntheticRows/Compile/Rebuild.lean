import SyntheticRows.Compile.Batch

/-!
# Compiling rebuilds

ClickHouse carries out some transformations by copying the table. Every column of the copy is
read from the row as it was; a swap's draw is taken once per row in an inner query, and a lookup
joins one content per key, so that no row is lost or doubled.
-/
namespace SyntheticRows
open Sql

namespace Target

/-- A rebuild under construction. -/
structure RebuildDraft where
  /-- The expression of each column, by its name. -/
  expressions : List (Value × Expr)
  draws : List (String × Expr) := []
  joins : List LookupJoin := []

namespace RebuildDraft

/-- Sets the expression of a column; a column whose name cannot be a key has none. -/
def set (d : RebuildDraft) (column : Value) (x : Expr) : Except Error RebuildDraft :=
  if column.isKey then .ok { d with expressions := Value.insertEntry column x d.expressions }
  else .error (.notKey column)

end RebuildDraft

/-- A column of the row that is copied. -/
def sourceRef (t : Target) (column : Value) : Except Error Expr := do
  return .name [.bare "_src", .given (← t.ident column)]

def rebuildSwap (t : Target) (d : RebuildDraft) (index : Nat) (s : Swap) :
    Except Error RebuildDraft := do
  let first ← t.sourceRef s.column1
  let second ← t.sourceRef s.column2
  if (Number.int 1).le s.probability.val then
    (← d.set s.column1 second).set s.column2 first
  else
    let name := "_swap" ++ toString index
    let tag : Int := (transformationSalt + index : Nat) * 1000 + 1
    let d := { d with draws := d.draws ++ [(name, Engine.unit .clickhouse tag)] }
    let p ← Expr.ofNumber s.probability.val
    let condition := Expr.less (.name [.bare "_src", .bare name]) p
    (← d.set s.column1 (.call "if" [condition, second, first])).set s.column2
      (.call "if" [condition, first, second])

def rebuildLookup (t : Target) (d : RebuildDraft) (index : Nat) (l : Lookup) :
    Except Error RebuildDraft := do
  let label := lookupName index
  let key ← t.ident l.lookupColumn
  let wanted ← t.ident l.fromColumn
  let source ← t.tableRef l.fromTable
  let target ← t.sourceRef l.targetColumn
  let join : LookupJoin := { label, source, key, wanted, target }
  { d with joins := d.joins ++ [join] }.set l.column (.name [.bare label, .bare "_v"])

def rebuildStep (t : Target) (scope : Scope) (d : RebuildDraft) (index : Nat) :
    Transformation → Warned RebuildDraft
  | .swap s => t.rebuildSwap d index s
  | .lookup l => t.rebuildLookup d index l
  | .template tr => do
    let x ← t.rowExpr scope t.sourceRef (transformationSalt + index : Nat) (.template tr)
    d.set tr.column x
  | .mutation m => do
    let x ← t.rowExpr scope t.sourceRef (transformationSalt + index : Nat) (.mutation m)
    d.set m.column x
  | .other _ => throw .missingField

/-- Only ClickHouse rebuilds tables. -/
def rebuilding (t : Target) : Except Error Unit :=
  if t.dialect = .of .clickhouse then .ok ()
  else .error (.notImplemented (t.dialect.name ++ " does not rebuild tables"))

/-- An empty table of the same form. -/
def createShadow (t : Target) (table shadow : Value) : Except Error Statement := do
  t.rebuilding
  let shadow ← t.tableRef shadow
  return .createLike shadow (← t.tableRef table)

/-- The statement that fills the shadow with the transformed rows. -/
def populateShadow (t : Target) (shadow : Value) (scope : Scope)
    (transformations : List Transformation) : Warned Statement := do
  t.rebuilding
  let start : RebuildDraft := {
    expressions := ← scope.columns.foldlM (fun found c => do
      return Value.insertEntry c (← t.sourceRef c) found) [] }
  let draft ← transformations.zipIdx.foldlM (fun d a => t.rebuildStep scope d a.2 a.1) start
  let values ← scope.columns.mapM fun c =>
    orError .missingEntry ((draft.expressions.find? (c.same ·.1)).map Prod.snd)
  let shadow ← t.tableRef shadow
  let columns ← scope.columns.mapM fun c => liftM (t.ident c)
  let table ← t.tableRef scope.table
  return .rebuild {
    table, shadow, columns, values, draws := draft.draws, joins := draft.joins }

/-- Puts the shadow in the table's place, in one step. -/
def exchangeTables (t : Target) (table shadow old : Value) : Except Error Statement := do
  t.rebuilding
  let table ← t.tableRef table
  let old ← t.tableRef old
  return .exchange table (← t.tableRef shadow) old

end Target
end SyntheticRows
