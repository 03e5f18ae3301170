import SyntheticRows.Compile.Mutation

/-!
# Compiling batches

A batch becomes statements, all of whose expressions read the values from before the batch. Most
engines take one update; Trino adds one per swap, and ClickHouse rebuilds the table for what its
updates cannot do.
-/
namespace SyntheticRows
open Sql

/-- Transformations that are carried out by rebuilding the table. -/
structure ReplacementPass where
  tableName : Value
  transformations : List Transformation
  strict : Bool := false

/-- What is done for a batch. -/
inductive Action where
  | run (s : Statement)
  | replace (p : ReplacementPass)

namespace Target

/-- The table and column names that the expressions of a batch refer to. -/
structure Scope where
  table : Value
  columns : List Value
  strict : Bool

def lookupName (index : Nat) : String := "_lk" ++ toString index

/-- The content of another table's row as a query in place. -/
def lookupExpr (t : Target) (table : Value) (l : Lookup) (label : String) (taking : Taking) :
    Except Error Expr := do
  let wanted ← t.ident l.fromColumn
  let source ← t.tableRef l.fromTable
  let key ← t.ident l.lookupColumn
  let target ← t.columnRef table l.targetColumn
  return .lookup { label, source, wanted, key, target, taking }

/-- An update under construction; the state counts the draws taken so far. -/
abbrev Drawing := StateT Nat Warned

def sharedDraw (i : Nat) : Expr := .name [.bare "_d", .bare ("_r" ++ toString i)]

/-- Takes `n` draws and gives the number of the first. -/
def takeDraws (n : Nat) : Drawing Nat := modifyGet fun used => (used, used + n)

/-- Both assignments of a swap; they share one draw. -/
def swapAssignments (s : Swap) (first second : Expr) : Drawing (List (Value × Expr)) := do
  if (Number.int 1).le s.probability.val then
    return [(s.column1, second), (s.column2, first)]
  let draw := sharedDraw (← takeDraws 1)
  let condition := Expr.less draw (← Expr.ofNumber s.probability.val)
  return [(s.column1, .caseWhen [(condition, second)] first),
    (s.column2, .caseWhen [(condition, first)] second)]

/-- The assignments of one transformation in an update with shared draws. -/
def sharedAssignments (t : Target) (scope : Scope) (index : Nat) :
    Transformation → Drawing (List (Value × Expr))
  | .template tr => do
    let ref (c : Value) : Except Error Expr := .name <$> t.columnRef scope.table c
    let x ← tr.expression t.dialect scope.table scope.columns scope.strict ref
    return [(tr.column, x)]
  | .mutation m => do
    let first ← takeDraws m.drawCount
    let column ← Expr.name <$> t.columnRef scope.table m.column
    return [(m.column, ← m.withDraws t.dialect column sharedDraw first)]
  | .lookup l => do
    return [(l.column, ← t.lookupExpr scope.table l (lookupName index) .limit)]
  | .swap s => do
    let first ← Expr.name <$> t.columnRef scope.table s.column1
    let second ← Expr.name <$> t.columnRef scope.table s.column2
    swapAssignments s first second
  | .other kind =>
    throw (.unsupportedTransformation t.dialect.name (Spec.kindLabel kind))

/-- Quotes the assigned columns. -/
def assignments (t : Target) (given : List (Value × Expr)) :
    Except Error (List (Ident × Expr)) :=
  given.mapM fun a => do return (← t.ident a.1, a.2)

/-- One update for the whole batch. -/
def sharedUpdate (t : Target) (scope : Scope) (b : Batch) : Warned (List Action) := do
  let (given, used) ← (b.active.zipIdx.mapM fun a => t.sharedAssignments scope a.2 a.1).run 0
  if given.flatten.isEmpty then return []
  let table ← t.tableRef scope.table
  let assignments ← t.assignments given.flatten
  let unit ← t.dialect.unit 0
  let draws := (List.range used).map fun i => ("_r" ++ toString i, unit)
  return [.run (.update { table, assignments, draws })]

/-- A swap on Trino is an update of its own; a row is swapped if its draw is low enough. -/
def swapUpdate (t : Target) (table : Path) (s : Swap) : Except Error Statement := do
  let first ← t.ident s.column1
  let second ← t.ident s.column2
  let condition ← if s.probability.val.lt (.int 1) then do
      let p ← Expr.ofNumber s.probability.val
      pure (some (Expr.less Engine.random p))
    else pure none
  return .update {
    table
    assignments := [(first, .name [.given second]), (second, .name [.given first])]
    condition }

/-- What a transformation adds to Trino's shared update, or its own update. -/
def trinoPart (t : Target) (scope : Scope) (table : Path) (index : Nat) :
    Transformation → Warned ((Value × Expr) ⊕ Statement)
  | .swap s => do return .inr (← t.swapUpdate table s)
  | .template tr => do
    let ref (c : Value) : Except Error Expr := do return .name [.given (← t.ident c)]
    let x ← tr.expression t.dialect scope.table scope.columns scope.strict ref
    return .inl (tr.column, x)
  | .mutation m => do
    let column ← t.ident m.column
    return .inl (m.column, ← m.boundExpr .trino (.name [.given column]) 0)
  | .lookup l => do
    return .inl (l.column, ← t.lookupExpr scope.table l (lookupName index) .aggregate)
  | .other (some kind) => throw (.unsupportedTransformation t.dialect.name kind.display)
  | .other none => throw .missingField

/-- The shared update first, then the swaps: what they exchange it never assigns. -/
def trinoUpdates (t : Target) (scope : Scope) (b : Batch) : Warned (List Action) := do
  let table ← t.tableRef scope.table
  let parts ← b.active.zipIdx.mapM fun a => t.trinoPart scope table a.2 a.1
  let given := parts.filterMap Sum.getLeft?
  let swaps := parts.filterMap Sum.getRight?
  let shared ← if given.isEmpty then pure []
    else do
      let assignments ← t.assignments given
      pure [Statement.update { table, assignments }]
  return (shared ++ swaps).map .run

/-- The salt of the draws of the first transformation, away from those of columns. -/
def transformationSalt : Nat := 900

/-- A template or a mutation over one row of ClickHouse. -/
def rowExpr (t : Target) (scope : Scope) (ref : Value → Except Error Expr) (salt : Int) :
    Transformation → Warned Expr
  | .template tr => tr.expression t.dialect scope.table scope.columns scope.strict ref
  | .mutation m => do m.boundExpr .clickhouse (← ref m.column) salt
  | _ => throw .missingField

/-- Whether ClickHouse has to rebuild the table: for lookups and swaps, and for what assigns the
sort key, which is the first column. -/
def needsRebuild (sortKey : Value) (tr : Transformation) : Warned Bool :=
  match tr with
  | .lookup _ | .swap _ => pure true
  | .template t => pure (t.column.same sortKey)
  | .mutation m => pure (m.column.same sortKey)
  | .other (some kind) => throw (.unsupportedTransformation "clickhouse" kind.display)
  | .other none => throw .missingField

/-- Rebuilds the table where needed, then runs one mutation for the rest. -/
def clickhouseActions (t : Target) (scope : Scope) (b : Batch) : Warned (List Action) := do
  let routed ← b.active.zipIdx.mapM fun a => do
    return (a.1, a.2, ← needsRebuild (scope.columns.headD .null) a.1)
  let rebuilt := routed.filterMap fun r => if r.2.2 then some r.1 else none
  let mutated := routed.filterMap fun r => if r.2.2 then none else some (r.1, r.2.1)
  let ref (c : Value) : Except Error Expr := do return .name [.given (← t.ident c)]
  let assignments ← mutated.mapM fun m => do
    let column ← m.1.assignedColumns.headD .null |> t.ident
    return (column, ← t.rowExpr scope ref (transformationSalt + m.2 : Nat) m.1)
  let passes := if rebuilt.isEmpty then []
    else [.replace ⟨scope.table, rebuilt, scope.strict⟩]
  if assignments.isEmpty then return passes
  let table ← t.tableRef scope.table
  return passes ++ [.run (.update { table, assignments })]

/-- The actions of one batch on a table with the given columns. -/
def batchActions (t : Target) (scope : Scope) (b : Batch) : Warned (List Action) :=
  match t.dialect with
  | .of .trino => t.trinoUpdates scope b
  | .of .clickhouse => t.clickhouseActions scope b
  | _ => t.sharedUpdate scope b

end Target
end SyntheticRows
