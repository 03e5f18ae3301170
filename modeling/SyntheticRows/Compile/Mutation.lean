import SyntheticRows.Compile.Template

/-!
# Mutations

A mutation replaces, deletes or inserts one character at a random place. Its unit draws are bound
elsewhere: a gate that decides whether the row is changed at all, a choice among the edits, and
the place.
-/
namespace SyntheticRows
open Sql

namespace Mutation

/-- What replacing and inserting write. -/
def mark : String := "X"

def needsGate (m : Mutation) : Bool := m.probability.val.lt (.int 1)

def needsChoice (m : Mutation) : Bool := 1 < m.edits.length

/-- The draws of a mutation in their order; the place is always drawn. -/
def drawCount (m : Mutation) : Nat :=
  (if m.needsGate then 1 else 0) + (if m.needsChoice then 1 else 0) + 1

/-- The text with one edit at `offset`. -/
def editExpr (d : Dialect) (column offset mark : Expr) (edit : Edit) : Except Error Expr :=
  let head := d.substring column (.nat 1) (some (.sub offset (.nat 1)))
  let after := d.substring column (.add offset (.nat 1)) none
  match edit with
  | .replace => d.concat [head, mark, after]
  | .delete => d.concat [head, after]
  | .insert => d.concat [head, mark, d.substring column offset none]

/-- The edits split the unit interval evenly; the last one takes what remains. -/
def chooseEdit (choice : Expr) (edits : List Expr) : Except Error Expr := do
  let thresholds ← (List.range (edits.length - 1)).mapM fun i =>
    Expr.ofFloat (.ofRatio false (i + 1) edits.length)
  let branches := thresholds.zip edits |>.map fun b => (Expr.less choice b.1, b.2)
  return .caseWhen branches (edits.getLast?.getD .null)

/-- When a row is changed: its gate opens, and the text is neither null nor empty. -/
def condition (d : Dialect) (column : Expr) (gate : Option Expr) : Expr :=
  let filled := Expr.binary .greater (d.length column) (.nat 0)
  match gate with
  | some g => Expr.chain .and g [.isNotNull column, filled]
  | none => .binary .and (.isNotNull column) filled

def expression (d : Dialect) (m : Mutation) (column : Expr) (gate choice : Option Expr)
    (place : Expr) : Except Error Expr := do
  let offset := d.position place column
  let mark ← d.literal (.text mark)
  let edits ← m.edits.mapM (editExpr d column offset mark)
  let edited ← match choice, edits with
    | some c, _ :: _ :: _ => chooseEdit c edits
    | _, first :: _ => pure first
    | _, [] => pure column
  let gate ← gate.mapM fun g => do return Expr.less g (← Expr.ofNumber m.probability.val)
  return .caseWhen [(condition d column gate, edited)] column

/-- The mutation with its draws taken from numbered places. -/
def withDraws (d : Dialect) (m : Mutation) (column : Expr) (draw : Nat → Expr) (first : Nat) :
    Except Error Expr :=
  let gate := if m.needsGate then some (draw first) else none
  let next := first + (if m.needsGate then 1 else 0)
  let choice := if m.needsChoice then some (draw next) else none
  let last := next + (if m.needsChoice then 1 else 0)
  expression d m column gate choice (draw last)

/-- A draw out of the bound list, counted from 1. -/
def boundDraw (i : Nat) : Expr := .index (.bare "_r") (.nat i)

/-- The mutation as a function of its list of draws, applied to that list once. -/
def boundExpr (e : Engine) (m : Mutation) (column : Expr) (salt : Int) : Except Error Expr := do
  let draws := (List.range m.drawCount).map fun i =>
    Engine.unit e (salt * 1000 + ((i + 1 : Nat) : Int))
  let body := Expr.lambda "_r" (← withDraws (.of e) m column boundDraw 1)
  match e with
  | .clickhouse =>
    return .call "arrayElement" [.call "arrayMap" [body, .brackets [.brackets draws]], .nat 1]
  | _ =>
    return .call "element_at" [.call "transform" [.array [.array draws], body], .nat 1]

end Mutation
end SyntheticRows
