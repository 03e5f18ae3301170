import Mathlib.Data.Int.Notation
import SyntheticRows.Proofs.Compile.Failure
import SyntheticRows.Sql.Lookup

/-!
# Draws in expressions

The calls of an expression that draw, each with its tag. ClickHouse computes equal calls of a
statement once, so draws of one function with one tag are one draw.
-/
namespace SyntheticRows
open Sql

namespace Sql

/-- The functions that draw on ClickHouse. -/
def drawFunctions : List String := ["rand", "rand64", "generateUUIDv4"]

/-- A call that draws: its function, and the tag if it has one. -/
abbrev Draw := String × Option ℤ

/-- The tag of a call is its only argument. -/
def tagOf : List Expr → Option ℤ
  | [.literal (.int i)] => some i
  | _ => none

/-- The draw that a call itself is, if its function draws. -/
def drawOf (function : String) (arguments : List Expr) : List Draw :=
  if function ∈ drawFunctions then [(function, tagOf arguments)] else []

namespace Expr

mutual

/-- The calls that draw, from left to right. -/
def draws : Expr → List Draw
  | literal _ | decimal _ | verbatim _ | name _ | lookup _ => []
  | paren x | cast x _ | convert x _ | isNotNull x | lambda _ x | atUtc x => draws x
  | binary _ a b | index a b => draws a ++ draws b
  | call f items => drawOf f items ++ drawsOfAll items
  | array items | brackets items => drawsOfAll items
  | caseWhen branches otherwise => drawsOfBranches branches ++ draws otherwise
  | caseOf subject branches => draws subject ++ drawsOfBranches branches

def drawsOfAll : List Expr → List Draw
  | [] => []
  | x :: rest => draws x ++ drawsOfAll rest

def drawsOfBranches : List (Expr × Expr) → List Draw
  | [] => []
  | (condition, result) :: rest => draws condition ++ draws result ++ drawsOfBranches rest

end

section Parts

attribute [local simp] draws drawsOfAll drawsOfBranches drawOf drawFunctions tagOf

variable {x y : Expr} {items : List Expr} {n tag : ℤ}

theorem drawsOfAll_eq_flatMap : drawsOfAll items = items.flatMap draws := by
  induction items with
  | nil => rfl
  | cons x items ih => simp [ih]

theorem draws_chain {op : Operator} {rest : List Expr} :
    (chain op x rest).draws = (x :: rest).flatMap draws := by
  induction rest generalizing x with
  | nil => simp [chain]
  | cons y rest ih =>
    have step : chain op x (y :: rest) = chain op (binary op x y) rest := rfl
    rw [step, ih]
    simp

theorem draws_operand (l : Literal) : (operand l).draws = [] := by
  unfold operand
  split <;> rfl

theorem draws_given {i : ℤ} (h : given i = .ok x) : x.draws = [] := by
  obtain ⟨l, _, rfl⟩ := except_ok_of_map h
  rfl

theorem draws_ofInt {i : ℤ} (h : ofInt i = .ok x) : x.draws = [] := by
  obtain ⟨l, _, rfl⟩ := except_ok_of_map h
  exact draws_operand l

theorem draws_ofFloat {d : Double} (h : ofFloat d = .ok x) : x.draws = [] := by
  obtain ⟨l, _, h⟩ := except_ok_of_bind h
  obtain rfl := Except.ok.inj h
  exact draws_operand l

theorem draws_ofNumber {i : Number} (h : ofNumber i = .ok x) : x.draws = [] := by
  cases i with
  | int i => exact draws_ofInt h
  | float d => exact draws_ofFloat h

theorem draws_literal {e : Engine} {v : Value} (h : (Dialect.of e).literal v = .ok x) :
    x.draws = [] := by
  obtain ⟨_, _, h⟩ := except_ok_of_bind h
  obtain ⟨l, _, h⟩ := except_ok_of_bind h
  obtain rfl := Except.ok.inj h
  rfl

theorem draws_unit (tag : ℤ) : (Engine.unit .clickhouse tag).draws = [("rand", some tag)] := rfl

theorem draws_integer (h : Engine.integer .clickhouse n tag = .ok x) :
    x.draws = [("rand64", some tag)] := by
  obtain ⟨width, given, h⟩ := except_ok_of_bind h
  obtain rfl := Except.ok.inj h
  simp [int, draws_given given]

theorem draws_arrayPosition (h : Dialect.arrayPosition .clickhouse n tag = .ok x) :
    x.draws = [("rand64", some tag)] := by
  obtain ⟨draw, integer, h⟩ := except_ok_of_bind h
  obtain rfl := Except.ok.inj h
  simp [add, nat, int, draws_integer integer]

/-- A pick draws once, whatever the items. -/
theorem draws_pick (none : items.flatMap draws = [])
    (h : (Dialect.of .clickhouse).pick items n tag = .ok x) :
    x.draws = [("rand64", some tag)] := by
  obtain ⟨_, engine, h⟩ := except_ok_of_bind h
  cases engine
  obtain ⟨position, drawn, h⟩ := except_ok_of_bind h
  obtain rfl := Except.ok.inj h
  simp [drawsOfAll_eq_flatMap, none, draws_arrayPosition drawn]

theorem draws_lookupPick {name : String}
    (h : (Dialect.of .clickhouse).lookupPick name n tag = .ok x) :
    x.draws = [("rand64", some tag)] := by
  obtain ⟨_, engine, h⟩ := except_ok_of_bind h
  cases engine
  obtain ⟨position, drawn, h⟩ := except_ok_of_bind h
  obtain rfl := Except.ok.inj h
  simp [bare, draws_arrayPosition drawn]

theorem draws_fromEpoch (h : (Dialect.of .clickhouse).fromEpoch x = .ok y) :
    y.draws = x.draws := by
  obtain rfl := Except.ok.inj h
  simp [word]

/-- The draw of a null comes before those of the expression. -/
theorem draws_nullWrap {probability : Expr} (hp : probability.draws = [])
    (h : (Dialect.of .clickhouse).nullWrap x probability tag = .ok y) :
    y.draws = ("rand", some tag) :: x.draws := by
  obtain rfl := Except.ok.inj h
  simp [less, null, hp, draws_unit]

end Parts

end Expr
end Sql
end SyntheticRows
