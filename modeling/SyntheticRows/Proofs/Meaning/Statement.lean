import Mathlib.Logic.Function.Basic
import SyntheticRows.Proofs.Compile.Returns
import SyntheticRows.Proofs.Meaning.Row
import SyntheticRows.Sql.Statement

/-!
# What statements do

The statements of transformations as steps between stores. An update reads each row as it was when
the statement started, and a draw bound by the statement has one value per row. A rebuild reads one
row at a time too, joined with one row per key of each table that is looked up.
-/
namespace SyntheticRows
open Sql

namespace Store

/-- The store with the rows of a table replaced. -/
def set (σ : Store) (table : Path) (rows : List Row) : Store :=
  Function.update σ table (some rows)

def remove (σ : Store) (table : Path) : Store := Function.update σ table none

variable {σ : Store} {table other : Path} {rows rows' : List Row}

@[simp] theorem set_same : σ.set table rows table = some rows := Function.update_self ..

theorem set_other (h : other ≠ table) : σ.set table rows other = σ other :=
  Function.update_of_ne h ..

@[simp] theorem set_set : (σ.set table rows).set table rows' = σ.set table rows' :=
  Function.update_idem ..

@[simp] theorem set_self (h : σ table = some rows) : σ.set table rows = σ := by
  rw [set, ← h, Function.update_eq_self]

end Store

/-- ClickHouse draws whole numbers of 32 bits. -/
def IsRand (rand : Int → ℕ) : Prop := ∀ tag, rand tag < 2 ^ 32

/-- Draws that are bound to names. -/
def Binds (R : Rules) (env : Env) (draws : List (String × Expr))
    (bound : List (String × Datum)) : Prop :=
  List.Forall₂ (fun d b => b.1 = d.1 ∧ Yields R env d.2 b.2) draws bound

namespace Sql.Update

/-- What names mean in an update: the columns of the row, with or without the name of the table,
and the bound draws. -/
def resolve (u : Update) (row : Row) (bound : List (String × Datum)) : Path → Option Datum
  | [.given c] => row c.name
  | [.given t, .given c] => if u.table.getLast? = some (.given t) then row c.name else none
  | [.bare d, .bare r] => if d = "_d" then entry bound r else none
  | _ => none

def env (u : Update) (σ : Store) (row : Row) (rand : Int → ℕ) (bound : List (String × Datum)) :
    Env where
  resolve := u.resolve row bound
  tables := σ
  rand

/-- The contents that the assignments give to their columns. -/
def Assigns (R : Rules) (env : Env) (assignments : List (Ident × Expr))
    (contents : List (String × Datum)) : Prop :=
  List.Forall₂ (fun a c => c.1 = a.1.name ∧ Yields R env a.2 c.2) assignments contents

/-- What an update makes of one row, which has to have the columns that are assigned. -/
def Changes (R : Rules) (σ : Store) (u : Update) (row row' : Row) : Prop :=
  (∀ a ∈ u.assignments, (row a.1.name).isSome) ∧
    ∃ rand bound, IsRand rand ∧ Binds R (u.env σ row rand []) u.draws bound ∧
      ((∀ c ∈ u.condition, Yields R (u.env σ row rand bound) c (.bool true)) ∧
          (∃ contents, Assigns R (u.env σ row rand bound) u.assignments contents ∧
            row' = row.assign contents) ∨
        (∃ c ∈ u.condition, ∃ v, Yields R (u.env σ row rand bound) c v ∧ v ≠ .bool true) ∧
          row' = row)

end Sql.Update

/-- A row of a rebuild: the copied row, the draws bound for it, and what was joined to it. -/
structure Wide where
  row : Row
  rand : Int → ℕ
  bound : List (String × Datum)
  joined : List (String × Datum) := []

namespace Wide

def resolve (w : Wide) : Path → Option Datum
  | [.bare a, .given c] => if a = "_src" then w.row c.name else none
  | [.bare a, .bare b] =>
    if a = "_src" then entry w.bound b else if b = "_v" then entry w.joined a else none
  | _ => none

def env (w : Wide) (σ : Store) : Env where
  resolve := w.resolve
  tables := σ
  rand := w.rand

def join (w : Wide) (label : String) (v : Datum) : Wide :=
  { w with joined := w.joined ++ [(label, v)] }

end Wide

/-- One pair for each key of a table: the key, and what was taken from one of the rows with it. Null
is taken only if all of these rows hold it. -/
structure IsGrouping (R : Rules) (rows : List Row) (key wanted : Ident)
    (groups : List (Datum × Datum)) : Prop where
  distinct : (groups.map fun g => R.canon g.1).Nodup
  covers : ∀ row ∈ rows, ∃ k, row key.name = some k ∧ ∃ g ∈ groups, R.canon g.1 = R.canon k
  taken : ∀ g ∈ groups, ∃ row ∈ rows, ∃ k, row key.name = some k ∧ R.canon k = R.canon g.1 ∧
    row wanted.name = some g.2
  full : ∀ g ∈ groups, g.2 = .null → ∀ row ∈ rows, ∀ k, row key.name = some k →
    R.canon k = R.canon g.1 → row wanted.name = some .null
  readable : ∀ row ∈ rows, (row wanted.name).isSome

namespace Sql

/-- The left join of one row with the groups of a table: one row for each group that matches, and
one with null if none does. -/
def LookupJoin.Extends (R : Rules) (σ : Store) (j : LookupJoin) (groups : List (Datum × Datum))
    (w : Wide) (ws : List Wide) : Prop :=
  open Classical in
  ∃ x, Yields R (w.env σ) j.target x ∧
    ((∀ g ∈ groups, ¬R.Equals g.1 x) ∧ ws = [w.join j.label .null] ∨
      (∃ g ∈ groups, R.Equals g.1 x) ∧
        ws = (groups.filter fun g => R.Equals g.1 x).map fun g => w.join j.label g.2)

/-- The left join of a list of rows. -/
def LookupJoin.ExtendsAll (R : Rules) (σ : Store) (ws : List Wide)
    (j : LookupJoin × List (Datum × Datum)) (ws' : List Wide) : Prop :=
  ∃ wss, List.Forall₂ (j.1.Extends R σ j.2) ws wss ∧ ws' = wss.flatten

namespace Rebuild

/-- The inner query: the row as it is, and its draws. -/
def Selects (R : Rules) (σ : Store) (r : Rebuild) (row : Row) (w : Wide) : Prop :=
  w.row = row ∧ w.joined = [] ∧ IsRand w.rand ∧
    Binds R ({ w with bound := [] }.env σ) r.draws w.bound

/-- The row that is put into the shadow. -/
def Projects (R : Rules) (σ : Store) (r : Rebuild) (w : Wide) (row' : Row) : Prop :=
  ∃ vs, YieldsAll R (w.env σ) r.values vs ∧
    row' = Row.assign (fun _ => none) ((r.columns.map Ident.name).zip vs)

/-- The rows that a rebuild computes from those of the table. -/
def Computes (R : Rules) (σ : Store) (r : Rebuild) (rows rows' : List Row) : Prop :=
  ∃ selected groups joined, List.Forall₂ (r.Selects R σ) rows selected ∧
    List.Forall₂ (fun j g => ∃ source, σ j.source = some source ∧
      IsGrouping R source j.key j.wanted g) r.joins groups ∧
    Folded (LookupJoin.ExtendsAll R σ) selected (r.joins.zip groups) joined ∧
    List.Forall₂ (r.Projects R σ) joined rows'

end Rebuild
end Sql

/-- One statement takes one store to another. -/
inductive Executes (R : Rules) : Store → Statement → Store → Prop
  | update {σ : Store} {u : Update} {rows rows' : List Row} : σ u.table = some rows →
    List.Forall₂ (u.Changes R σ) rows rows' →
    Executes R σ (.update u) (σ.set u.table rows')
  | createLike {σ : Store} {table model : Path} {rows : List Row} : σ table = none →
    σ model = some rows → Executes R σ (.createLike table model) (σ.set table [])
  | rebuild {σ : Store} {r : Rebuild} {rows before rows' : List Row} : σ r.table = some rows →
    σ r.shadow = some before → r.Computes R σ rows rows' →
    Executes R σ (.rebuild r) (σ.set r.shadow (before ++ rows'))
  | exchange {σ : Store} {table shadow old : Path} {rows rows' : List Row} :
    σ table = some rows → σ shadow = some rows' → σ old = none → table ≠ shadow →
    Executes R σ (.exchange table shadow old) (((σ.set old rows).set table rows').remove shadow)
  | drop {σ : Store} {table : Path} : Executes R σ (.drop table) (σ.remove table)

/-- Statements executed one after the other. -/
abbrev ExecutesAll (R : Rules) : Store → List Statement → Store → Prop := Folded (Executes R)

theorem executes_update {R : Rules} {σ σ' : Store} {u : Update} {rows : List Row}
    (h : σ u.table = some rows) :
    Executes R σ (.update u) σ' ↔
      ∃ rows', σ' = σ.set u.table rows' ∧ List.Forall₂ (u.Changes R σ) rows rows' := by
  constructor
  · intro hx
    cases hx with
    | update h' hc =>
      cases h.symm.trans h'
      exact ⟨_, rfl, hc⟩
  · rintro ⟨rows', rfl, hc⟩
    exact .update h hc

theorem executesAll_update {R : Rules} {σ σ' : Store} {u : Update} {rows : List Row}
    (h : σ u.table = some rows) :
    ExecutesAll R σ [.update u] σ' ↔
      ∃ rows', σ' = σ.set u.table rows' ∧ List.Forall₂ (u.Changes R σ) rows rows' := by
  simp only [Folded.cons_iff, Folded.nil_iff, exists_eq_right', executes_update h]

end SyntheticRows
