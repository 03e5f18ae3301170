import SyntheticRows.Compile.Template
import SyntheticRows.Proofs.Meaning.Statement
import SyntheticRows.Spec.Transformation
import SyntheticRows.Sql.Target

/-!
# What transformations mean

What a transformation assigns to a row, given the row, the tables and what it draws, without
regard to any statement. `Simultaneous` is the meaning of several transformations at once: all of
them read the same row.
-/
namespace SyntheticRows
open Sql

/-- A unit draw of an engine: any number from 0 to below 1, or one of its multiples of a power of
two. -/
def Engine.IsDraw : Engine → ℚ → Prop
  | .postgresql, q | .trino, q => 0 ≤ q ∧ q < 1
  | .sqlite, q => ∃ n : ℕ, n < 2 ^ 63 ∧ q = n / 2 ^ 63
  | .clickhouse, q => ∃ n : ℕ, n < 2 ^ 32 ∧ q = n / 2 ^ 32

/-- How an engine takes one of several rows that a lookup finds. -/
def Engine.taking : Engine → Taking
  | .postgresql | .sqlite => .limit
  | .trino | .clickhouse => .aggregate

/-- What a transformation draws for one row; each kind uses what it needs. -/
structure Chance where
  gate : ℚ
  choice : ℚ
  place : ℚ

def Chance.IsFor (e : Engine) (c : Chance) : Prop :=
  e.IsDraw c.gate ∧ e.IsDraw c.choice ∧ e.IsDraw c.place

/-- The text of a content that is not null. -/
def Rules.text? (R : Rules) : Datum → Option String
  | .null => none
  | x => some (R.toText x)

def Datum.ofText? : Option String → Datum
  | none => .null
  | some s => .text s

namespace Template

/-- The text that a piece stands for in a row; none for a column that is null. -/
def pieceText (R : Rules) (columns : List Value) (row : Row) : Piece → Option String
  | .text content => some (String.ofList content)
  | .placeholder name =>
    if isColumn columns name then R.text? ((row (String.ofList name)).getD .null)
    else some (String.ofList (braced name))

/-- The columns that the placeholders name. -/
def reads (columns : List Value) (text : List Char) : List String :=
  (pieces text).filterMap fun
    | .placeholder name => if isColumn columns name then some (String.ofList name) else none
    | .text _ => none

/-- The texts put together; none if one of them is. -/
def joined : List (Option String) → Option String
  | [] => some ""
  | p :: rest => p.bind fun s => (joined rest).map (s ++ ·)

/-- What a template makes of a row; null if one of its pieces is. -/
def content (R : Rules) (columns : List Value) (row : Row) (lowercase : Bool)
    (text : List Char) : Datum :=
  .ofText? ((joined ((pieces text).map (pieceText R columns row))).map
    (if lowercase then R.lower else id))

end Template

/-- The edit of a text at a place, counted from 0. -/
def Edit.applied (place : ℕ) (cs : List Char) : Edit → List Char
  | replace => cs.take place ++ Mutation.mark.toList ++ cs.drop (place + 1)
  | delete => cs.take place ++ cs.drop (place + 1)
  | insert => cs.take place ++ Mutation.mark.toList ++ cs.drop place

namespace Mutation

/-- Where the `i`-th of `n` edits ends in the unit interval. -/
def threshold (i n : ℕ) : ℚ := (Double.ofRatio false (i + 1) n).toRat

/-- The edit that a draw chooses; the last one takes what remains. -/
def chosen (m : Mutation) (choice : ℚ) : Edit :=
  ((m.edits.dropLast.zipIdx.find? fun e => choice < threshold e.2 m.edits.length).map
    Prod.fst).getD (m.edits.getLast m.nonempty)

/-- A text is edited at a random place if the gate opens; null and the empty text stay. -/
def content (R : Rules) (m : Mutation) (c : Chance) (x : Datum) : Datum :=
  match R.text? x with
  | none => x
  | some s =>
    if c.gate < m.probability.val.toRat ∧ s ≠ "" then
      .text (String.ofList
        ((m.chosen c.choice).applied ⌊c.place * s.toList.length⌋.toNat s.toList))
    else x

end Mutation

/-- What the columns assigned by a transformation get in a row. -/
inductive Transformation.Gives (R : Rules) (t : Target) (tables : Store) (columns : List Value)
    (row : Row) : Transformation → Chance → List (String × Datum) → Prop
  | template {tr : Template} {column text : String} {c : Chance} :
    tr.column = .text column → (row column).isSome → tr.template = .text text →
    (∀ name ∈ Template.reads columns text.toList, (row name).isSome) →
    Gives R t tables columns row (.template tr) c
      [(column, Template.content R columns row tr.lowercase text.toList)]
  | mutation {m : Mutation} {column : String} {x : Datum} {c : Chance} :
    m.column = .text column → row column = some x →
    Gives R t tables columns row (.mutation m) c [(column, m.content R c x)]
  | lookup {l : Lookup} {column target : String} {x v : Datum} {source : Path}
      {key wanted : Ident} {c : Chance} :
    l.column = .text column → (row column).isSome → l.targetColumn = .text target →
    row target = some x → t.tableRef l.fromTable = .ok source →
    t.ident l.lookupColumn = .ok key → t.ident l.fromColumn = .ok wanted →
    Finds R tables R.engine.taking source key wanted x v →
    Gives R t tables columns row (.lookup l) c [(column, v)]
  | swap {s : Swap} {first second : String} {x y : Datum} {c : Chance} :
    s.column1 = .text first → s.column2 = .text second → row first = some x →
    row second = some y →
    Gives R t tables columns row (.swap s) c
      (if c.gate < s.probability.val.toRat then [(first, y), (second, x)]
      else [(first, x), (second, y)])

namespace Transformation

/-- The texts among values; only a text can name a column. -/
def names (values : List Value) : List String :=
  values.filterMap fun
    | .text s => some s
    | _ => none

/-- The names of the columns that the transformation assigns. -/
def assigned (tr : Transformation) : List String := names tr.assignedColumns

/-- The names of the columns whose contents matter to the transformation. -/
def reads (columns : List Value) : Transformation → List String
  | template tr => match tr.template with
    | .text s => Template.reads columns s.toList
    | _ => []
  | mutation m => names [m.column]
  | lookup l => names [l.targetColumn]
  | swap s => names [s.column1, s.column2]
  | other _ => []

end Transformation

/-- The value names a column of the row. -/
def Row.Has (row : Row) (v : Value) : Prop := ∃ c, v = .text c ∧ (row c).isSome

/-- The table that is looked up is there, and in all of its rows what is compared and taken. -/
def Lookup.IsThere (t : Target) (tables : Store) (l : Lookup) : Prop :=
  ∃ source key wanted rows, t.tableRef l.fromTable = .ok source ∧
    t.ident l.lookupColumn = .ok key ∧ t.ident l.fromColumn = .ok wanted ∧
    tables source = some rows ∧ ∀ row ∈ rows, (row key.name).isSome ∧ (row wanted.name).isSome

/-- The columns and the table that the transformation names are there. -/
def Transformation.Fits (t : Target) (tables : Store) (columns : List Value) (row : Row) :
    Transformation → Prop
  | template tr => row.Has tr.column ∧ ∃ s, tr.template = .text s ∧
    ∀ n ∈ Template.reads columns s.toList, (row n).isSome
  | mutation m => row.Has m.column
  | lookup l => row.Has l.column ∧ row.Has l.targetColumn ∧ l.IsThere t tables
  | swap s => row.Has s.column1 ∧ row.Has s.column2
  | other _ => False

/-- All transformations applied to a row at once, each with what it draws. -/
def Simultaneous (R : Rules) (t : Target) (tables : Store) (columns : List Value)
    (trs : List (Transformation × Chance)) (row row' : Row) : Prop :=
  ∃ gs, List.Forall₂ (fun a g => a.1.Gives R t tables columns row a.2 g) trs gs ∧
    row' = row.assign gs.flatten

/-- All transformations applied to a row at once, with any draws. -/
def Transforms (R : Rules) (t : Target) (tables : Store) (columns : List Value)
    (trs : List Transformation) (row row' : Row) : Prop :=
  ∃ cs : List (Transformation × Chance), cs.map Prod.fst = trs ∧
    (∀ a ∈ cs, a.2.IsFor R.engine) ∧ Simultaneous R t tables columns cs row row'

end SyntheticRows
