import SyntheticRows.Spec.Generator

/-!
# Columns and tables

Names are kept as they were given; only what is absent or empty is refused here. A name that is no
text is refused when a statement is written.
-/
namespace SyntheticRows

/-- Logical column types; each engine has a physical type for each. -/
inductive ColumnType where
  | integer
  | bigint
  | float
  | string
  | boolean
  | datetime
  | date
  deriving DecidableEq, Repr

namespace ColumnType

def all : List ColumnType := [integer, bigint, float, string, boolean, datetime, date]

def name : ColumnType → String
  | integer => "integer"
  | bigint => "bigint"
  | float => "float"
  | string => "string"
  | boolean => "boolean"
  | datetime => "datetime"
  | date => "date"

def ofName? (name : String) : Option ColumnType := all.find? (·.name == name)

end ColumnType

/-- A column and the rule that fills it. -/
structure Column where
  name : Value
  type : ColumnType
  generator : Generator
  nullable : Bool := false
  nullProbability : Probability := .zero
  named : name.isPresent = true := by rfl

namespace Column
open Spec

/-- The probability that is applied: a column that is not nullable never gets a null. -/
def effectiveNullProbability (c : Column) : Number :=
  if c.nullable then c.nullProbability.val else .float .zero

/-- `type` is a column type, or whatever stands in its place. -/
def make (name : Value) (type : ColumnType ⊕ Value) (generator : Generator) (nullable : Bool)
    (nullProbability : Value) : Except Error Column := do
  if h : name.isPresent = true then
    match type with
    | .inr given => refuse (.notColumnType name given)
    | .inl type =>
      let owner := "column " ++ (← name.shown)
      let p ← checkFinite owner "null_probability" nullProbability
      if hp : p.val.inUnit = true then return ⟨name, type, generator, nullable, ⟨p.val, hp⟩, h⟩
      else refuse (.notColumnProbability name p.val)
  else refuse .emptyColumnName

end Column

/-- Whether no name occurs twice. -/
def distinctNames : List Value → Bool
  | [] => true
  | n :: rest => rest.all (fun m => !m.same n) && distinctNames rest

/-- A table definition. The first column is the sort key where an engine needs one. -/
structure Table where
  name : Value
  columns : List Column
  description : Value := .null
  named : name.isPresent = true := by rfl
  nonempty : columns ≠ [] := by simp
  distinct : distinctNames (columns.map Column.name) = true := by decide

namespace Table

def columnNames (t : Table) : List Value := t.columns.map Column.name

def getColumn? (t : Table) (name : Value) : Option Column := t.columns.find? (·.name.same name)

/-- The column consulted when sequences are resumed. -/
def firstSequence? (t : Table) : Option (Column × Sequence) :=
  t.columns.findSome? fun c => match c.generator with
    | .sequence s => some (c, s)
    | _ => none

/-- What is wrong with the first name that cannot be compared or was seen before. -/
def nameProblem? (table : Value) (seen : List Value) : List Value → Option Error
  | [] => none
  | n :: rest =>
    if !n.isKey then some (.notKey n)
    else if n.memberOf seen then some (.configuration (.duplicateColumn table n))
    else nameProblem? table (n :: seen) rest

theorem not_memberOf_of_nameProblem? {table : Value} {names seen : List Value}
    (h : nameProblem? table seen names = none) : ∀ n ∈ names, n.memberOf seen = false := by
  induction names generalizing seen with
  | nil => simp
  | cons n rest ih =>
    simp only [nameProblem?] at h
    split at h
    · cases h
    · split at h
      · cases h
      · rename_i hn
        intro m hm
        rcases List.mem_cons.1 hm with rfl | hm
        · simpa using hn
        · have := ih h m hm
          simp only [Value.memberOf, List.any_cons, Bool.or_eq_false_iff] at this ⊢
          exact this.2

theorem distinctNames_of_nameProblem? {table : Value} {names seen : List Value}
    (h : nameProblem? table seen names = none) : distinctNames names = true := by
  induction names generalizing seen with
  | nil => rfl
  | cons n rest ih =>
    simp only [nameProblem?] at h
    split at h
    · cases h
    · split at h
      · cases h
      · have hr := not_memberOf_of_nameProblem? h
        simp only [distinctNames, Bool.and_eq_true, List.all_eq_true]
        refine ⟨fun m hm => ?_, ih h⟩
        have := hr m hm
        simp only [Value.memberOf, List.any_cons, Bool.or_eq_false_iff] at this
        simp [this.1]

def make (name : Value) (columns : List Column) (description : Value) : Except Error Table :=
  if hn : name.isPresent = true then
    if hc : columns ≠ [] then
      match hp : nameProblem? name [] (columns.map Column.name) with
      | some e => .error e
      | none =>
        .ok ⟨name, columns, description, hn, hc, distinctNames_of_nameProblem? hp⟩
    else refuse (.noColumns name)
  else refuse .emptyTableName

end Table
end SyntheticRows
