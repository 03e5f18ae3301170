import SyntheticRows.Spec.Check

/-!
# Transformations

A batch of transformations changes the rows of a table; all of them read the values from before
the batch. Column and table names are kept as given.
-/
namespace SyntheticRows

/-- A character edit. -/
inductive Edit where
  | replace
  | delete
  | insert
  deriving DecidableEq, Repr

namespace Edit

def all : List Edit := [replace, delete, insert]

theorem all_ne_nil : all ≠ [] := by decide

theorem all_nodup : all.Nodup := by decide

def name : Edit → String
  | replace => "replace"
  | delete => "delete"
  | insert => "insert"

def ofValue? : Value → Option Edit
  | .text s => all.find? (·.name == s)
  | _ => none

end Edit

/-- Rebuilds a column from literal text and column names in braces. -/
structure Template where
  column : Value
  template : Value
  lowercase : Bool := false

/-- Applies one random edit to a fraction of the rows. -/
structure Mutation where
  column : Value
  probability : Probability
  edits : List Edit
  nonempty : edits ≠ []
  distinct : edits.Nodup

/-- The mutation that may use every edit. -/
def Mutation.withAllEdits (column : Value) (probability : Probability) : Mutation :=
  ⟨column, probability, Edit.all, Edit.all_ne_nil, Edit.all_nodup⟩

/-- Copies a column of another table's row whose `lookupColumn` equals our `targetColumn`. -/
structure Lookup where
  column : Value
  fromTable : Value
  fromColumn : Value
  targetColumn : Value
  lookupColumn : Value

/-- Exchanges two columns on a fraction of the rows. -/
structure Swap where
  column1 : Value
  column2 : Value
  probability : Probability
  distinct : column1.same column2 = false := by rfl

inductive Transformation where
  | template (t : Template)
  | mutation (m : Mutation)
  | lookup (l : Lookup)
  | swap (s : Swap)
  /-- A transformation of a kind that no dialect knows; the kind may have a name. -/
  | other (kind : Option Value)

namespace Transformation
open Spec

/-- The columns written. -/
def assignedColumns : Transformation → List Value
  | template t => [t.column]
  | mutation m => [m.column]
  | lookup l => [l.column]
  | swap s => [s.column1, s.column2]
  | other _ => []

/-- Whether the transformation can change a row: a mutation or swap of probability 0 cannot. -/
def isActive : Transformation → Bool
  | mutation m => (Number.int 0).lt m.probability.val
  | swap s => (Number.int 0).lt s.probability.val
  | _ => true

/-- The list without later repeats. -/
def dedupe (edits : List Edit) : List Edit :=
  edits.foldl (fun seen e => if e ∈ seen then seen else seen ++ [e]) []

theorem dedupe_nodup (edits : List Edit) : (dedupe edits).Nodup := by
  have step : ∀ (es seen : List Edit), seen.Nodup →
      (es.foldl (fun seen e => if e ∈ seen then seen else seen ++ [e]) seen).Nodup := by
    intro es
    induction es with
    | nil => intro seen h; exact h
    | cons e es ih =>
      intro seen h
      apply ih
      by_cases he : e ∈ seen
      · simpa [he] using h
      · simp only [he, if_false, List.nodup_append]
        refine ⟨h, by simp, ?_⟩
        intro a ha b hb hab
        simp only [List.mem_singleton] at hb
        exact he (hb ▸ hab ▸ ha)
  exact step edits [] List.nodup_nil

def readEdit (v : Value) : Except Error Edit :=
  match Edit.ofValue? v with
  | some e => .ok e
  | none => refuse (.notOperation v)

/-- Without `edits` every edit is allowed. -/
def ofMutation (column probability : Value) (edits : Option Value) :
    Except Error Transformation := do
  let p ← checkProbability "mutate" probability
  match edits with
  | none => return .mutation (.withAllEdits column p)
  | some given =>
    let named ← (← checkItems given).mapM readEdit
    if h : dedupe named ≠ [] then
      return .mutation ⟨column, p, dedupe named, h, dedupe_nodup named⟩
    else refuse .noOperations

def ofSwap (column1 column2 probability : Value) : Except Error Transformation := do
  let p ← checkProbability "swap" probability
  if h : column1.same column2 = false then return .swap ⟨column1, column2, p, h⟩
  else refuse (.swapWithItself column1)

end Transformation

/-- Transformations that are applied together. -/
structure Batch where
  transformations : List Transformation := []
  description : Value := .null

namespace Batch

def active (b : Batch) : List Transformation := b.transformations.filter (·.isActive)

/-- Adds columns to those already assigned; the first repeat is refused. -/
def assign (table description : Value) (assigned : List Value) :
    List Value → Except Error (List Value)
  | [] => .ok assigned
  | c :: rest =>
    if !c.isKey then .error (.notKey c)
    else if c.memberOf assigned then refuse (.assignedTwice table c description)
    else assign table description (c :: assigned) rest

/-- Refuses a batch that assigns a column more than once. -/
def checkAssignments (table : Value) (b : Batch) : Except Error Unit := do
  let _ ← assign table b.description [] (b.active.flatMap Transformation.assignedColumns)

end Batch
end SyntheticRows
