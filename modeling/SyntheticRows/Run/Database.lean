import SyntheticRows.Value.Basic

/-!
# Databases

A database as a run meets it: the answers that it gives to the queries to come, and the statements
that it refuses.
-/
namespace SyntheticRows

/-- The answer to a query; the names of the columns if rows are read by name. -/
structure ResultSet where
  columns : List String := []
  rows : List (List Value)

/-- Refuses the statements that begin in a certain way: all of them, or only the `nth` one. -/
structure Refusal where
  beginning : String
  reason : String
  nth : Option Int := none
  /-- How many statements have matched so far. -/
  matched : Int := 0

structure Database where
  /-- The answers to come, in order. -/
  results : List ResultSet := []
  refusals : List Refusal := []

namespace Refusal

/-- Counts a statement; the second part tells whether it is refused. -/
def meet (r : Refusal) (statement : String) : Refusal × Bool :=
  if r.beginning.toList.isPrefixOf statement.toList then
    let r := { r with matched := r.matched + 1 }
    (r, match r.nth with
      | none => true
      | some n => r.matched = n)
  else (r, false)

/-- Meets a statement with each refusal in turn, up to the first one that refuses. -/
def meetAll (statement : String) : List Refusal → List Refusal × Option String
  | [] => ([], none)
  | r :: rest =>
    let (r, refused) := r.meet statement
    if refused then (r :: rest, some r.reason)
    else
      let (rest, reason) := meetAll statement rest
      (r :: rest, reason)

end Refusal

namespace Database

/-- Takes a statement; the reason if it is refused. -/
def accept (d : Database) (statement : String) : Option String × Database :=
  let (refusals, reason) := Refusal.meetAll statement d.refusals
  (reason, { d with refusals })

/-- The next answer; a database that has no more gives no rows. -/
def answer (d : Database) : ResultSet × Database :=
  match d.results with
  | [] => (⟨[], []⟩, d)
  | r :: rest => (r, { d with results := rest })

end Database
end SyntheticRows
