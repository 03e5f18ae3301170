import SyntheticRows.Error

/-!
# Checked numbers

The numbers of a specification: whole ones, finite ones and probabilities. A truth value is not
a number here.
-/
namespace SyntheticRows

/-- Whether the number has a finite double next to it. -/
def Number.isFinite : Number → Bool
  | .int i => (Double.ofInt i).isFinite
  | .float x => x.isFinite

abbrev FiniteNumber := { n : Number // n.isFinite = true }

/-- Whether the number lies between 0 and 1. -/
def Number.inUnit (n : Number) : Bool := (Number.int 0).le n && n.le (.int 1)

abbrev Probability := { n : Number // n.inUnit = true }

def Probability.zero : Probability := ⟨.float .zero, by decide +kernel⟩

namespace Spec

def checkWhole (owner field : String) : Value → Except Error Int
  | .int i => .ok i
  | v => refuse (.notInteger owner field v)

/-- A whole number beyond the largest double is out of range rather than refused. -/
def checkFinite (owner field : String) (v : Value) : Except Error FiniteNumber :=
  match v with
  | .int i =>
    if h : (Number.int i).isFinite = true then .ok ⟨.int i, h⟩ else .error .numberTooLarge
  | .float x =>
    if h : (Number.float x).isFinite = true then .ok ⟨.float x, h⟩
    else refuse (.notFinite owner field v)
  | _ => refuse (.notFinite owner field v)

def checkProbability (owner : String) (v : Value) : Except Error Probability := do
  let n ← checkFinite owner "probability" v
  if h : n.val.inUnit = true then return ⟨n.val, h⟩
  else refuse (.notProbability owner n.val)

/-- The name of an unknown kind for messages. -/
def kindLabel (kind : Option Value) : String :=
  match kind with
  | some k => k.display
  | none => "Unknown"

/-- The items of a value that has any. -/
def checkItems (v : Value) : Except Error (List Value) := orError .wrongKind v.items?

end Spec
end SyntheticRows
