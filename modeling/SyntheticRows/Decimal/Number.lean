import SyntheticRows.Decimal.Shortest
import SyntheticRows.Decimal.Reading

/-!
# Numbers

Specifications give numbers as whole numbers of any size or as doubles. Comparisons between the
two kinds are exact.
-/
namespace SyntheticRows

inductive Number where
  | int (i : Int)
  | float (x : Double)
  deriving DecidableEq, Repr, Inhabited

namespace Number

def compare? : Number → Number → Option Ordering
  | .int i, .int j => some (compare i j)
  | .int i, .float y => (y.compareInt? i).map Ordering.swap
  | .float x, .int j => x.compareInt? j
  | .float x, .float y => x.compare? y

def lt (a b : Number) : Bool := a.compare? b == some .lt

def le (a b : Number) : Bool := a.compare? b == some .lt || a.compare? b == some .eq

/-- The nearest double; none for a whole number beyond the largest double. -/
def toDouble? : Number → Option Double
  | .float x => some x
  | .int i => if (Double.ofInt i).isFinite then some (Double.ofInt i) else none

/-- The difference: exact for whole numbers, a rounded double otherwise. -/
def sub? : Number → Number → Option Number
  | .int i, .int j => some (.int (i - j))
  | a, b => do return .float ((← a.toDouble?).sub (← b.toDouble?))

def toText : Number → String
  | .int i => toString i
  | .float x => x.toText

end Number
end SyntheticRows
