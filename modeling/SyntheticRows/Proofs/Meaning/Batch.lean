import SyntheticRows.Proofs.Meaning.SharedUpdate
import SyntheticRows.Proofs.Meaning.TrinoUpdates

/-!
# Batches apply their transformations at once

On PostgreSQL, SQLite and Trino the statements of a batch, executed one after the other, do to each
row what all its active transformations do to the row as it was before.
-/
namespace SyntheticRows
open Sql

namespace Target

variable {R : Rules} {t : Target} {scope : Scope} {b : Batch} {actions : List Action} {path : Path}

end Target
end SyntheticRows
