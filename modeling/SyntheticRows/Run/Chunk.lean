import SyntheticRows.Error

/-!
# Chunks

Rows are written in chunks, all of the same size but the last.
-/
namespace SyntheticRows

/-- How many chunks of the full size there are. -/
def fullChunks (rows size : Int) : Int := rows.fdiv size

/-- Full chunks, and a last one for the rows that remain. -/
def splitRows (rows size : Int) : List Int :=
  let rest := rows.fmod size
  List.replicate (fullChunks rows size).toNat size ++ (if rest = 0 then [] else [rest])

/-- The chunk sizes for `rows` rows. Without a size, or with one that covers all rows, there is
one chunk; no rows make no chunk. -/
def planChunks (rows : Int) (size : Option Int) : Except Error (List Int) :=
  if rows ≤ 0 then .ok []
  else match size with
    | none => .ok [rows]
    | some n =>
      if n = 0 ∨ rows ≤ n then .ok [rows]
      else do
        checkSize (fullChunks rows n)
        return splitRows rows n

end SyntheticRows
