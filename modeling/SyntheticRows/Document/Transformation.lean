import SyntheticRows.Document.Entries
import SyntheticRows.Spec.Transformation

/-!
# Transformations in documents

Keys of two words may be written `from_table` or `fromTable`.
-/
namespace SyntheticRows.Document

def readMutation (context : String) (entries : Entries) : Except Error Transformation := do
  let edits ← match getD entries "operations" .null with
    | .null => pure none
    | given => (orError .wrongKind given.items?).map fun items => some (Value.list items)
  let column ← require entries "column" context
  Transformation.ofMutation column (← require entries "probability" context) edits

def readLookup (context : String) (entries : Entries) : Except Error Transformation := do
  let joinContext := context ++ " join_on"
  let join ← asMapping joinContext (getD entries "join_on" (getD entries "joinOn" (.mapping [])))
  let column ← require entries "column" context
  let fromTable ← requireEither entries "from_table" "fromTable" context
  let fromColumn ← requireEither entries "from_column" "fromColumn" context
  let targetColumn ← requireEither join "target_column" "targetColumn" joinContext
  let lookupColumn ← requireEither join "lookup_column" "lookupColumn" joinContext
  return .lookup { column, fromTable, fromColumn, targetColumn, lookupColumn }

def readTransformation (context : String) (v : Value) : Except Error Transformation := do
  let entries ← asMapping context v
  let kind ← require entries "type" context
  let name := match kind with
    | .text s => s
    | _ => ""
  match name with
  | "template" =>
    let column ← require entries "column" context
    let template ← require entries "template" context
    return .template ⟨column, template, (getD entries "lowercase" (.bool false)).isPresent⟩
  | "mutate" => readMutation context entries
  | "lookup" => readLookup context entries
  | "swap" =>
    let column1 ← require entries "column1" context
    let column2 ← require entries "column2" context
    Transformation.ofSwap column1 column2 (← require entries "probability" context)
  | _ => refuse (.unknownTransformation context kind)

/-- A batch is a mapping, or the list of its transformations. -/
def readBatch (context : String) (v : Value) : Except Error Batch := do
  let entries ← match v with
    | .list items => pure [(Value.text "transformations", Value.list items)]
    | _ => asMapping context v
  let transformations ← readEach
    (fun i t => readTransformation (context ++ " transformation " ++ toString i) t)
    (getD entries "transformations" (.list []))
  return ⟨transformations, getD entries "description" .null⟩

end SyntheticRows.Document
