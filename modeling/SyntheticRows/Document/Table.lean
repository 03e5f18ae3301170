import SyntheticRows.Document.Generator
import SyntheticRows.Spec.Table

/-!
# Tables in documents
-/
namespace SyntheticRows.Document

def readColumn (context : String) (v : Value) : Except Error Column := do
  let entries ← asMapping context v
  let name ← require entries "name" context
  let context := context ++ " " ++ (← name.shown)
  let given ← orError .missingEntry (Value.find? entries "type")
  let type ← match given with
    | .text s =>
      match ColumnType.ofName? s with
      | some t => Except.ok t
      | none => refuse (.unknownColumnType context given)
    | _ => refuse (.unknownColumnType context given)
  let generator ← require entries "generator" context >>= readGenerator (context ++ " generator")
  let probability := getD entries "null_probability"
    (getD entries "nullProbability" (.float .zero))
  Column.make name (.inl type) generator (getD entries "nullable" (.bool false)).isPresent
    probability

/-- The name is the one in the mapping, or else the default. -/
def readTable (default : Value) (v : Value) : Except Error Table := do
  let entries ← asMapping "table" v
  let name := getD entries "name" default
  if !name.isPresent then refuse (.missingKey "table" "name")
  let context := "table " ++ (← name.shown)
  match ← require entries "columns" context with
  | .list items =>
    let columns ← items.mapM (readColumn (context ++ " column"))
    Table.make name columns (getD entries "description" .null)
  | _ => refuse (.columnsNotList name)

end SyntheticRows.Document
