import SyntheticRows.Error

/-!
# Entries of a mapping

Looking up entries with the error texts of a document. A context says where in the document a
mapping stands.
-/
namespace SyntheticRows.Document

abbrev Entries := List (Value × Value)

def asMapping (context : String) : Value → Except Error Entries
  | .mapping entries => .ok entries
  | v => refuse (.notMapping context v.kindName)

def require (entries : Entries) (key context : String) : Except Error Value :=
  match Value.find? entries key with
  | some v => .ok v
  | none => refuse (.missingKey context key)

/-- The content of a key, or a default if the key is not there. -/
def getD (entries : Entries) (key : String) (default : Value) : Value :=
  (Value.find? entries key).getD default

/-- The content of either spelling of a key. An absent or empty content counts as missing,
unless it stands under the first spelling. -/
def requireEither (entries : Entries) (key other context : String) : Except Error Value :=
  let v := getD entries key (getD entries other .null)
  if v.isPresent then .ok v else require entries key context

/-- Reads the items of a list in order; each is told its place, counted from 1. -/
def readEach {α : Type} (read : Nat → Value → Except Error α) (items : Value) :
    Except Error (List α) := do
  let items ← orError .wrongKind items.items?
  items.zipIdx.mapM fun i => read (i.2 + 1) i.1

end SyntheticRows.Document
