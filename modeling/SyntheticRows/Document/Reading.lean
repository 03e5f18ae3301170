import SyntheticRows.Document.Table
import SyntheticRows.Document.Transformation
import SyntheticRows.Spec.Scenario

/-!
# Reading documents

A document is a mapping with the sections `tables`, `database`, `settings` and `scenario`. A step
refers to a declared table by its key or holds a definition of its own.
-/
namespace SyntheticRows.Document

abbrev Tables := List (Value × Table)

def resolveTable (tables : Tables) (context : String) (reference : Value) : Except Error Table :=
  match reference with
  | .text name =>
    match tables.find? (reference.same ·.1) with
    | some e => .ok e.2
    | none => refuse (.unknownTable context name)
  | _ => readTable .null reference

def readBatches (context : String) (entries : Entries) : Except Error (List Batch) :=
  readEach (fun i b => readBatch (context ++ " batch " ++ toString i) b)
    (getD entries "batches" (.list []))

def readGenerate (tables : Tables) (context : String) (v : Value) : Except Error Step := do
  let entries ← asMapping context v
  let table ← resolveTable tables context (← require entries "table" context)
  let rows ← require entries "rows" context
  let batches ← readBatches context entries
  return .generate (← GenerateStep.make table rows batches)

def readTransform (context : String) (v : Value) : Except Error Step := do
  let entries ← asMapping context v
  let tableName ← match ← require entries "table" context with
    | .text name => pure (Value.text name)
    | table => (asMapping context table).map fun e => getD e "name" .null
  return .transform ⟨tableName, ← readBatches context entries⟩

def readStep (tables : Tables) (context : String) (v : Value) : Except Error Step := do
  let entries ← asMapping context v
  match Value.find? entries "generate", Value.find? entries "transform" with
  | some spec, _ => readGenerate tables context spec
  | none, some spec => readTransform context spec
  | none, none => refuse (.notStep context)

def readScenario (tables : Tables) (v : Value) : Except Error Scenario := do
  let entries ← asMapping "scenario" v
  let steps ← readEach
    (fun i s => readStep tables ("scenario step " ++ toString i) s)
    (getD entries "steps" (.list []))
  return ⟨getD entries "name" (.text "scenario"), steps, getD entries "description" .null⟩

/-- The fields of a settings record: a mapping whose keys are texts. -/
def asFields : Value → Except Error Settings.Fields
  | .mapping entries =>
    if entries.all (fun e => match e.1 with | .text _ => true | _ => false) then .ok entries
    else .error .wrongKind
  | _ => .error .wrongKind

/-- A section of the document; null and empty sections count as not there. -/
def section? (entries : Entries) (key : String) : Option Value :=
  (Value.find? entries key).filter Value.isPresent

def readTables (v : Value) : Except Error Tables := do
  let entries ← asMapping "tables" v
  entries.foldlM (fun tables e => do
    return Value.insertEntry e.1 (← readTable e.1 e.2) tables) []

def readSettings {α : Type} (ofFields : Settings.Fields → Except Rejection α) (v : Value) :
    Except Error α := do
  (ofFields (← asFields v)).mapError fun r => .configuration (.invalidDocument r)

def read (v : Value) : Except Error Document := do
  let entries ← asMapping "document" v
  let tables ← readTables ((section? entries "tables").getD (.mapping []))
  let database ← (section? entries "database").mapM (readSettings DatabaseConfig.ofFields)
  let settings ← (section? entries "settings").mapM (readSettings GenerationSettings.ofFields)
  let scenario ← (section? entries "scenario").mapM (readScenario tables)
  return ⟨scenario, tables, database, settings.getD {}⟩

end SyntheticRows.Document
