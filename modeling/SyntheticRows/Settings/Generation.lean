import SyntheticRows.Settings.Field

/-!
# Settings of a run

How rows are written: chunk size, what happens to the table before and after, how strict
templates are.
-/
namespace SyntheticRows

/-- The most rows that one INSERT writes; at least one. -/
abbrev BatchSize := { n : Nat // 0 < n }

structure GenerationSettings where
  batchSize : Option BatchSize := none
  createTable : Bool := true
  dropFirst : Bool := false
  truncateFirst : Bool := false
  resumeSequences : Bool := true
  optimize : Bool := true
  strictTemplates : Bool := false
  showProgress : Bool := false
  deriving DecidableEq

namespace GenerationSettings
open Settings

def recordName : String := "GenerationSettings"

def fieldNames : List String :=
  ["batch_size", "create_table", "drop_first", "truncate_first", "resume_sequences", "optimize",
    "strict_templates", "show_progress"]

def positive (i : Option Int) : Except String (Option BatchSize) :=
  match i with
  | none => .ok none
  | some n =>
    if h : 0 < n.toNat then .ok (some ⟨n.toNat, h⟩) else .error "batch_size must be positive"

/-- Builds settings from fields; what is not given has its default, unknown fields are ignored. -/
def ofFields (fields : Fields) : Except Rejection GenerationSettings :=
  let batchSize := readField fields "batch_size"
    (readChecked (readOptional readInteger) positive) none
  let createTable := readField fields "create_table" readBool true
  let dropFirst := readField fields "drop_first" readBool false
  let truncateFirst := readField fields "truncate_first" readBool false
  let resumeSequences := readField fields "resume_sequences" readBool true
  let optimize := readField fields "optimize" readBool true
  let strictTemplates := readField fields "strict_templates" readBool false
  let showProgress := readField fields "show_progress" readBool false
  let settings : Except FieldProblem GenerationSettings := do
    return {
      batchSize := ← batchSize
      createTable := ← createTable
      dropFirst := ← dropFirst
      truncateFirst := ← truncateFirst
      resumeSequences := ← resumeSequences
      optimize := ← optimize
      strictTemplates := ← strictTemplates
      showProgress := ← showProgress }
  settings.mapError fun _ => ⟨recordName,
    problemOf batchSize ++ problemOf createTable ++ problemOf dropFirst ++
      problemOf truncateFirst ++ problemOf resumeSequences ++ problemOf optimize ++
      problemOf strictTemplates ++ problemOf showProgress⟩

/-- The record as fields, in declaration order. -/
def toFields (s : GenerationSettings) : List (String × Value) :=
  [("batch_size", match s.batchSize with
      | none => .null
      | some n => .int n.val),
    ("create_table", .bool s.createTable), ("drop_first", .bool s.dropFirst),
    ("truncate_first", .bool s.truncateFirst), ("resume_sequences", .bool s.resumeSequences),
    ("optimize", .bool s.optimize), ("strict_templates", .bool s.strictTemplates),
    ("show_progress", .bool s.showProgress)]

end GenerationSettings

namespace Settings

/-- The fields of a record with some of them replaced. -/
def layered (base : List (String × Value)) (overrides : Fields) : Fields :=
  overrides.foldl (fun fields o => Value.insertEntry o.1 o.2 fields)
    (base.map fun f => (.text f.1, f.2))

/-- Overrides that are null count as not given. -/
def given (overrides : Fields) : Fields :=
  overrides.filter fun o => match o.2 with
    | .null => false
    | _ => true

end Settings

/-- The settings with the given overrides; an override of null changes nothing. -/
def GenerationSettings.override (s : GenerationSettings) (overrides : Settings.Fields) :
    Except Rejection GenerationSettings :=
  let changes := Settings.given overrides
  if changes.isEmpty then .ok s
  else GenerationSettings.ofFields (Settings.layered s.toFields changes)

end SyntheticRows
