import SyntheticRows.Settings.Problem
import SyntheticRows.Sql.Engine
import SyntheticRows.Text.Numeral

/-!
# Errors

`Cause` lists what makes a specification invalid, `Error` everything that can end an operation.
The wording of each is in `Cause.message` and `Error.message`.
-/
namespace SyntheticRows

/-- Why a generator, transformation, table, document or setting is refused. -/
inductive Cause where
  | unsupportedDialect (name : String)
  | unregisteredDialect (name : String)
  | notIdentifier (given : Value)
  | nulInIdentifier (name : String)
  | nulInLiteral
  | nonFiniteLiteral (x : Double)
  | notScalar (kind : String)
  | rangeTooWide (width : Int)
  | startInFuture
  | notInteger (owner field : String) (given : Value)
  | notFinite (owner field : String) (given : Value)
  | notProbability (owner : String) (given : Number)
  | zeroStep
  | minAboveMax (owner : String) (low high : Number)
  | negative (field : String)
  | notDatetime (label : String) (given : Value)
  | reversedSpan
  | emptyColumnName
  | notColumnType (column given : Value)
  | notColumnProbability (column : Value) (given : Number)
  | emptyTableName
  | noColumns (table : Value)
  | duplicateColumn (table column : Value)
  | notOperation (given : Value)
  | noOperations
  | swapWithItself (column : Value)
  | negativeRowCount (table : Value)
  | missingKey (context key : String)
  | notMapping (context kind : String)
  | notIsoDatetime (context text : String)
  | notDatetimeValue (context : String) (given : Value)
  | unknownGenerator (context : String) (given : Value)
  | unknownColumnType (context : String) (given : Value)
  | unknownTransformation (context : String) (given : Value)
  | columnsNotList (table : Value)
  | unknownTable (context name : String)
  | notStep (context : String)
  | invalidDocument (rejection : Rejection)
  | unknownSettings (names : List String)
  | invalidOverrides (rejection : Rejection)
  | assignedTwice (table column description : Value)

def generatorNames : List String :=
  ["sequence", "randomInt", "randomFloat", "randomString", "choice", "choiceByLookup", "constant",
    "datetime", "uuid"]

def columnTypeNames : List String :=
  ["integer", "bigint", "float", "string", "boolean", "datetime", "date"]

def transformationNames : List String := ["template", "mutate", "lookup", "swap"]

/-- What is said about a number with more digits than can be written. -/
def tooManyDigitsText : String :=
  "Exceeds the limit (" ++ toString digitLimit ++ " digits) for integer string conversion; " ++
    "use sys.set_int_max_str_digits() to increase the limit"

/-- The values that a message shows. -/
def Cause.shown : Cause → List Value
  | notIdentifier given | notInteger _ _ given | notFinite _ _ given | notDatetime _ given
  | notDatetimeValue _ given | unknownGenerator _ given | unknownColumnType _ given
  | unknownTransformation _ given => [given]
  | rangeTooWide width => [.int width]
  | notProbability _ given => [.ofNumber given]
  | minAboveMax _ low high => [.ofNumber low, .ofNumber high]
  | notColumnType column given => [column, given]
  | notColumnProbability column given => [column, .ofNumber given]
  | swapWithItself column => [column]
  | noColumns table | negativeRowCount table | columnsNotList table => [table]
  | duplicateColumn table column => [table, column]
  | assignedTwice table column description => [table, column, description]
  | _ => []

def Cause.message : Cause → String
  | unsupportedDialect name =>
    "Unsupported dialect: " ++ name ++ ". Supported: " ++ inspectTexts (Engine.all.map Engine.name)
  | unregisteredDialect name =>
    "Unsupported dialect: " ++ name ++ ". Supported: " ++
      inspectTexts ((Engine.all.map Engine.name).mergeSort (· ≤ ·))
  | notIdentifier given => "Identifier must be a non-empty string, got " ++ given.inspect
  | nulInIdentifier name => "Identifier " ++ Text.quoted name ++ " contains a NUL character"
  | nulInLiteral => "String literals must not contain NUL characters"
  | nonFiniteLiteral x => "Cannot render non-finite float " ++ x.toText
  | notScalar kind => "Cannot render value of type " ++ kind ++ " as a SQL literal"
  | rangeTooWide width =>
    "SQLite cannot draw uniformly from a range of " ++ toString width ++ " values"
  | startInFuture => "datetime.from lies in the future and no datetime.to was given"
  | notInteger owner field given =>
    owner ++ "." ++ field ++ " must be an integer, got " ++ given.inspect
  | notFinite owner field given =>
    owner ++ "." ++ field ++ " must be a finite number, got " ++ given.inspect
  | notProbability owner given =>
    owner ++ ".probability must be within [0, 1], got " ++ given.toText
  | zeroStep => "sequence.step must not be zero"
  | minAboveMax owner low high =>
    owner ++ ".min (" ++ low.toText ++ ") must not exceed max (" ++ high.toText ++ ")"
  | negative field => field ++ " must not be negative"
  | notDatetime label given => label ++ " must be a datetime, got " ++ given.inspect
  | reversedSpan => "datetime.from must not be later than datetime.to"
  | emptyColumnName => "Column name must not be empty"
  | notColumnType column given =>
    "Column " ++ column.display ++ " has invalid type " ++ given.inspect
  | notColumnProbability column given =>
    "Column " ++ column.display ++ " null_probability must be within [0, 1], got " ++ given.toText
  | emptyTableName => "Table name must not be empty"
  | noColumns table => "Table " ++ table.display ++ " must have at least one column"
  | duplicateColumn table column =>
    "Table " ++ table.display ++ " has duplicate column " ++ column.display
  | notOperation given =>
    "mutate.operations: " ++
      (if given.isWritable then given.inspect ++ " is not a valid MutationOperation"
      else tooManyDigitsText)
  | noOperations => "mutate.operations must not be empty"
  | swapWithItself column =>
    "swap needs two distinct columns, got " ++ column.display ++ " twice"
  | negativeRowCount table => "Row count for " ++ table.display ++ " must not be negative"
  | missingKey context key => context ++ ": missing required key '" ++ key ++ "'"
  | notMapping context kind => context ++ ": expected a mapping, got " ++ kind
  | notIsoDatetime context text => context ++ ": invalid datetime '" ++ text ++ "'"
  | notDatetimeValue context given => context ++ ": invalid datetime " ++ given.inspect
  | unknownGenerator context given =>
    context ++ ": unknown generator type '" ++ given.display ++ "'. Supported: " ++
      inspectTexts generatorNames
  | unknownColumnType context given =>
    context ++ ": unknown column type '" ++ given.display ++ "'. Supported: " ++
      inspectTexts columnTypeNames
  | unknownTransformation context given =>
    context ++ ": unknown transformation type '" ++ given.display ++ "'. Supported: " ++
      inspectTexts transformationNames
  | columnsNotList table => "table " ++ table.display ++ ": columns must be a list"
  | unknownTable context name => context ++ ": unknown table '" ++ name ++ "'"
  | notStep context => context ++ ": expected a 'generate' or 'transform' step"
  | invalidDocument rejection => "Invalid configuration: " ++ rejection.report
  | unknownSettings names => "Unknown generation settings: " ++ Text.joined ", " names
  | invalidOverrides rejection => "Invalid generation settings: " ++ rejection.report
  | assignedTwice table column description =>
    "Column " ++ table.display ++ "." ++ column.display ++
      " is assigned more than once in one batch" ++
      (if description.isPresent then " (" ++ description.display ++ ")" else "")

/-- The step of a table replacement that failed after tables had been created. -/
inductive ReplacementStep where
  | populate
  | rename
  | drop
  deriving DecidableEq, Repr

def ReplacementStep.name : ReplacementStep → String
  | populate => "populate"
  | rename => "rename"
  | drop => "drop"

inductive Error where
  | configuration (cause : Cause)
  | unsupportedGenerator (dialect kind : String)
  | unsupportedTransformation (dialect kind : String)
  /-- A template names columns that the table does not have. -/
  | unknownPlaceholders (table template : Value) (unknown : List String)
  /-- A table replacement left tables behind. -/
  | replacementFailed (table : Value) (step : ReplacementStep) (orphans : List String)
      (reason : String)
  /-- The engine refused a statement. -/
  | statementFailed (reason : String)
  | connectionFailed (reason : String)
  | notConnected
  | notImplemented (what : String)
  /-- A settings record was refused outside a document. -/
  | rejected (rejection : Rejection)
  /-- A value of the wrong kind where the specification language does not check. -/
  | wrongKind (detail : String := "")
  /-- A value of the right kind that cannot be used. -/
  | badValue (detail : String := "")
  | missingField
  | missingEntry
  /-- A number or a point in time is out of range. -/
  | outOfRange (detail : String := "")
  | malformedYaml
  | malformedJson

namespace Error

def message : Error → String
  | configuration cause => cause.message
  | unsupportedGenerator dialect kind =>
    "Generator '" ++ kind ++ "' is not supported by the " ++ dialect ++ " dialect"
  | unsupportedTransformation dialect kind =>
    "Transformation '" ++ kind ++ "' is not supported by the " ++ dialect ++ " dialect"
  | unknownPlaceholders table template unknown =>
    "Template '" ++ template.display ++ "' references unknown columns of " ++ table.display ++
      ": " ++ Text.joined ", " unknown
  | replacementFailed table step orphans reason =>
    (if reason.isEmpty then "table replacement failed" else reason) ++ " for " ++ table.display ++
      " during " ++ step.name ++
      (if orphans.isEmpty then "" else "; orphaned tables: " ++ Text.joined ", " orphans)
  | statementFailed reason => reason
  | connectionFailed reason => "Database connection failed: " ++ reason
  | notConnected => "Database not connected. Call connect() first."
  | notImplemented what => what
  | rejected rejection => rejection.report
  | wrongKind detail | badValue detail | outOfRange detail => detail
  | missingField | missingEntry | malformedYaml | malformedJson => ""

/-- A value that can be changed where a key is needed. -/
def notKey (v : Value) : Error :=
  .wrongKind ("unhashable type: '" ++ v.changeableKind?.getD v.kindName ++ "'")

/-- Something else where a text is searched. -/
def notText : Value → Error
  | .bytes _ => .wrongKind "cannot use a string pattern on a bytes-like object"
  | v => .wrongKind ("expected string or bytes-like object, got '" ++ v.qualifiedKind ++ "'")

/-- A decimal numeral has too many digits to be read. -/
def numeralTooLong (digits : Nat) : Error :=
  .badValue ("Exceeds the limit (" ++ toString digitLimit ++
    " digits) for integer string conversion: value has " ++ toString digits ++
    " digits; use sys.set_int_max_str_digits() to increase the limit")

/-- A number that would have to be written has too many digits. -/
def tooManyDigits : Error := .badValue tooManyDigitsText

def numberTooLarge : Error := .outOfRange "int too large to convert to float"

def quotientTooLarge : Error := .outOfRange "integer division result too large for a float"

def sizeTooLarge : Error := .outOfRange "cannot fit 'int' into an index-sized integer"

def dateTooFar : Error := .outOfRange "date value out of range"

/-- The errors that the program raises about what it was asked to do, the engine's own failures
and slips of kind left aside. -/
def isReported : Error → Bool
  | configuration _ | unsupportedGenerator _ _ | unsupportedTransformation _ _
  | unknownPlaceholders _ _ _ | replacementFailed _ _ _ _ => true
  | _ => false

end Error

/-- The content of an option, or an error. -/
def orError {α : Type} (e : Error) : Option α → Except Error α
  | some a => .ok a
  | none => .error e

/-- Makes sure that numbers can be written. -/
def writable (values : List Value) : Except Error Unit :=
  if values.all Value.isWritable then .ok () else .error .tooManyDigits

/-- Makes sure that a number of things fits into 64 bits. -/
def checkSize (n : Int) : Except Error Unit :=
  if -(twoPow 63 : Int) ≤ n ∧ n < twoPow 63 then .ok () else .error .sizeTooLarge

/-- Raises a configuration error; its message has to be one that can be written. -/
def refuse {α : Type} (cause : Cause) : Except Error α := do
  writable cause.shown
  throw (.configuration cause)

/-- The display of a value that can be written. -/
def Value.shown (v : Value) : Except Error String := do
  writable [v]
  return v.display

end SyntheticRows
