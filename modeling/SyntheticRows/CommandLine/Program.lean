import SyntheticRows.CommandLine.Shell
import SyntheticRows.Demo.Scenario
import SyntheticRows.Document.File
import SyntheticRows.Run.Inspection
import SyntheticRows.Run.Scenario
import SyntheticRows.Text.Measure

/-!
# The program

Carries out the task that a command line asks for, and says how it ended.
-/
namespace SyntheticRows.CommandLine
open Shell

/-- The document in a file. -/
def loadDocument (path : String) : Shell Document := do
  let text := match (← read).files.entry path with
    | .file text => text
    | _ => ""
  match Document.ofText path text with
  | .ok d => return d
  | .error e =>
    if e.isReported then throw (.refused ("Invalid scenario file " ++ path ++ ": " ++ e.message))
    else throw (.escaped e)

def databaseKeys : List String := databaseParameters.map (·.key)

def settingsKeys : List String := settingsParameters.map (·.key)

/-- The connection settings of a document, overridden by what is given on the command line. -/
def databaseConfig (d : Option Document) (vs : Values) : Shell DatabaseConfig := do
  let base := match d.bind Document.database with
    | some c => c.toFields
    | none => []
  match DatabaseConfig.ofFields (Settings.layered base (vs.fields databaseKeys)) with
  | .ok c => return c
  | .error r => throw (.refused ("Invalid database configuration: " ++ r.report))

/-- The settings of a document, overridden by what is given on the command line. -/
def generationSettings (d : Option Document) (vs : Values) : Shell GenerationSettings := do
  let base := (d.map Document.settings).getD {}
  match base.override (vs.fields settingsKeys) with
  | .ok s => return s
  | .error r => throw (.refused ("Invalid settings: " ++ r.report))

/-- Time is not measured. -/
def noTime : String := "0ms"

def saySummary (c : Connection) (r : ScenarioResult) : Shell Unit := do
  say ("\n🎉 Scenario '" ++ r.name.display ++ "' completed successfully!")
  say "📊 Summary:"
  say ("  Total rows inserted: " ++ Text.grouped r.totalRows)
  for part in ["Generate", "Transform", "Optimize", "Total time"] do
    say ("  " ++ part ++ ": " ++ noTime)
  say "\n📋 Tables:"
  for (table, stats) in ← runOn c (do r.tableStats) do
    say ("  • " ++ table.display ++ ": " ++ Text.grouped stats.rowsInserted ++
      " rows inserted, " ++ Text.grouped stats.batchesApplied ++ " batch(es) applied")

def runDocument (vs : Values) : Shell Unit := do
  let path := (vs.text? "config_file").getD ""
  let d ← loadDocument path
  match d.scenario with
  | none => throw (.refused (path ++ " declares no scenario"))
  | some s =>
    let config ← databaseConfig d vs
    let settings ← generationSettings d vs
    let (c, r) ← connected config fun c => do
      let name ← runOn c (do s.name.shown)
      say ("🚀 Running scenario '" ++ name ++ "' on " ++ config.driver.name ++ "...")
      return (c, ← runOn c (Run.runScenario settings s))
    saySummary c r

/-- The names of the tables that a document declares. -/
def tableNames (d : Document) : Shell (List String) :=
  d.tables.mapM fun t => match t.1 with
    | .text name => return name
    | _ => throw (.escaped .wrongKind)

def generateTable (vs : Values) : Shell Unit := do
  let path := (vs.text? "config_file").getD ""
  let name := (vs.text? "table_name").getD ""
  let rows := (vs.whole? "rows").getD 0
  let d ← loadDocument path
  match d.table? name with
  | none =>
    let names ← tableNames d
    throw (.refused ("Table '" ++ name ++ "' is not declared in " ++ path ++ ". Available: " ++
      (if names.isEmpty then "none" else Text.joined ", " names)))
  | some table =>
    let config ← databaseConfig d vs
    let settings ← generationSettings d vs
    let r ← connected config fun c => do
      say ("🎲 Generating " ++ Text.grouped rows ++ " rows for " ++ name ++ "...")
      runOn c (Run.generateRows settings table rows settings.dropFirst settings.optimize)
    say ("  ✅ " ++ name ++ ": " ++ Text.grouped r.rowsInserted ++ " rows inserted in " ++
      toString r.chunks ++ " chunk(s), " ++ noTime)

/-- The demo writes to a database file of its own unless told otherwise. -/
def demoDefaults (vs : Values) : Values :=
  let vs := vs.withDefault "driver" (.text Engine.sqlite.name)
  if vs.text? "driver" = some Engine.sqlite.name then
    vs.withDefault "database" (.text "dbfab_demo.db")
  else vs

/-- A row as a mapping from column to content. -/
def rowMapping (row : List (String × Value)) : Value :=
  .mapping (row.foldl (fun entries e => Value.insertEntry (.text e.1) e.2 entries) [])

def runDemo (vs : Values) : Shell Unit := do
  let users := (vs.whole? "users").getD 1000
  let orders := (vs.whole? "orders").getD 5000
  if users < 0 ∨ orders < 0 then
    throw (.misused (some .demo) (.refused "row counts must not be negative"))
  let vs := (demoDefaults vs).withDefault "drop_first" (.bool true)
  let config ← databaseConfig none vs
  let settings ← generationSettings none vs
  match Demo.scenario (← read).pools (.int users) (.int orders) with
  | .error e => throw (.escaped e)
  | .ok s =>
    connected config fun c => do
      say ("🚀 Running demo scenario on " ++ config.driver.name ++ "...")
      saySummary c (← runOn c (Run.runScenario settings s))
      say "\n🔍 Sample users:"
      let rows ← runOn c (Run.selectRows (.text "users") (.int 3) (.text "id"))
      for row in rows do
        say ("  " ++ (rowMapping row).display)

/-- The document that a task may name for its connection settings. -/
def optionalDocument (vs : Values) : Shell (Option Document) := do
  match vs.text? "config_file" with
  | some path => return some (← loadDocument path)
  | none => return none

/-- Column names that are all texts; `place` is that of the first one. -/
def columnTexts (place : Nat) : List Value → Except Error (List String)
  | [] => .ok []
  | .text name :: rest => do return name :: (← columnTexts (place + 1) rest)
  | v :: _ => .error (.wrongKind ("sequence item " ++ toString place ++
      ": expected str instance, " ++ v.qualifiedKind ++ " found"))

def showTable (vs : Values) : Shell Unit := do
  let name := (vs.text? "table_name").getD ""
  let table := Value.text name
  let config ← databaseConfig (← optionalDocument vs) vs
  connected config fun c => do
    let columns ← runOn c (Run.columnNames table)
    if columns.isEmpty then throw (.refused ("Table '" ++ name ++ "' not found"))
    say ("\n📋 Table: " ++ name)
    say ("  Rows: " ++ Text.grouped (← runOn c (Run.countRows table)))
    say ("  Size: " ++ (← runOn c (Run.tableSizeText table)))
    say ("  Columns: " ++ Text.joined ", " (← runOn c (columnTexts 0 columns)))

def sweepTable (vs : Values) : Shell Unit := do
  let name := (vs.text? "table_name").getD ""
  let config ← databaseConfig (← optionalDocument vs) vs
  let dropped ← connected config fun c => runOn c (Run.sweepOrphans name)
  if dropped.isEmpty then say ("✅ No orphaned tables found for " ++ name)
  else
    say ("🧹 Dropped " ++ toString dropped.length ++ " orphaned table(s):")
    for table in dropped do
      say ("  • " ++ table)

def Task.perform (vs : Values) : Task → Shell Unit
  | .run => runDocument vs
  | .generate => generateTable vs
  | .demo => runDemo vs
  | .info => showTable vs
  | .sweep => sweepTable vs

inductive Verbosity where
  | normal
  | verbose
  | quiet
  deriving DecidableEq, Repr

/-- Whether records of a level are shown. -/
def Verbosity.shows : Verbosity → LogLevel → Bool
  | quiet, .warning => false
  | _, _ => true

def Verbosity.ofValues (vs : Values) : Verbosity :=
  if vs.isOn "verbose" then .verbose else if vs.isOn "quiet" then .quiet else .normal

/-- How a call of the program ended. -/
structure Outcome where
  verbosity : Verbosity := .normal
  terminal : Terminal := {}
  failure : Option Failure := none

namespace Outcome

def exitCode (o : Outcome) : Nat := (o.failure.map Failure.exitCode).getD 0

def errors (o : Outcome) : String := (o.failure.map Failure.report).getD ""

def logs (o : Outcome) : List LogRecord :=
  o.terminal.session.logs.filter fun r => o.verbosity.shows r.level

/-- The error that the program had no words for. -/
def escaped? (o : Outcome) : Option Error :=
  match o.failure with
  | some (.escaped e) => some e
  | _ => none

end Outcome

/-- Sorts and reads the words for some parameters; none if help is asked for. -/
def understand (files : Files) (parameters : List Parameter) (stops : Bool)
    (words : List String) : Except Misuse (Option (Values × List String)) := do
  let sorted ← sortWords parameters stops words
  if sorted.options.any (·.1 = helpSwitch) then return none
  else return some (← readWords files parameters stops sorted)

/-- A short help text. -/
def helpText (task : Option Task) : String := usage task

/-- Runs a task with the words after its name. -/
def runTask (around : Surroundings) (before : Terminal) (verbosity : Verbosity) (task : Task)
    (words : List String) : Outcome :=
  match understand around.files task.parameters false words with
  | .error m => { verbosity, terminal := before, failure := some (.ofMisuse task m) }
  | .ok none =>
    { verbosity, terminal := { before with output := before.output ++ helpText task } }
  | .ok (some (vs, _)) =>
    let (result, terminal) := ((task.perform vs).run around).run.run before
    { verbosity, terminal, failure := match result with
        | .ok () => none
        | .error f => some f }

/-- What is wrong with a name that no task has; none if help is asked for. A name that begins with
a dash can also be a misplaced option. -/
def unknownTask (files : Files) (words : List String) (name : String) : Option Misuse :=
  match understand files sharedParameters true words with
  | .error m => some m
  | .ok none => none
  | .ok (some _) => some (.unknownCommand name (closeNames name (Task.all.map Task.name)))

/-- Runs the program with the words of a command line. -/
def run (around : Surroundings) (database : Database) (words : List String) : Outcome :=
  let terminal : Terminal := { session := { database } }
  let help : Outcome := { terminal := { terminal with output := helpText none } }
  let misused (m : Misuse) : Outcome := { terminal, failure := some (.ofMisuse none m) }
  if words.isEmpty then help
  else match understand around.files sharedParameters true words with
    | .error m => misused m
    | .ok none => help
    | .ok (some (_, [])) => misused .missingCommand
    | .ok (some (vs, name :: words)) =>
      match Task.ofName? name with
      | some task => runTask around terminal (.ofValues vs) task words
      | none => ((unknownTask around.files (name :: words) name).map misused).getD help

end SyntheticRows.CommandLine
