import SyntheticRows.CommandLine.Parameter
import SyntheticRows.Sql.Engine

/-!
# Tasks

What can be asked for on the command line, and the parameters that each task takes.
-/
namespace SyntheticRows.CommandLine

inductive Task where
  | run
  | generate
  | demo
  | info
  | sweep
  deriving DecidableEq, Repr

def helpSwitch : Parameter := { key := "help", names := ["--help"], form := none }

/-- The parameters before the name of the task. -/
def sharedParameters : List Parameter :=
  [{ key := "verbose", names := ["--verbose", "-v"], form := none },
    { key := "quiet", names := ["--quiet", "-q"], form := none },
    helpSwitch]

/-- Where to connect to. -/
def databaseParameters : List Parameter :=
  [{ key := "driver", names := ["--driver"], form := some (.oneOf (Engine.all.map Engine.name)) },
    { key := "host", names := ["--host", "-h"] },
    { key := "port", names := ["--port", "-p"], form := some .whole },
    { key := "database", names := ["--database", "-d"] },
    { key := "username", names := ["--username", "-u"] },
    { key := "password", names := ["--password"] },
    { key := "catalog", names := ["--catalog"] },
    { key := "schema_name", names := ["--schema"] }]

def switchPair (key name : String) : Parameter :=
  { key, names := ["--" ++ name], negations := ["--no-" ++ name], form := none }

/-- How rows are written. -/
def settingsParameters : List Parameter :=
  [{ key := "batch_size", names := ["--batch-size"], form := some .whole },
    switchPair "drop_first" "drop-first",
    switchPair "truncate_first" "truncate-first",
    switchPair "optimize" "optimize",
    switchPair "strict_templates" "strict-templates",
    switchPair "show_progress" "progress"]

def documentArgument : Parameter :=
  { key := "config_file", form := some .file, required := true }

def documentOption : Parameter :=
  { key := "config_file", names := ["--config", "-c"], form := some .file }

def tableArgument : Parameter := { key := "table_name", required := true }

namespace Task

def all : List Task := [run, generate, demo, info, sweep]

def name : Task → String
  | run => "run"
  | generate => "generate"
  | demo => "demo"
  | info => "info"
  | sweep => "sweep"

def ofName? (name : String) : Option Task := all.find? (·.name == name)

/-- The parameters of a task, the arguments first. -/
def parameters : Task → List Parameter
  | run => documentArgument :: databaseParameters ++ settingsParameters ++ [helpSwitch]
  | generate =>
    [documentArgument,
      { key := "table_name", names := ["--table", "-t"], required := true },
      { key := "rows", names := ["--rows", "-r"], form := some .whole, required := true }] ++
      databaseParameters ++ settingsParameters ++ [helpSwitch]
  | demo =>
    [{ key := "users", names := ["--users"], form := some .whole },
      { key := "orders", names := ["--orders"], form := some .whole },
      { key := "seed", names := ["--seed"], form := some .whole }] ++
      databaseParameters ++ settingsParameters ++ [helpSwitch]
  | info | sweep => [tableArgument, documentOption] ++ databaseParameters ++ [helpSwitch]

end Task

/-- The name by which the program refers to itself in usage texts. -/
def programName : String := "cli"

/-- How a task, or the program itself, is called. -/
def callName (task : Option Task) : String :=
  match task with
  | none => programName
  | some t => programName ++ " " ++ t.name

def usage (task : Option Task) : String :=
  let words := match task with
    | none => ["COMMAND", "[ARGS]..."]
    | some t => (t.parameters.filter (·.names.isEmpty)).map (·.key.toUpper)
  "Usage: " ++ Text.joined " " (callName task :: "[OPTIONS]" :: words) ++ "\n"

/-- The text for a misused command line. -/
def Misuse.report (m : Misuse) (task : Option Task) : String :=
  (if m.showsUsage then
    usage task ++ "Try '" ++ callName task ++ " --help' for help.\n\n" else "") ++
    "Error: " ++ m.message ++ "\n"

end SyntheticRows.CommandLine
