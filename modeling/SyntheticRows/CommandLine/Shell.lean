import SyntheticRows.CommandLine.Plain
import SyntheticRows.CommandLine.Task
import SyntheticRows.CommandLine.Values
import SyntheticRows.Demo.Tables
import SyntheticRows.Run.Session

/-!
# The shell of a task

A task prints lines while it talks to a database. It ends well or with a failure, and then what
was printed and sent before is kept.
-/
namespace SyntheticRows.CommandLine

/-- What a task finds around it. -/
structure Surroundings where
  files : Files := []
  pools : NamePools
  /-- Seconds since 1970. -/
  now : Int

inductive Failure where
  | misused (task : Option Task) (m : Misuse)
  /-- What was asked for makes no sense; nothing is wrong with the database. -/
  | refused (reason : String)
  /-- Something went wrong over the connection. -/
  | failed (e : Error)
  /-- An error that the program has no words for. -/
  | escaped (e : Error)

/-- A path that holds a NUL is not the program's to report. -/
def Failure.ofMisuse (task : Option Task) : Misuse → Failure
  | .nulInPath => escaped (.badValue Misuse.nulInPath.message)
  | m => misused task m

def Failure.exitCode : Failure → Nat
  | misused _ _ => 2
  | _ => 1

/-- What is printed about an error; tables left behind are named with the way to remove them. -/
def reportError (e : Error) : String :=
  "❌ Error: " ++ e.message ++ "\n" ++
    match e with
    | .replacementFailed table _ (first :: others) _ =>
      "⚠️  Orphaned tables left behind: " ++ Text.joined ", " (first :: others) ++ "\n" ++
        "   Remove them with: dbfab sweep " ++ table.display ++ "\n"
    | _ => ""

def Failure.report : Failure → String
  | misused task m => plain (m.report task)
  | refused reason => plain ("Error: " ++ reason ++ "\n")
  | failed e => plain (reportError e)
  | escaped _ => ""

/-- What was printed, and the session behind it. -/
structure Terminal where
  output : String := ""
  session : Session := {}

abbrev Shell := ReaderT Surroundings (ExceptT Failure (StateM Terminal))

namespace Shell

def say (line : String) : Shell Unit :=
  modify fun t => { t with output := t.output ++ plain line ++ "\n" }

/-- Runs over a connection; an error is a failure of the task. -/
def runOn {α : Type} (c : Connection) (r : Run α) : Shell α := do
  let (result, session) := (r.run c).run.run (← get).session
  modify ({ · with session })
  match result with
  | .ok a => return a
  | .error e => throw (.failed e)

/-- Opens a connection for a part of a task and closes it whatever happens there. A connection
that could not be opened is left as it is. -/
def connected {α : Type} (config : DatabaseConfig) (body : Connection → Shell α) : Shell α := do
  let c : Connection := { config, now := (← read).now }
  runOn c Run.connect
  let a ← tryCatch (body c) fun f => do
    runOn c Run.close
    throw f
  runOn c Run.close
  return a

end Shell
end SyntheticRows.CommandLine
