import SyntheticRows.Compile.Table
import SyntheticRows.Run.Database
import SyntheticRows.Sql.Query

/-!
# Sessions

A session sends statements and queries to a database over one connection. It keeps everything that
it sent, also what was refused, and the records that it logged.
-/
namespace SyntheticRows
open Sql

/-- What was sent over a connection. -/
inductive Event where
  | opened (config : DatabaseConfig)
  | executed (s : Statement)
  | fetched (q : Query)
  | queried (q : CatalogQuery)
  | disposed

inductive LogLevel where
  | warning
  | error
  deriving DecidableEq, Repr

structure LogRecord where
  level : LogLevel
  message : String
  deriving DecidableEq, Repr

/-- Where a session runs and what time it is, in seconds. -/
structure Connection where
  config : DatabaseConfig
  now : Int

def Connection.target (c : Connection) : Target := .ofDatabase c.config

structure Session where
  database : Database := {}
  isOpen : Bool := false
  events : List Event := []
  logs : List LogRecord := []
  /-- How many table replacements were started. -/
  replacements : Nat := 0

/-- The engine to whose rules the statements are written: that of the connection opened first. -/
def Session.writer (s : Session) : Engine :=
  (s.events.findSome? fun e => match e with
    | .opened c => some (Target.ofDatabase c).writer
    | _ => none).getD .postgresql

/-- A run of a session; what was sent and logged before an error is kept. -/
abbrev Run := ReaderT Connection (ExceptT Error (StateM Session))

namespace Run

def target : Run Target := do return (← read).target

def log (level : LogLevel) (message : String) : Run Unit :=
  modify fun s => { s with logs := s.logs ++ [⟨level, message⟩] }

def record (e : Event) : Run Unit := modify fun s => { s with events := s.events ++ [e] }

/-- The database's word on a statement. -/
def submit (statement : String) : Run (Option String) :=
  modifyGet fun s =>
    let (reason, database) := s.database.accept statement
    (reason, { s with database })

def nextResult : Run ResultSet :=
  modifyGet fun s =>
    let (result, database) := s.database.answer
    (result, { s with database })

def needOpen : Run Unit := do
  if !(← get).isOpen then throw .notConnected

/-- Records an event and has its text accepted; a refusal is logged under a title. -/
def send (event : Event) (text title : String) : Run Unit := do
  needOpen
  record event
  if let some reason ← submit text then
    log .error (title ++ ": " ++ reason)
    throw (.statementFailed reason)

def execute (s : Statement) : Run Unit := do
  send (.executed s) (s.render (← target).writer) "Statement execution failed"

def fetch (q : Query) : Run ResultSet := do
  send (.fetched q) (q.render (← target).writer) "Query execution failed"
  nextResult

def query (q : CatalogQuery) : Run ResultSet := do
  send (.queried q) q.text "Query execution failed"
  nextResult

/-- A query whose refusal is expected: it is not logged, and gives none. -/
def tryQuery (q : CatalogQuery) : Run (Option ResultSet) := do
  needOpen
  record (.queried q)
  match ← submit q.text with
  | some _ => return none
  | none => return some (← nextResult)

/-- The first field of the first row; null if there is none. -/
def firstField (r : ResultSet) : Value :=
  match r.rows with
  | (v :: _) :: _ => v
  | _ => .null

def firstFields (r : ResultSet) : List Value := r.rows.map fun row => row.headD .null

def fetchScalar (q : Query) : Run Value := firstField <$> fetch q

def connectionTest : CatalogQuery := { text := "SELECT 1" }

/-- Opens the connection and tests it, then makes the schema on Trino. -/
def connect : Run Unit := do
  let c ← read
  record (.opened c.config)
  modify ({ · with isOpen := true })
  record (.queried connectionTest)
  if let some reason ← submit connectionTest.text then
    log .error ("Failed to connect to database: " ++ reason)
    throw (.connectionFailed reason)
  let t ← target
  if t.isTrino then execute (← t.createSchema)

/-- Closes the connection if it is open. -/
def close : Run Unit := do
  if (← get).isOpen then
    record .disposed
    modify ({ · with isOpen := false })

end Run
end SyntheticRows
