import SyntheticRows.Settings.Field
import SyntheticRows.Sql.Engine
import SyntheticRows.Text.Quoted

/-!
# Connection settings

Which engine to connect to and where, with the connection URL and the arguments passed beside it.
-/
namespace SyntheticRows

structure DatabaseConfig where
  driver : Engine := .postgresql
  host : String := "localhost"
  port : Option Int := none
  database : String := ""
  username : String := ""
  password : String := ""
  catalog : String := "iceberg"
  schema : String := "default"
  sslMode : Option String := none
  deriving DecidableEq

namespace DatabaseConfig
open Settings

def recordName : String := "DatabaseConfig"

def readDriver : Reader Engine :=
  readChecked readText fun name =>
    match Engine.ofName? name with
    | some e => .ok e
    | none => .error ("Unsupported driver: " ++ name ++ ". Supported: " ++
        inspectTexts (Engine.all.map Engine.name))

/-- SQLite ignores the port; elsewhere it has to be a TCP port. -/
def checkPort (driver : Engine) (port : Option Int) : Except String (Option Int) :=
  match port with
  | none => .ok none
  | some p =>
    if driver = .sqlite ∨ (1 ≤ p ∧ p ≤ 65535) then .ok (some p)
    else .error "Port must be between 1 and 65535"

/-- Builds a record from fields. The port is checked against the driver given beside it, or the
default one if that is refused itself. -/
def ofFields (fields : Fields) : Except Rejection DatabaseConfig :=
  let driver := readField fields "driver" readDriver .postgresql
  let checkedDriver := match driver with
    | .ok e => e
    | .error _ => .postgresql
  let host := readField fields "host" readText "localhost"
  let port := readField fields "port"
    (readChecked (readOptional readInteger) (checkPort checkedDriver)) none
  let database := readField fields "database" readText ""
  let username := readField fields "username" readText ""
  let password := readField fields "password" readText ""
  let catalog := readField fields "catalog" readText "iceberg"
  let schema := readField fields "schema_name" readText "default"
  let sslMode := readField fields "ssl_mode" (readOptional readText) none
  let config : Except FieldProblem DatabaseConfig := do
    return {
      driver := ← driver
      host := ← host
      port := ← port
      database := ← database
      username := ← username
      password := ← password
      catalog := ← catalog
      schema := ← schema
      sslMode := ← sslMode }
  config.mapError fun _ => ⟨recordName,
    problemOf driver ++ problemOf host ++ problemOf port ++ problemOf database ++
      problemOf username ++ problemOf password ++ problemOf catalog ++ problemOf schema ++
      problemOf sslMode⟩

/-- The record as fields, in declaration order. -/
def toFields (c : DatabaseConfig) : List (String × Value) :=
  [("driver", .text c.driver.name), ("host", .text c.host),
    ("port", (c.port.map Value.int).getD .null), ("database", .text c.database),
    ("username", .text c.username), ("password", .text c.password),
    ("catalog", .text c.catalog), ("schema_name", .text c.schema),
    ("ssl_mode", (c.sslMode.map Value.text).getD .null)]

def defaultPort? : Engine → Option Int
  | .postgresql => some 5432
  | .clickhouse => some 8123
  | .trino => some 8080
  | .sqlite => none

def effectivePort (c : DatabaseConfig) : Option Int := c.port <|> defaultPort? c.driver

/-- An empty text counts as not given. -/
def filled? (s : String) : Option String := if s.isEmpty then none else some s

/-- `driver://[user[:password]@]host[:port][/database]`. -/
def urlText (driver : String) (user password : Option String) (host : String) (port : Option Int)
    (database : Option String) : String :=
  driver ++ "://" ++
    (match user with
      | none => ""
      | some u => Text.percentEncode [' ', '+'] u ++
          (match password with
            | none => ""
            | some p => ":" ++ Text.percentEncode [' ', '+'] p) ++ "@") ++
    (if host.contains ':' then "[" ++ host ++ "]" else host) ++
    (match port with
      | none => ""
      | some p => ":" ++ toString p) ++
    (match database with
      | none => ""
      | some d => "/" ++ Text.percentEncode [' ', '+', '/'] d)

/-- The connection URL. A Trino password is never part of it. -/
def url (c : DatabaseConfig) : String :=
  match c.driver with
  | .sqlite =>
    if c.database.isEmpty || c.database == ":memory:" then "sqlite://"
    else "sqlite:///" ++ c.database
  | .postgresql =>
    urlText "postgresql+psycopg2" (filled? c.username) (filled? c.password) c.host
      c.effectivePort (filled? c.database)
  | .clickhouse =>
    urlText "clickhousedb" (some ((filled? c.username).getD "default")) (filled? c.password)
      c.host c.effectivePort (filled? c.database)
  | .trino =>
    urlText "trino" (some ((filled? c.username).getD "trino")) none c.host c.effectivePort
      (some (c.catalog ++ "/" ++ c.schema))

/-- What is passed to the engine's client beside the URL. -/
inductive ConnectArgument where
  | sslMode (mode : String)
  | secure (on : Bool)
  | basicAuth (user password : String)
  | httpScheme (scheme : String)
  deriving DecidableEq, Repr

def connectArguments (c : DatabaseConfig) : List ConnectArgument :=
  match c.driver with
  | .postgresql => ((c.sslMode.bind filled?).map fun m => [.sslMode m]).getD []
  | .clickhouse =>
    ((c.sslMode.bind filled?).map fun m =>
      [.secure (m != "disable" && m != "false")]).getD []
  | .trino =>
    if c.password.isEmpty then []
    else [.basicAuth c.username c.password, .httpScheme "https"]
  | .sqlite => []

/-- VACUUM cannot run inside a transaction on these engines, so every statement stands alone. -/
def autocommits (e : Engine) : Bool := e = .postgresql || e = .sqlite

end DatabaseConfig
end SyntheticRows
