import SyntheticRows.Json.Writer
import SyntheticRows.Sql.Function
import SyntheticRows.Text.Sha1

/-!
# Lookup lists

A long list of values is written once in a statement, under a name made from a digest of its JSON
text, so that equal lists share a name. Rows then pick from it by position.
-/
namespace SyntheticRows

/-- A value as it stands in a JSON list: points in time and dates are texts. -/
def Value.toJson : Value → Value
  | .datetime t => .text t.toSecondsText
  | .date d => .text d.toIso
  | v => v

namespace Sql

/-- The name of a list; a list that JSON cannot write has none. -/
def lookupName (values : List Value) : Except Error String := do
  let payload ← Json.writeLoose (.list (values.map Value.toJson))
  return "_lookup_" ++ String.ofList ((Text.Sha1.hexDigest payload.toUTF8.toList).toList.take 12)

/-- A named relation or list that a statement defines before it reads from it. -/
inductive Definition where
  /-- The numbers from 1 to a limit, counted up. -/
  | counter (limit : Int)
  /-- One row that holds an array. -/
  | arrayRow (name : String) (items : List Expr)
  /-- One row that holds a JSON text. -/
  | jsonRow (name : String) (payload : Expr)
  /-- A name for an array. -/
  | arrayName (name : String) (items : List Expr)

namespace Definition

def render (e : Engine) : Definition → String
  | counter limit =>
    "seq(n) AS (SELECT 1 UNION ALL SELECT n + 1 FROM seq WHERE n < " ++ toString limit ++ ")"
  | arrayRow name items => name ++ " AS (SELECT " ++ (Expr.array items).render e ++ " AS arr)"
  | jsonRow name payload => name ++ "(arr) AS (SELECT " ++ payload.render e ++ ")"
  | arrayName name items => (Expr.brackets items).render e ++ " AS " ++ name

end Definition
end Sql
open Sql

namespace Dialect

def lookupDefinition (d : Dialect) (name : String) (values : List Value) :
    Except Error Definition := do
  match ← d.engine (.unsupportedGenerator d.name "choiceByLookup") with
  | .sqlite =>
    let payload ← Json.writeStrict (.list (values.map Value.toJson))
    return .jsonRow name (← d.literal (.text payload))
  | .clickhouse => return .arrayName name (← values.mapM d.literal)
  | .postgresql | .trino => return .arrayRow name (← values.mapM d.literal)

/-- The position from 1 that an integer draw picks among `n` items of an array. -/
def arrayPosition (e : Engine) (n tag : Int) : Except Error Expr :=
  match e with
  | .postgresql => return .add (.nat 1) (.convert (← Engine.floorRandom n) "int")
  | _ => return .add (.nat 1) (← Engine.integer e n tag)

/-- A random item of a named list of `n` items. -/
def lookupPick (d : Dialect) (name : String) (n tag : Int) : Except Error Expr := do
  let e ← d.engine (.unsupportedGenerator d.name "choiceByLookup")
  let content := Expr.name [.bare name, .bare "arr"]
  match e with
  | .postgresql => return .index content (← arrayPosition e n tag)
  | .clickhouse => return .index (.bare name) (← arrayPosition e n tag)
  | .trino => return .call "element_at" [content, ← arrayPosition e n tag]
  | .sqlite =>
    let path := Expr.chain .concat (.word "$[") [← Engine.integer e n tag, .word "]"]
    return .call "json_extract" [content, path]

/-- A random one of `n` items. SQLite has no arrays and uses a case expression instead. -/
def pick (d : Dialect) (items : List Expr) (n tag : Int) : Except Error Expr := do
  let e ← d.engine (.unsupportedGenerator d.name "choice")
  match e with
  | .postgresql => return .index (.paren (.array items)) (← arrayPosition e n tag)
  | .clickhouse => return .index (.brackets items) (← arrayPosition e n tag)
  | .trino => return .call "element_at" [.array items, ← arrayPosition e n tag]
  | .sqlite => .error (.unsupportedGenerator d.name "choice")

end Dialect
end SyntheticRows
