import SyntheticRows.Error

/-!
# Identifiers

A name that can stand in a statement, and its written form. ClickHouse and Trino quote every
name; PostgreSQL and SQLite quote only what they would otherwise read differently. A quote
character inside is doubled.
-/
namespace SyntheticRows.Sql

/-- A name that can be quoted: it is not empty and holds no NUL. -/
structure Ident where
  name : String
  nonempty : name ≠ ""
  nulFree : '\x00' ∉ name.toList
  deriving DecidableEq

namespace Ident

def ofValue : Value → Except Error Ident
  | .text s =>
    if h : s ≠ "" then
      if hn : '\x00' ∉ s.toList then .ok ⟨s, h, hn⟩ else refuse (.nulInIdentifier s)
    else refuse (.notIdentifier (.text s))
  | v => refuse (.notIdentifier v)

/-- Writes one character twice and all else once. -/
def doubled (q : Char) (cs : List Char) : List Char :=
  cs.flatMap fun c => if c = q then [q, q] else [c]

def enclosed (q : Char) (cs : List Char) : List Char := q :: doubled q cs ++ [q]

def reservedInPostgres : List String :=
  ["all", "analyse", "analyze", "and", "any", "array", "as", "asc", "asymmetric",
    "authorization", "between", "binary", "both", "case", "cast", "check", "collate", "column",
    "constraint", "create", "cross", "current_catalog", "current_date", "current_role",
    "current_schema", "current_time", "current_timestamp", "current_user", "default",
    "deferrable", "desc", "distinct", "do", "else", "end", "except", "false", "fetch", "for",
    "foreign", "freeze", "from", "full", "grant", "group", "having", "ilike", "in", "initially",
    "inner", "intersect", "into", "is", "isnull", "join", "leading", "left", "like", "limit",
    "localtime", "localtimestamp", "natural", "new", "not", "notnull", "null", "of", "off",
    "offset", "old", "on", "only", "or", "order", "outer", "over", "overlaps", "placing",
    "primary", "references", "returning", "right", "select", "session_user", "similar", "some",
    "symmetric", "table", "then", "to", "trailing", "true", "union", "unique", "user", "using",
    "variadic", "verbose", "when", "where", "window", "with"]

def reservedInSqlite : List String :=
  ["add", "after", "all", "alter", "analyze", "and", "as", "asc", "attach", "autoincrement",
    "before", "begin", "between", "by", "cascade", "case", "cast", "check", "collate", "column",
    "commit", "conflict", "constraint", "create", "cross", "current_date", "current_time",
    "current_timestamp", "database", "default", "deferrable", "deferred", "delete", "desc",
    "detach", "distinct", "drop", "each", "else", "end", "escape", "except", "exclusive",
    "exists", "explain", "fail", "false", "for", "foreign", "from", "full", "glob", "group",
    "having", "if", "ignore", "immediate", "in", "index", "indexed", "initially", "inner",
    "insert", "instead", "intersect", "into", "is", "isnull", "join", "key", "left", "like",
    "limit", "match", "natural", "not", "notnull", "null", "of", "offset", "on", "or", "order",
    "outer", "plan", "pragma", "primary", "query", "raise", "references", "reindex", "rename",
    "replace", "restrict", "right", "rollback", "row", "select", "set", "table", "temp",
    "temporary", "then", "to", "transaction", "trigger", "true", "union", "unique", "update",
    "using", "vacuum", "values", "view", "virtual", "when", "where"]

/-- Letters, digits, underscore, dollar, and the four letters outside ASCII whose other case lies
in it: long s, Kelvin sign, dotted capital I and dotless i. -/
def isLegal (c : Char) : Bool :=
  c.isAlphanum || c = '_' || c = '$' || c = '\u017f' || c = '\u212a' || c = '\u0130' ||
    c = '\u0131'

/-- Whether lower-casing changes a legal character. -/
def isUpper (c : Char) : Bool := c.isUpper || c = '\u212a' || c = '\u0130'

/-- Legal characters only; one line feed at the end does not count. -/
def allLegal (cs : List Char) : Bool :=
  let body := if cs.getLast? = some '\n' then cs.dropLast else cs
  !body.isEmpty && body.all isLegal

/-- Whether a name has to be quoted where bare names are lower-cased. -/
def needsQuotes (reserved : List String) (name : String) : Bool :=
  let cs := name.toList
  reserved.contains name || !allLegal cs || cs.any isUpper ||
    match cs with
    | [] => true
    | c :: _ => c.isDigit || c = '$'

/-- The characters of a quoted name. PostgreSQL statements have every percent sign doubled. -/
def written (e : Engine) (name : String) : List Char :=
  let cs := name.toList
  match e with
  | .clickhouse => enclosed '\x60' cs
  | .trino => enclosed '"' cs
  | .postgresql =>
    if needsQuotes reservedInPostgres name then enclosed '"' (doubled '%' cs) else cs
  | .sqlite => if needsQuotes reservedInSqlite name then enclosed '"' cs else cs

def quote (e : Engine) (i : Ident) : String := String.ofList (written e i.name)

end Ident

/-- A name in a statement: one that the program makes up, written bare, or one that was given,
quoted as the engine needs it. -/
inductive Name where
  | bare (text : String)
  | given (ident : Ident)
  deriving DecidableEq

def Name.render (e : Engine) : Name → String
  | bare text => text
  | given ident => ident.quote e

/-- Names separated by points. -/
abbrev Path := List Name

def Path.render (e : Engine) (p : Path) : String := Text.joined "." (p.map (Name.render e))

end SyntheticRows.Sql
