import SyntheticRows.Error

/-!
# Literals

Scalars that can be written into a statement, and their written form on each engine.
-/
namespace SyntheticRows.Sql

inductive Literal where
  | null
  | bool (b : Bool)
  | int (i : Int)
  | float (x : Double) (finite : x.isFinite = true)
  | datetime (t : DateTime)
  | date (d : Date)
  | text (s : String) (nulFree : '\x00' ∉ s.toList)

namespace Literal

def ofText (s : String) : Except Error Literal :=
  if h : '\x00' ∉ s.toList then .ok (text s h) else refuse .nulInLiteral

def ofFloat (x : Double) : Except Error Literal :=
  if h : x.isFinite = true then .ok (float x h) else refuse (.nonFiniteLiteral x)

def ofValue : Value → Except Error Literal
  | .null => .ok null
  | .bool b => .ok (bool b)
  | .int i => do
    writable [.int i]
    return int i
  | .float x => ofFloat x
  | .datetime t => .ok (datetime t)
  | .date d => .ok (date d)
  | .text s => ofText s
  | v => refuse (.notScalar v.kindName)

/-- The literal of a value that has to be a text. Other values are of the wrong kind; a
collection is searched for a NUL text before that shows. -/
def ofTextValue : Value → Except Error Literal
  | .text s => ofText s
  | v =>
    match v with
    | .list _ | .tuple _ | .set _ | .mapping _ =>
      if (Value.text "\x00").memberOf (v.items?.getD []) then refuse .nulInLiteral
      else .error .missingField
    | _ => .error .wrongKind

/-- Whether the literal is a number below zero. -/
def isNegative : Literal → Bool
  | int i => decide (i < 0)
  | float x _ => x.compareInt? 0 == some .lt
  | _ => false

/-- Backslash and quote each behind a backslash. -/
def backslashed (cs : List Char) : List Char :=
  cs.flatMap fun c => if c = '\\' ∨ c = '\'' then ['\\', c] else [c]

/-- Quote and backslash each written twice. -/
def doubledBoth (cs : List Char) : List Char :=
  cs.flatMap fun c => if c = '\\' ∨ c = '\'' then [c, c] else [c]

def doubledQuotes (cs : List Char) : List Char :=
  cs.flatMap fun c => if c = '\'' then [c, c] else [c]

/-- The characters of a text literal. PostgreSQL has an escape form for texts with a backslash. -/
def quotedText (e : Engine) (cs : List Char) : List Char :=
  match e with
  | .clickhouse => '\'' :: backslashed cs ++ ['\'']
  | .postgresql =>
    if cs.contains '\\' then 'E' :: '\'' :: doubledBoth cs ++ ['\'']
    else '\'' :: doubledQuotes cs ++ ['\'']
  | .sqlite | .trino => '\'' :: doubledQuotes cs ++ ['\'']

def quoteText (e : Engine) (s : String) : String := String.ofList (quotedText e s.toList)

/-- On Trino a number with a point alone is a decimal, so an exponent is added. -/
def renderFloat (e : Engine) (x : Double) : String :=
  let text := x.toText
  if e = .trino ∧ !text.contains 'e' then text ++ "E0" else text

/-- A point in time or a date: SQLite has texts for them, ClickHouse functions. -/
def renderMoment (e : Engine) (function keyword text : String) : String :=
  match e with
  | .clickhouse => function ++ "(" ++ quoteText e text ++ ")"
  | .sqlite => quoteText e text
  | .postgresql | .trino => keyword ++ " " ++ quoteText e text

def renderBool (e : Engine) (b : Bool) : String :=
  match e with
  | .sqlite => if b then "1" else "0"
  | .clickhouse => if b then "true" else "false"
  | .postgresql | .trino => if b then "TRUE" else "FALSE"

def render (e : Engine) : Literal → String
  | null => "NULL"
  | bool b => renderBool e b
  | int i => toString i
  | float x _ => renderFloat e x
  | datetime t => renderMoment e "toDateTime" "TIMESTAMP" t.toSecondsText
  | date d => renderMoment e "toDate" "DATE" d.toIso
  | text s _ => quoteText e s

end Literal
end SyntheticRows.Sql
