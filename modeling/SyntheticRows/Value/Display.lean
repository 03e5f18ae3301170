import SyntheticRows.Calendar.Iso
import SyntheticRows.Text.Classes
import SyntheticRows.Text.Quoted
import SyntheticRows.Value.Basic

/-!
# Display of values

`Value.inspect` is the form that shows the kind of a value: texts quoted, dates as constructor
calls. `Value.display` is the form for running text: a text as it is, dates in ISO form.
-/
namespace SyntheticRows

namespace DateTime

/-- A span of time as days, seconds and microseconds, zero parts left out. -/
def inspectSpan (micros : Int) : String :=
  let days := micros / microsPerDay
  let rest := micros % microsPerDay
  let part (name : String) (n : Int) : List String :=
    if n = 0 then [] else [name ++ "=" ++ toString n]
  let parts := part "days" days ++ part "seconds" (rest / 1000000) ++
    part "microseconds" (rest % 1000000)
  "datetime.timedelta(" ++ (if parts.isEmpty then "0" else Text.joined ", " parts) ++ ")"

def inspectZone (offset : Int) : String :=
  if offset = 0 then "datetime.timezone.utc"
  else "datetime.timezone(" ++ inspectSpan offset ++ ")"

/-- Seconds and microseconds are shown only if needed. -/
def inspect (t : DateTime) : String :=
  let base := [t.date.year, t.date.month, t.date.day, t.time.hour, t.time.minute]
  let seconds := if t.time.micro ≠ 0 then [t.time.second, t.time.micro]
    else if t.time.second ≠ 0 then [t.time.second] else []
  let zone := match t.offset with
    | none => []
    | some o => ["tzinfo=" ++ inspectZone o]
  "datetime.datetime(" ++ Text.joined ", " ((base ++ seconds).map toString ++ zone) ++ ")"

end DateTime

def Date.inspect (d : Date) : String :=
  "datetime.date(" ++ Text.joined ", " ([d.year, d.month, d.day].map toString) ++ ")"

namespace Value

mutual

def inspect : Value → String
  | null => "None"
  | bool b => if b then "True" else "False"
  | int i => toString i
  | float x => x.toText
  | text s => Text.quoted s
  | date d => d.inspect
  | datetime t => t.inspect
  | bytes content => Text.quotedBytes content
  | list items => "[" ++ Text.joined ", " (inspectItems items) ++ "]"
  | tuple items =>
    "(" ++ Text.joined ", " (inspectItems items) ++ (if items.length = 1 then ",)" else ")")
  | set [] => "set()"
  | set (first :: rest) =>
    "\x7b" ++ Text.joined ", " (inspect first :: inspectItems rest) ++ "\x7d"
  | mapping entries => "\x7b" ++ Text.joined ", " (inspectEntries entries) ++ "\x7d"

def inspectItems : List Value → List String
  | [] => []
  | v :: rest => inspect v :: inspectItems rest

def inspectEntries : List (Value × Value) → List String
  | [] => []
  | e :: rest => inspectEntry e :: inspectEntries rest

def inspectEntry : Value × Value → String
  | (k, v) => inspect k ++ ": " ++ inspect v

end

def display : Value → String
  | text s => s
  | date d => d.toIso
  | datetime t => t.isoWith ' '
  | v => v.inspect

end Value

/-- Texts as a bracketed list, each quoted. -/
def inspectTexts (names : List String) : String := (Value.list (names.map .text)).inspect

end SyntheticRows
