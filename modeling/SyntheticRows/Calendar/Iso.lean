import SyntheticRows.Calendar.DateTime
import SyntheticRows.Decimal.Reading
import SyntheticRows.Decimal.Shortest

/-!
# ISO 8601 texts

Dates and points in time are written as `2020-01-02` and `2020-01-02T03:04:05.000006+02:00`,
microseconds and offset only if present. Reading also takes the basic forms, ISO weeks, any
one separator between date and time, and fractions of any length.
-/
namespace SyntheticRows

namespace Date

def toIso (d : Date) : String :=
  String.ofList (padded 4 d.year ++ '-' :: padded 2 d.month ++ '-' :: padded 2 d.day)

/-- The day number of the Monday of the first ISO week, the one that holds January 4. -/
def firstMonday (year : Nat) : Int :=
  let first : Int := daysBeforeYear year + 1
  let weekday := (first + 6) % 7
  let monday := first - weekday
  if weekday > 3 then monday + 7 else monday

/-- The day of an ISO week; the years that start on a Thursday, or leap years that start on a
Wednesday, have 53 weeks. -/
def ofWeek? (year week day : Nat) : Option Date :=
  let start := (daysBeforeYear year + 7) % 7
  let long := start = 3 ∨ (start = 2 ∧ isLeap year)
  if 1 ≤ year ∧ year ≤ 9999 ∧ 1 ≤ week ∧ (week ≤ 52 ∨ (week = 53 ∧ long)) ∧ 1 ≤ day ∧ day ≤ 7 then
    let n := firstMonday year + (week - 1) * 7 + day - 1
    if n < 1 then none else ofDayNumber? n.toNat
  else none

end Date

namespace DateTime

def clockText (t : TimeOfDay) : List Char :=
  padded 2 t.hour ++ ':' :: padded 2 t.minute ++ ':' :: padded 2 t.second ++
    (if t.micro = 0 then [] else '.' :: padded 6 t.micro)

/-- An offset as sign, hours and minutes; seconds and microseconds only if present. -/
def offsetText (offset : Int) : List Char :=
  let n := offset.natAbs
  let seconds := n / 1000000
  let micro := n % 1000000
  let sign := if offset < 0 then '-' else '+'
  sign :: padded 2 (seconds / 3600) ++ ':' :: padded 2 (seconds / 60 % 60) ++
    (if seconds % 60 = 0 ∧ micro = 0 then [] else ':' :: padded 2 (seconds % 60)) ++
    (if micro = 0 then [] else '.' :: padded 6 micro)

def isoWith (separator : Char) (t : DateTime) : String :=
  t.date.toIso ++ String.ofList (separator :: clockText t.time ++
    (t.offset.map offsetText).getD [])

def toIso (t : DateTime) : String := isoWith 'T' t

/-- `2020-01-02 03:04:05`; the year is written without padding. -/
def toSecondsText (t : DateTime) : String :=
  String.ofList (natDigits t.date.year ++ '-' :: padded 2 t.date.month ++ '-' ::
    padded 2 t.date.day ++ ' ' :: padded 2 t.time.hour ++ ':' :: padded 2 t.time.minute ++ ':' ::
    padded 2 t.time.second)

end DateTime

namespace Iso

/-- Exactly `n` digits at the front, and the rest. -/
def digits? (n : Nat) (cs : List Char) : Option (Nat × List Char) :=
  let ds := cs.take n
  if ds.length = n ∧ ds.all isDigit then some (natOfDigits ds, cs.drop n) else none

/-- Where the date part ends: after 7 characters (`2020W01`), 8 or 10. -/
def dateLength (cs : List Char) : Nat :=
  let at_ (i : Nat) : Char := cs.getD i '\x00'
  if cs.length = 7 then 7
  else if at_ 4 = '-' then
    if at_ 5 = 'W' then
      if cs.length > 8 ∧ at_ 8 = '-' then
        if cs.length > 10 ∧ isDigit (at_ 10) then 8 else 10
      else 8
    else 10
  else if at_ 4 = 'W' then
    let stop := 7 + ((cs.drop 7).takeWhile isDigit).length
    if stop < 9 then stop else if stop % 2 = 0 then 7 else 8
  else 8

/-- A week date after its `W`. -/
def weekDate? (year : Nat) (separated : Bool) (cs : List Char) : Option Date := do
  let (week, rest) ← digits? 2 cs
  if rest.isEmpty then Date.ofWeek? year week 1
  else
    let rest ← if separated then (match rest with | '-' :: r => some r | _ => none) else some rest
    let (day, _) ← digits? 1 rest
    Date.ofWeek? year week day

def date? (cs : List Char) : Option Date := do
  let (year, rest) ← digits? 4 cs
  let (separated, rest) := match rest with
    | '-' :: r => (true, r)
    | r => (false, r)
  match rest with
  | 'W' :: r => weekDate? year separated r
  | _ =>
    let (month, rest) ← digits? 2 rest
    let rest ← if separated then (match rest with | '-' :: r => some r | _ => none) else some rest
    let (day, rest) ← digits? 2 rest
    if rest.isEmpty then Date.ofParts? year month day else none

/-- Hours, minutes, seconds and microseconds of a clock text. -/
structure Clock where
  parts : List Nat
  micro : Nat := 0
  /-- The text holds something after the last part that was read. -/
  trailing : Bool := false

def Clock.part (c : Clock) (i : Nat) : Nat := c.parts.getD i 0

/-- A fraction of a second: six digits count, more are cut off. -/
def fraction? (parts : List Nat) (cs : List Char) : Option Clock := do
  let width := min 6 cs.length
  if width = 0 then none
  let (n, rest) ← digits? width cs
  return ⟨parts, n * tenPow (6 - width), !(rest.dropWhile isDigit).isEmpty⟩

/-- Two-digit parts, three at most, then a fraction. `colons` says whether the first part was
followed by a colon; then every part has to be. -/
def clockParts? (colons : Option Bool) (parts : List Nat) (cs : List Char) : Nat → Option Clock
  | 0 => fraction? parts cs
  | more + 1 => do
    let (n, rest) ← digits? 2 cs
    let parts := parts ++ [n]
    match rest with
    | [] => return ⟨parts, 0, false⟩
    | c :: next =>
      let colons := colons.getD (c = ':')
      if next.isEmpty then return ⟨parts, 0, true⟩
      else if colons ∧ c = ':' then clockParts? (some colons) parts next more
      else if c = '.' ∨ c = ',' then fraction? parts next
      else if !colons then clockParts? (some colons) parts (c :: next) more
      else none

def clock? (cs : List Char) : Option Clock := clockParts? none [] cs 3

def isZoneMark (c : Char) : Bool := c = '+' || c = '-' || c = 'Z'

/-- The largest offset is below one day. -/
def zoneOffset? (negative : Bool) (c : Clock) : Option Int :=
  let seconds := c.part 0 * 3600 + c.part 1 * 60 + c.part 2
  let micros : Int := seconds * 1000000 + c.micro
  if seconds = 0 then some 0
  else if micros < DateTime.microsPerDay then some (if negative then -micros else micros)
  else none

/-- A time of day with an optional zone. -/
def timeZone? (cs : List Char) : Option (Clock × Option Int) := do
  let (clockChars, zone) := match cs with
    | [] => ([], [])
    | c :: rest =>
      if isZoneMark c then ([], cs)
      else (c :: rest.takeWhile (!isZoneMark ·), rest.dropWhile (!isZoneMark ·))
  let clock ← clock? clockChars
  match zone with
  | [] => if clock.trailing then none else return (clock, none)
  | 'Z' :: rest => if rest.isEmpty then return (clock, some 0) else none
  | mark :: rest =>
    let c ← clock? rest
    if c.trailing then none
    else return (clock, some (← zoneOffset? (mark = '-') c))

/-- Reads a point in time; a date alone is its midnight. -/
def dateTime? (cs : List Char) : Option DateTime := do
  if cs.length < 7 then none
  let split := dateLength cs
  let date ← date? (cs.take split)
  if cs.length ≤ split then return DateTime.ofDate date
  else
    let (clock, offset) ← timeZone? (cs.drop (split + 1))
    let time ← TimeOfDay.ofParts? (clock.part 0) (clock.part 1) (clock.part 2) clock.micro
    return ⟨date, time, offset⟩

end Iso

def DateTime.ofIso? (s : String) : Option DateTime := Iso.dateTime? s.toList

def Date.ofIso? (s : String) : Option Date := Iso.date? s.toList

end SyntheticRows
