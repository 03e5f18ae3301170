/-!
# Dates of the proleptic Gregorian calendar

Years run from 1 to 9999. Day 1 is the first of January of year 1; the day of the epoch
1970-01-01 is 719163.
-/
namespace SyntheticRows

def isLeap (year : Nat) : Bool :=
  year % 4 == 0 && (year % 100 != 0 || year % 400 == 0)

def daysInMonth (year month : Nat) : Nat :=
  match month with
  | 2 => if isLeap year then 29 else 28
  | 4 | 6 | 9 | 11 => 30
  | _ => 31

def IsDate (year month day : Nat) : Prop :=
  1 ≤ year ∧ year ≤ 9999 ∧ 1 ≤ month ∧ month ≤ 12 ∧ 1 ≤ day ∧ day ≤ daysInMonth year month

instance (year month day : Nat) : Decidable (IsDate year month day) := by
  unfold IsDate; infer_instance

structure Date where
  year : Nat
  month : Nat
  day : Nat
  valid : IsDate year month day
  deriving DecidableEq

namespace Date

def ofParts? (year month day : Nat) : Option Date :=
  if h : IsDate year month day then some ⟨year, month, day, h⟩ else none

/-- The days in the years before `year`. -/
def daysBeforeYear (year : Nat) : Nat :=
  let y := year - 1
  365 * y + y / 4 - y / 100 + y / 400

/-- The days of the year before the month starts. -/
def daysBeforeMonth (year month : Nat) : Nat :=
  (List.range (month - 1)).foldl (fun days m => days + daysInMonth year (m + 1)) 0

/-- The number of the day, counted from 1 on the first of January of year 1. -/
def dayNumber (d : Date) : Nat :=
  daysBeforeYear d.year + daysBeforeMonth d.year d.month + d.day

def epochDay : Nat := 719163

/-- The year that holds a day number: the last one that starts before it. -/
def yearOfDay (n : Nat) : Nat :=
  let guess := (n - 1) / 366 + 1
  go guess ((n - 1) / 365 + 1 - guess)
where
  go (year : Nat) : Nat → Nat
    | 0 => year
    | k + 1 => if daysBeforeYear (year + 1) < n then go (year + 1) k else year

/-- The month and day of the `k`-th day of a year, starting the search at `month`. -/
def monthDay (year month k : Nat) : Nat → Nat × Nat
  | 0 => (month, k)
  | fuel + 1 =>
    if k ≤ daysInMonth year month then (month, k)
    else monthDay year (month + 1) (k - daysInMonth year month) fuel

/-- The date with the given day number, if it lies in the years 1 to 9999. -/
def ofDayNumber? (n : Nat) : Option Date :=
  let year := yearOfDay n
  let (month, day) := monthDay year 1 (n - daysBeforeYear year) 12
  ofParts? year month day

end Date
end SyntheticRows
