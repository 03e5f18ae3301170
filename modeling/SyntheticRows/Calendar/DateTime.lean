import SyntheticRows.Calendar.Date

/-!
# Points in time

A `DateTime` is a date and a time of day to the microsecond, with or without an offset from UTC.
One without an offset is taken as UTC.
-/
namespace SyntheticRows

def IsTime (hour minute second micro : Nat) : Prop :=
  hour < 24 ∧ minute < 60 ∧ second < 60 ∧ micro < 1000000

instance (hour minute second micro : Nat) : Decidable (IsTime hour minute second micro) := by
  unfold IsTime; infer_instance

structure TimeOfDay where
  hour : Nat
  minute : Nat
  second : Nat
  micro : Nat
  valid : IsTime hour minute second micro
  deriving DecidableEq

namespace TimeOfDay

def ofParts? (hour minute second micro : Nat) : Option TimeOfDay :=
  if h : IsTime hour minute second micro then some ⟨hour, minute, second, micro, h⟩ else none

def midnight : TimeOfDay := ⟨0, 0, 0, 0, by decide⟩

def micros (t : TimeOfDay) : Nat :=
  ((t.hour * 60 + t.minute) * 60 + t.second) * 1000000 + t.micro

end TimeOfDay

structure DateTime where
  date : Date
  time : TimeOfDay
  /-- Microseconds that local time is ahead of UTC. -/
  offset : Option Int
  deriving DecidableEq

namespace DateTime

def microsPerDay : Nat := 86400000000

def ofDate (d : Date) : DateTime := ⟨d, .midnight, none⟩

/-- Microseconds of the clock reading since 1970-01-01, the offset left aside. -/
def localMicros (t : DateTime) : Int :=
  ((t.date.dayNumber : Int) - Date.epochDay) * microsPerDay + t.time.micros

/-- Microseconds since 1970-01-01 in UTC. -/
def utcMicros (t : DateTime) : Int := t.localMicros - t.offset.getD 0

/-- The clock reading without offset at some microseconds from 1970-01-01. -/
def ofMicros? (n : Int) : Option DateTime := do
  let day := n / microsPerDay + Date.epochDay
  let rest := (n % microsPerDay).toNat
  let date ← if day < 1 then none else Date.ofDayNumber? day.toNat
  let seconds := rest / 1000000
  let time ← TimeOfDay.ofParts? (seconds / 3600) (seconds / 60 % 60) (seconds % 60)
    (rest % 1000000)
  return ⟨date, time, none⟩

/-- The same instant as a UTC clock reading without offset; none outside the years 1 to 9999. -/
def naiveUtc? (t : DateTime) : Option DateTime :=
  match t.offset with
  | none => some t
  | some _ => ofMicros? t.utcMicros

/-- Whole seconds from the epoch to the instant, fractions cut off downwards. -/
def epochSeconds? (t : DateTime) : Option Int :=
  t.naiveUtc?.map fun u => u.localMicros / 1000000

/-- Whether two points in time are the same: two clock readings, or two instants. -/
def same (a b : DateTime) : Bool :=
  match a.offset, b.offset with
  | none, none => a.localMicros == b.localMicros
  | some _, some _ => a.utcMicros == b.utcMicros
  | _, _ => false

end DateTime
end SyntheticRows
