import SyntheticRows.Spec.Check

/-!
# Generators

A generator is the rule that fills a column. The smart constructors take unchecked values and
report the first thing that is wrong with them.
-/
namespace SyntheticRows

/-- The progression `start, start + step, …`, keyed by the row ordinal. -/
structure Sequence where
  start : Int := 1
  step : Int := 1
  step_ne_zero : step ≠ 0 := by decide
  deriving DecidableEq

/-- The integers from `low` to `high`, both ends included. -/
structure IntRange where
  low : Int
  high : Int
  low_le_high : low ≤ high := by decide
  deriving DecidableEq

def IntRange.width (r : IntRange) : Int := r.high - r.low + 1

/-- The numbers from `low` to `high`, rounded to `places` decimals. -/
structure FloatRange where
  low : FiniteNumber
  high : FiniteNumber
  places : Nat := 2
  ordered : high.val.lt low.val = false := by decide
  deriving DecidableEq

/-- The whole seconds from `start` to `stop`, both included. Without `stop` the span ends at the
time at which a statement is compiled. -/
structure Span where
  start : DateTime
  stop : Option DateTime := none
  ordered : ∀ e, stop = some e → start.utcMicros ≤ e.utcMicros := by
    intro e h; cases h
  deriving DecidableEq

inductive Generator where
  | sequence (s : Sequence)
  | intRange (r : IntRange)
  | floatRange (r : FloatRange)
  /-- Texts of exactly `length` characters. -/
  | randomText (length : Nat)
  /-- A uniform pick from a short list, written out in every row's expression. -/
  | choice (values : List Value)
  /-- A uniform pick from a long list, written once in a statement. -/
  | choiceByLookup (values : List Value)
  | constant (value : Value)
  | span (s : Span)
  | uuid
  /-- A generator of a kind that no dialect knows; the kind may have a name. -/
  | other (kind : Option Value)

namespace Generator
open Spec

def isSequence : Generator → Bool
  | sequence _ => true
  | _ => false

def ofSequence (start step : Value) : Except Error Generator := do
  let start ← checkWhole "sequence" "start" start
  let step ← checkWhole "sequence" "step" step
  if h : step ≠ 0 then return .sequence ⟨start, step, h⟩ else refuse .zeroStep

def ofIntRange (low high : Value) : Except Error Generator := do
  let low ← checkWhole "randomInt" "min" low
  let high ← checkWhole "randomInt" "max" high
  if h : low ≤ high then return .intRange ⟨low, high, h⟩
  else refuse (.minAboveMax "randomInt" (.int low) (.int high))

def ofFloatRange (low high places : Value) : Except Error Generator := do
  let low ← checkFinite "randomFloat" "min" low
  let high ← checkFinite "randomFloat" "max" high
  let places ← checkWhole "randomFloat" "precision" places
  if h : high.val.lt low.val = false then
    if places < 0 then refuse (.negative "randomFloat.precision")
    else return .floatRange ⟨low, high, places.toNat, h⟩
  else refuse (.minAboveMax "randomFloat" low.val high.val)

def ofLength (length : Value) : Except Error Generator := do
  let n ← checkWhole "randomString" "length" length
  if n < 0 then refuse (.negative "randomString.length") else return .randomText n.toNat

def ofChoice (values : Value) : Except Error Generator := return .choice (← checkItems values)

def ofLookup (values : Value) : Except Error Generator :=
  return .choiceByLookup (← checkItems values)

/-- A date stands for its midnight. -/
def checkDateTime (label : String) : Value → Except Error DateTime
  | .datetime t => .ok t
  | .date d => .ok (.ofDate d)
  | v => refuse (.notDatetime label v)

def ofSpan (start stop : Value) : Except Error Generator := do
  let start ← checkDateTime "datetime.from" start
  match stop with
  | .null => return .span { start }
  | _ =>
    let stop ← checkDateTime "datetime.to" stop
    let _ ← orError .dateTooFar start.naiveUtc?
    let _ ← orError .dateTooFar stop.naiveUtc?
    if h : start.utcMicros ≤ stop.utcMicros then
      return .span ⟨start, some stop, fun _ e => by cases e; exact h⟩
    else refuse .reversedSpan

end Generator
end SyntheticRows
