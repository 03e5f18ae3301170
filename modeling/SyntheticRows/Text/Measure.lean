import SyntheticRows.Error

/-!
# Sizes and durations

Sizes and durations as people read them: `1.50 KB`, `850ms`, `12.34s`, `3m 05s`, `1h 02m 03s`.
-/
namespace SyntheticRows.Text

/-- Divides by 1024 until the number is small enough for its unit. -/
def scaleBytes (x : Double) : List String → String
  | [] => (x.divNat 1024).toFixed 2 ++ " TB"
  | unit :: rest =>
    let x := x.divNat 1024
    if (Number.float x.abs).lt (.int 1024) then x.toFixed 2 ++ " " ++ unit else scaleBytes x rest

def formatBytes (size : Number) : Except Error String := do
  let small := match size with
    | .int i => if i.natAbs < 1024 then some i else none
    | .float x => if (Number.float x.abs).lt (.int 1024) then x.truncate? else none
  match small with
  | some n => return toString n ++ " B"
  | none => return scaleBytes (← orError .numberTooLarge size.toDouble?) ["KB", "MB", "GB"]

/-- A thousandth, rounded once. -/
def thousandth? : Number → Option Double
  | .int i =>
    let x := Double.ofRatio (decide (i < 0)) i.natAbs 1000
    if x.isFinite then some x else none
  | .float x => some (x.divNat 1000)

/-- Two digits at least, with the sign in front. -/
def twoDigits (n : Nat) : String := String.ofList (padded 2 n)

def clockText (seconds : Int) : String :=
  let minutes := seconds / 60
  let rest := twoDigits (seconds % 60).toNat
  if minutes < 60 then toString minutes ++ "m " ++ rest ++ "s"
  else toString (minutes / 60) ++ "h " ++ twoDigits (minutes % 60).toNat ++ "m " ++ rest ++ "s"

def formatDuration (milliseconds : Number) : Except Error String := do
  if milliseconds.lt (.int 1000) then
    return (← orError .outOfRange milliseconds.toDouble?).toFixed 0 ++ "ms"
  let seconds ← orError .outOfRange (thousandth? milliseconds)
  if (Number.float seconds).lt (.int 60) then return seconds.toFixed 2 ++ "s"
  match seconds with
  | .nan => .error .badValue
  | _ => return clockText (← orError .outOfRange seconds.truncate?)

/-- A whole number with commas between groups of three digits. -/
def grouped (i : Int) : String :=
  let ds := natDigits i.natAbs
  let marked := ds.zipIdx.flatMap fun d =>
    if d.2 ≠ 0 ∧ (ds.length - d.2) % 3 = 0 then [',', d.1] else [d.1]
  String.ofList (if i < 0 then '-' :: marked else marked)

end SyntheticRows.Text
