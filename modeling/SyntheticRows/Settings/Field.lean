import SyntheticRows.Settings.Numeral

/-!
# Reading fields of settings

Fields are read leniently: a whole number may be given as a truth value, a whole float or a text
of digits, a truth value as 0 or 1 or as a word, and bytes stand for the text that they encode.
Reading again what was read changes nothing.
-/
namespace SyntheticRows.Settings

abbrev Reader (α : Type) := Value → Except Problem α

/-- The text that bytes encode in UTF-8. -/
def decoded? (content : List UInt8) : Option String := String.fromUTF8? ⟨content.toArray⟩

def readText : Reader String
  | .text s => .ok s
  | .bytes content =>
    match decoded? content with
    | some s => .ok s
    | none => .error .undecodable
  | _ => .error .notText

def readInteger : Reader Int
  | .int i => .ok i
  | .bool b => .ok (if b then 1 else 0)
  | .float x =>
    match x.truncate? with
    | none => .error .notFinite
    | some i =>
      if !x.isWhole then .error .fractional
      else if i.natAbs < twoPow 63 then .ok i
      else .error .integerTooLong
  | .text s => integerOfText s
  | .bytes content =>
    match decoded? content with
    | some s => integerOfText s
    | none => .error .unreadableInteger
  | _ => .error .notInteger

def trueWords : List String := ["1", "on", "t", "true", "y", "yes"]

def falseWords : List String := ["0", "off", "f", "false", "n", "no"]

/-- Numbers of 64 bits can stand for truth values, and only 0 and 1 do. -/
def readBit (i : Int) : Except Problem Bool :=
  if i = 1 then .ok true
  else if i = 0 then .ok false
  else if -(twoPow 63 : Int) ≤ i ∧ i < twoPow 63 then .error .unreadableBoolean
  else .error .notBoolean

def readWord (s : String) : Except Problem Bool :=
  let word := String.ofList (s.toList.map Char.toLower)
  if trueWords.contains word then .ok true
  else if falseWords.contains word then .ok false
  else .error .unreadableBoolean

def readBool : Reader Bool
  | .bool b => .ok b
  | .int i => readBit i
  | .float x =>
    match x.truncate? with
    | some i => if x.isWhole && i.natAbs < twoPow 63 then readBit i else .error .notBoolean
    | none => .error .notBoolean
  | .text s => readWord s
  | .bytes content =>
    match decoded? content with
    | some s => readWord s
    | none => .error .unreadableBoolean
  | _ => .error .notBoolean

def readOptional {α : Type} (reader : Reader α) : Reader (Option α)
  | .null => .ok none
  | v => (reader v).map some

/-- Adds a check to a reader. -/
def readChecked {α β : Type} (reader : Reader α) (check : α → Except String β) : Reader β :=
  fun v => do
    let a ← reader v
    (check a).mapError .refused

/-- The fields given for a record; a name may be given once. -/
abbrev Fields := List (Value × Value)

/-- Reads one field: the default if it is not given, and otherwise the value or its problem. -/
def readField {α : Type} (fields : Fields) (name : String) (reader : Reader α) (default : α) :
    Except FieldProblem α :=
  match Value.find? fields name with
  | none => .ok default
  | some v => (reader v).mapError fun p => ⟨name, p, v⟩

/-- The problem of a field, if it has one. -/
def problemOf {α : Type} (r : Except FieldProblem α) : List FieldProblem :=
  match r with
  | .ok _ => []
  | .error p => [p]

end SyntheticRows.Settings
