import SyntheticRows.Decimal.Reading
import SyntheticRows.Error

/-!
# Reading JSON

The reader also takes NaN and the infinities by name. Of entries with one key the last counts.
-/
namespace SyntheticRows.Json

def isBlank (c : Char) : Bool := c = ' ' || c = '\t' || c = '\n' || c = '\r'

def skipBlanks (cs : List Char) : List Char := cs.dropWhile isBlank

def simpleEscape? : Char → Option Nat
  | '"' => some 34
  | '\\' => some 92
  | '/' => some 47
  | 'b' => some 8
  | 'f' => some 12
  | 'n' => some 10
  | 'r' => some 13
  | 't' => some 9
  | _ => none

/-- The code points and UTF-16 units of a text after its opening quote, and what follows it. -/
def readUnits? : List Char → Option (List Nat × List Char)
  | [] => none
  | '"' :: rest => some ([], rest)
  | '\\' :: 'u' :: a :: b :: c :: d :: rest => do
    let n ← natOfBase? 16 [a, b, c, d]
    let (units, rest) ← readUnits? rest
    return (n :: units, rest)
  | '\\' :: c :: rest => do
    let n ← simpleEscape? c
    let (units, rest) ← readUnits? rest
    return (n :: units, rest)
  | c :: rest => do
    if c.toNat < 32 then none
    let (units, rest) ← readUnits? rest
    return (c.toNat :: units, rest)

def isHighSurrogate (n : Nat) : Bool := 0xd800 ≤ n && n < 0xdc00

def isLowSurrogate (n : Nat) : Bool := 0xdc00 ≤ n && n < 0xe000

/-- Half of a pair alone has no character. -/
def charOfUnit (n : Nat) : Char := if n.isValidChar then Char.ofNat n else '\ufffd'

/-- Puts surrogate pairs together. -/
def joinUnits : List Nat → List Char
  | [] => []
  | [n] => [charOfUnit n]
  | a :: b :: rest =>
    if isHighSurrogate a && isLowSurrogate b then
      Char.ofNat (0x10000 + (a - 0xd800) * 0x400 + (b - 0xdc00)) :: joinUnits rest
    else charOfUnit a :: joinUnits (b :: rest)

def readText? (cs : List Char) : Option (String × List Char) :=
  (readUnits? cs).map fun r => (String.ofList (joinUnits r.1), r.2)

/-- A word at the front. -/
def word? (w : String) (cs : List Char) : Option (List Char) :=
  if w.toList.isPrefixOf cs then some (cs.drop w.length) else none

/-- A fraction, if digits follow the point. -/
def fractionLength (cs : List Char) : Nat :=
  match cs with
  | '.' :: rest =>
    let n := (rest.takeWhile isDigit).length
    if n = 0 then 0 else n + 1
  | _ => 0

def exponentLength (cs : List Char) : Nat :=
  match cs with
  | c :: rest =>
    if c = 'e' ∨ c = 'E' then
      let (sign, ds) := match rest with
        | '+' :: r | '-' :: r => (1, r)
        | r => (0, r)
      let n := (ds.takeWhile isDigit).length
      if n = 0 then 0 else n + sign + 1
    else 0
  | [] => 0

/-- A whole part without leading zeros. -/
def wholeLength (cs : List Char) : Nat :=
  match cs with
  | '0' :: _ => 1
  | _ => (cs.takeWhile isDigit).length

/-- The longest number at the front. -/
def readNumber (cs : List Char) : Except Error (Value × List Char) := do
  let (negative, body) := match cs with
    | '-' :: rest => (true, rest)
    | _ => (false, cs)
  let whole := wholeLength body
  let fraction := fractionLength (body.drop whole)
  let exponent := exponentLength (body.drop (whole + fraction))
  let length := whole + fraction + exponent
  let rest := body.drop length
  if whole = 0 then throw .malformedJson
  if fraction = 0 ∧ exponent = 0 then
    if digitLimit < whole then throw (.numeralTooLong whole)
    return (.int (Text.signed negative (natOfDigits (body.take whole))), rest)
  let x ← orError .malformedJson
    (Double.ofChars? (cs.take (length + if negative then 1 else 0)))
  return (.float x, rest)

def constants : List (String × Value) :=
  [("null", .null), ("true", .bool true), ("false", .bool false), ("NaN", .float .nan),
    ("Infinity", .float (.infinite false)), ("-Infinity", .float (.infinite true))]

/-- A constant, a number or a text. -/
def readScalar (cs : List Char) : Except Error (Value × List Char) :=
  match constants.findSome? fun c => (word? c.1 cs).map fun rest => (c.2, rest) with
  | some r => .ok r
  | none =>
    match cs with
    | '"' :: rest => orError .malformedJson ((readText? rest).map fun r => (.text r.1, r.2))
    | _ => readNumber cs

mutual

/-- One value; the number bounds the depth and length of what follows. -/
def readValue : Nat → List Char → Except Error (Value × List Char)
  | 0, _ => .error .malformedJson
  | fuel + 1, cs =>
    match cs with
    | '[' :: rest =>
      match skipBlanks rest with
      | ']' :: rest => .ok (.list [], rest)
      | cs => (readItems fuel cs).map fun r => (.list r.1, r.2)
    | '\x7b' :: rest =>
      match skipBlanks rest with
      | '\x7d' :: rest => .ok (.mapping [], rest)
      | cs => (readEntries fuel [] cs).map fun r => (.mapping r.1, r.2)
    | _ => readScalar cs

/-- The items of a list that is not empty. -/
def readItems : Nat → List Char → Except Error (List Value × List Char)
  | 0, _ => .error .malformedJson
  | fuel + 1, cs => do
    let (v, rest) ← readValue fuel cs
    match skipBlanks rest with
    | ']' :: rest => return ([v], rest)
    | ',' :: rest =>
      let (more, rest) ← readItems fuel (skipBlanks rest)
      return (v :: more, rest)
    | _ => throw .malformedJson

/-- The entries of a mapping that is not empty, added to those before. -/
def readEntries :
    Nat → List (Value × Value) → List Char → Except Error (List (Value × Value) × List Char)
  | 0, _, _ => .error .malformedJson
  | fuel + 1, found, cs =>
    match cs with
    | '"' :: rest => do
      let (key, rest) ← orError .malformedJson (readText? rest)
      match skipBlanks rest with
      | ':' :: rest =>
        let (v, rest) ← readValue fuel (skipBlanks rest)
        let found := Value.insertEntry (.text key) v found
        match skipBlanks rest with
        | '\x7d' :: rest => return (found, rest)
        | ',' :: rest => readEntries fuel found (skipBlanks rest)
        | _ => throw .malformedJson
      | _ => throw .malformedJson
    | _ => .error .malformedJson

end

/-- The one value of a text. -/
def read (text : String) : Except Error Value := do
  let cs := text.toList
  let (v, rest) ← readValue (cs.length + 1) (skipBlanks cs)
  if (skipBlanks rest).isEmpty then return v else throw .malformedJson

end SyntheticRows.Json
