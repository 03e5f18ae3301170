import SyntheticRows.Error

/-!
# Whole numbers from values

A number is cut toward zero, a truth value is 0 or 1, a text or bytes are read.
-/
namespace SyntheticRows.Value

/-- A text or bytes that are no whole number. -/
def notNumeral (v : Value) : Text.NumeralFault → Error
  | .malformed =>
    .badValue ("invalid literal for int() with base 10: " ++
      String.ofList (v.inspect.toList.take 200))
  | .tooLong digits => .numeralTooLong digits

def notNumber (v : Value) : Error :=
  .wrongKind ("int() argument must be a string, a bytes-like object or a real number, not '" ++
    v.qualifiedKind ++ "'")

/-- Bytes as characters; those outside ASCII are neither digits nor blanks. -/
def asciiText (content : List UInt8) : List Char :=
  content.map fun b => if b < 128 then Char.ofNat b.toNat else '?'

def whole : Value → Except Error Int
  | bool b => .ok (if b then 1 else 0)
  | int i => .ok i
  | float .nan => .error (.badValue "cannot convert float NaN to integer")
  | float x => orError (.outOfRange "cannot convert float infinity to integer") x.truncate?
  | text s => (Text.readInteger s.toList).mapError (notNumeral (text s))
  | bytes content => (Text.readInteger (asciiText content)).mapError (notNumeral (bytes content))
  | v => .error (notNumber v)

/-- Zero for what counts as absent. -/
def wholeOrZero (v : Value) : Except Error Int :=
  if v.isPresent then v.whole else .ok 0

end SyntheticRows.Value
