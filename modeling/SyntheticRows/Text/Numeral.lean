import SyntheticRows.Decimal.Power
import SyntheticRows.Text.Classes

/-!
# Numerals

Whole numbers as texts: blanks around them, an optional sign, and digits of any script with single
underscores between them. Decimal numerals are limited in length.
-/
namespace SyntheticRows.Text

/-- Why a text is no whole number. -/
inductive NumeralFault where
  | malformed
  | tooLong (digits : Nat)
  deriving DecidableEq, Repr

/-- The digits at the front, with single underscores between them, and what follows; none if an
underscore stands anywhere else or there are no digits. `after` says that a digit stands right
before. -/
def spanDigits? (digit? : Char → Option Nat) (after : Bool) :
    List Char → Option (List Nat × List Char)
  | [] => if after then some ([], []) else none
  | c :: rest =>
    if c = '_' then (if after then spanDigits? digit? false rest else none)
    else match digit? c with
      | some d => (spanDigits? digit? true rest).map fun r => (d :: r.1, r.2)
      | none => if after then some ([], c :: rest) else none

/-- The number that digits of a base denote. -/
def ofDigits (base : Nat) (ds : List Nat) : Nat := ds.foldl (fun n d => base * n + d) 0

/-- Digits to the end, blanks after them left out. -/
def readDigits (base : Nat) (limit : Option Nat) (digit? : Char → Option Nat) (cs : List Char) :
    Except NumeralFault Nat :=
  match spanDigits? digit? false cs with
  | none => .error .malformed
  | some (ds, rest) =>
    if limit.any (· < ds.length) then .error (.tooLong ds.length)
    else if rest.all isBlank then .ok (ofDigits base ds) else .error .malformed

def signed (negative : Bool) (n : Nat) : Int := if negative then -(n : Int) else n

/-- Reads a decimal numeral. -/
def readInteger (cs : List Char) : Except NumeralFault Int := do
  let (negative, body) := Double.readSign (cs.dropWhile isBlank)
  return signed negative (← readDigits 10 (some digitLimit) decimalValue? body)

/-- A digit below a base, letters counting from ten. -/
def digitOf? (base : Nat) (c : Char) : Option Nat :=
  (decimalValue? c <|> hexValue? c).filter (· < base)

/-- A zero and the letter that announces a base, with an underscore at most after them. -/
def dropMark (letter : Char) (cs : List Char) : List Char :=
  match cs with
  | '0' :: c :: rest =>
    if c.toLower = letter then (match rest with
      | '_' :: rest => rest
      | _ => rest)
    else cs
  | _ => cs

/-- Reads a numeral to another base; the letter may announce the base. -/
def readIntegerIn (base : Nat) (letter : Char) (cs : List Char) : Except NumeralFault Int := do
  let (negative, body) := Double.readSign (cs.dropWhile isBlank)
  return signed negative (← readDigits base none (digitOf? base) (dropMark letter body))

/-- The text with the decimal digits of all scripts written as ASCII ones. -/
def plainDigits (cs : List Char) : List Char :=
  cs.map fun c => match decimalValue? c with
    | some d => Char.ofNat ('0'.toNat + d)
    | none => c

end SyntheticRows.Text
