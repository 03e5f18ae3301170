import SyntheticRows.Proofs.Meaning.Number
import SyntheticRows.Sql.Expr

/-!
# What columns hold

The contents of columns as SQL computes with them, and the operators and functions that the
statements of transformations use. Numbers are exact. What engines may do differently is left to
`Rules`: the text of a content, lower case, and which contents count as equal.
-/
namespace SyntheticRows

inductive Datum where
  | null
  | bool (b : Bool)
  | number (q : ℚ)
  | text (s : String)
  | other (v : Value)
  | list (items : List Datum)

def Datum.isNull : Datum → Bool
  | null => true
  | _ => false

structure Rules where
  engine : Engine
  toText : Datum → String
  toText_text : ∀ s, toText (.text s) = s
  lower : String → String
  /-- Contents that count as equal share one representative; null counts as equal to nothing. -/
  canon : Datum → Datum
  isNull_canon : ∀ x, (canon x).isNull = x.isNull

/-- The rules under which only texts have a text and contents are equal as they are. -/
def Rules.plain (engine : Engine) : Rules where
  engine
  toText
    | .text s => s
    | _ => ""
  toText_text _ := rfl
  lower := id
  canon := id
  isNull_canon _ := rfl

/-- The scalar functions by what they do; each engine has its names for them. -/
inductive Builtin where
  | lower
  | length
  | slice
  | toText
  | floor
  | truncate
  deriving DecidableEq

namespace Builtin

def ofName? : String → Option Builtin
  | "lower" | "lowerUTF8" => some lower
  | "length" | "lengthUTF8" => some length
  | "substr" | "substringUTF8" => some slice
  | "toString" => some toText
  | "floor" => some floor
  | "toInt64" => some truncate
  | _ => none

end Builtin

/-- What a cast makes of a content. -/
inductive CastKind where
  | toText
  | toWhole
  deriving DecidableEq

def CastKind.ofName? : String → Option CastKind
  | "TEXT" | "VARCHAR" => some toText
  | "INTEGER" | "BIGINT" | "int" => some toWhole
  | _ => none

/-- The whole part, toward zero. -/
def truncated (q : ℚ) : ℤ := if 0 ≤ q then ⌊q⌋ else ⌈q⌉

namespace Datum

/-- Two truth values, either of which may be unknown. -/
def conjunction : Datum → Datum → Option Datum
  | bool a, bool b => some (bool (a && b))
  | bool false, null | null, bool false => some (bool false)
  | bool true, null | null, bool true | null, null => some null
  | _, _ => none

/-- The bitwise conjunction of signed 64-bit integers. -/
def maskedBits (a b : ℤ) : ℤ := (BitVec.ofInt 64 a &&& BitVec.ofInt 64 b).toInt

/-- Division here is that of fractions: its right side is always written with a point. -/
def arithmetic (op : Sql.Operator) (a b : ℚ) : Option Datum :=
  match op with
  | .add => some (number (a + b))
  | .sub => some (number (a - b))
  | .mul => some (number (a * b))
  | .div => if b = 0 then none else some (number (a / b))
  | .bitAnd => some (number (maskedBits ⌊a⌋ ⌊b⌋))
  | .less => some (bool (a < b))
  | .greater => some (bool (b < a))
  | .atMost => some (bool (a ≤ b))
  | _ => none

end Datum

namespace Sql.Literal

/-- What a literal stands for. -/
def datum : Literal → Datum
  | null => .null
  | bool b => .bool b
  | int i => .number i
  | float x _ => .number x.toRat
  | datetime t => .other (.datetime t)
  | date d => .other (.date d)
  | text s _ => .text s

end Sql.Literal

namespace Rules
open Datum Sql

variable (R : Rules)

/-- A function of the text of a content; null stays null. -/
def onText (f : String → Datum) : Datum → Datum
  | .null => .null
  | x => f (R.toText x)

/-- SQL's equality. -/
def Equals (x y : Datum) : Prop := x.isNull = false ∧ R.canon x = R.canon y

/-- An operator applied to two contents. -/
def operate : Operator → Datum → Datum → Option Datum
  | .and, x, y => conjunction x y
  | _, .null, _ => some .null
  | _, _, .null => some .null
  | .concat, x, y => some (.text (R.toText x ++ R.toText y))
  | op, .number a, .number b => arithmetic op a b
  | _, _, _ => none

/-- The characters of a text from a place on, counted from 1, and no more than a number of them. -/
def slice (x : Datum) : List Datum → Option Datum
  | [.number start] =>
    if start < 1 then none
    else some (R.onText (fun s => .text (String.ofList (s.toList.drop (⌊start⌋.toNat - 1)))) x)
  | [.number start, .number count] =>
    if start < 1 ∨ count < 0 then none
    else some (R.onText (fun s =>
      .text (String.ofList ((s.toList.drop (⌊start⌋.toNat - 1)).take ⌊count⌋.toNat))) x)
  | _ => none

/-- A function applied to its arguments. -/
def apply : Builtin → List Datum → Option Datum
  | .lower, [x] => some (R.onText (fun s => .text (R.lower s)) x)
  | .length, [x] => some (R.onText (fun s => .number s.toList.length) x)
  | .slice, x :: rest => R.slice x rest
  | .toText, [x] => some (R.onText .text x)
  | .floor, [.number q] => some (.number ⌊q⌋)
  | .truncate, [.number q] => some (.number (truncated q))
  | _, _ => none

/-- SQLite's cast cuts a fraction off, the others round. -/
def toWhole (q : ℚ) : ℤ := if R.engine = .sqlite then truncated q else round q

def cast : CastKind → Datum → Option Datum
  | .toText, x => some (R.onText .text x)
  | .toWhole, .null => some .null
  | .toWhole, .number q => some (.number (R.toWhole q))
  | .toWhole, _ => none

end Rules
end SyntheticRows
