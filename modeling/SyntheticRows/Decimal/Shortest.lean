import SyntheticRows.Decimal.Double

/-!
# The shortest decimal that reads back

Among the decimals inside the interval of reals that round to a double, the one with the
fewest digits is written, and of two such the nearer one.
-/
namespace SyntheticRows

/-- The decimal digits of a natural number. -/
def natDigits (n : Nat) : List Char := Nat.toDigits 10 n

/-- `n` in at least `width` digits, filled with zeros on the left. -/
def padded (width n : Nat) : List Char :=
  let ds := natDigits n
  List.replicate (width - ds.length) '0' ++ ds

/-- `digits * 10 ^ exponent`. -/
structure Scientific where
  digits : Nat
  exponent : Int
  deriving DecidableEq, Repr

namespace Scientific

/-- Compares `c * 10 ^ k` with `a * 2 ^ f`. -/
def compareBinary (c : Nat) (k : Int) (a : Nat) (f : Int) : Ordering :=
  compare (c * tenPow k.toNat * twoPow (-f).toNat) (a * twoPow f.toNat * tenPow (-k).toNat)

/-- The exponent of the leading decimal digit of `a * 2 ^ f`, for positive `a`. -/
def leading (a : Nat) (f : Int) : Int :=
  let bits : Int := (a.log2 : Int) + f
  let guess := bits * 30103 / 100000
  if compareBinary 1 (guess + 1) a f != .gt then guess + 1
  else if compareBinary 1 guess a f == .gt then guess - 1
  else guess

/-- The reals that round to `mantissa * 2 ^ exponent`, in quarter units in the last place. -/
structure Interval where
  low : Nat
  value : Nat
  high : Nat
  scale : Int
  closed : Bool

def intervalOf (mantissa : Nat) (exponent : Int) : Interval :=
  let narrow := mantissa = twoPow 52 ∧ Double.minExponent < exponent
  { low := 4 * mantissa - (if narrow then 1 else 2)
    value := 4 * mantissa
    high := 4 * mantissa + 2
    scale := exponent - 2
    closed := mantissa % 2 = 0 }

def Interval.contains (i : Interval) (c : Nat) (k : Int) : Bool :=
  match compareBinary c k i.low i.scale, compareBinary c k i.high i.scale with
  | .gt, .lt => true
  | .eq, _ => i.closed
  | _, .eq => i.closed
  | _, _ => false

/-- Whether `(c + 1) * 10 ^ k` is taken over `c * 10 ^ k`: the nearer of the two, and of two
equally near the one with the even digit. -/
def Interval.upperNearer (i : Interval) (c : Nat) (k : Int) : Bool :=
  match compareBinary (2 * c + 1) k (2 * i.value) i.scale with
  | .lt => true
  | .eq => c % 2 == 1
  | .gt => false

/-- The neighbour of the value on the grid `10 ^ k` that reads back, if there is one. -/
def Interval.onGrid? (i : Interval) (k : Int) : Option Scientific :=
  let c := i.value * twoPow i.scale.toNat * tenPow (-k).toNat /
    (twoPow (-i.scale).toNat * tenPow k.toNat)
  match i.contains c k, i.contains (c + 1) k with
  | true, true => some ⟨if i.upperNearer c k then c + 1 else c, k⟩
  | true, false => some ⟨c, k⟩
  | false, true => some ⟨c + 1, k⟩
  | false, false => none

/-- Tries the grids from coarse to fine; seventeen digits always read back. -/
def Interval.search (i : Interval) (k : Int) : Nat → Scientific
  | 0 => ⟨i.value, i.scale⟩
  | n + 1 => (i.onGrid? k).getD (i.search (k - 1) n)

/-- The shortest decimal that rounds to `mantissa * 2 ^ exponent`. -/
def shortest (mantissa : Nat) (exponent : Int) : Scientific :=
  if mantissa = 0 then ⟨0, 0⟩
  else
    let i := intervalOf mantissa exponent
    i.search (leading i.value i.scale) 18

end Scientific

namespace Double

/-- Positional from `0.0001` up to `10 ^ 16`, otherwise with an exponent of two digits or more;
a whole number keeps `.0`. -/
def layout (s : Scientific) : List Char :=
  let ds := natDigits s.digits
  let point : Int := s.exponent + ds.length
  if s.digits = 0 then "0.0".toList
  else if -4 < point ∧ point ≤ 16 then
    if point ≤ 0 then '0' :: '.' :: List.replicate (-point).toNat '0' ++ ds
    else if s.exponent ≥ 0 then ds ++ List.replicate s.exponent.toNat '0' ++ ['.', '0']
    else ds.take point.toNat ++ '.' :: ds.drop point.toNat
  else
    let e := point - 1
    let sign := if e < 0 then '-' else '+'
    let mantissa := match ds with
      | d :: [] => [d]
      | d :: rest => d :: '.' :: rest
      | [] => []
    mantissa ++ 'e' :: sign :: padded 2 e.natAbs

/-- A decimal without trailing zeros in its digits. -/
def trimmed (s : Scientific) : Scientific :=
  go s s.exponent.natAbs.succ.succ
where
  go (s : Scientific) : Nat → Scientific
    | 0 => s
    | n + 1 => if s.digits ≠ 0 ∧ s.digits % 10 = 0 then go ⟨s.digits / 10, s.exponent + 1⟩ n else s

/-- The shortest text that reads back as the same double. -/
def toText : Double → String
  | .nan => "nan"
  | .infinite false => "inf"
  | .infinite true => "-inf"
  | .finite negative m e =>
    let body := layout (trimmed (Scientific.shortest m e))
    String.ofList (if negative then '-' :: body else body)

end Double

/-!
## Decimals with a fixed number of places

The exact value is rounded to the nearest multiple of `10 ^ -places`, a tie to the even one.
-/
namespace Double

/-- The magnitude in units of `10 ^ -places`. -/
def unitsAt (mantissa : Nat) (exponent : Int) (places : Nat) : Nat :=
  roundHalfEven (mantissa * twoPow exponent.toNat * tenPow places) (twoPow (-exponent).toNat)

def withPoint (places units : Nat) : List Char :=
  let ds := padded (places + 1) units
  let whole := ds.take (ds.length - places)
  if places = 0 then whole else whole ++ '.' :: ds.drop (ds.length - places)

def toFixed (places : Nat) : Double → String
  | .nan => "nan"
  | .infinite false => "inf"
  | .infinite true => "-inf"
  | .finite negative m e =>
    let body := withPoint places (unitsAt m e places)
    String.ofList (if negative then '-' :: body else body)

end Double

end SyntheticRows
