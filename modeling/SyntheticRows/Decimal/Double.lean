import SyntheticRows.Decimal.Power

/-!
# Binary64 numbers

A `Double` is NaN, an infinity, or `± mantissa * 2 ^ exponent`. Every operation is exact
rational arithmetic followed by one rounding to nearest, ties to even, so statements about
doubles reduce to statements about natural numbers.
-/
namespace SyntheticRows

/-- The natural number nearest to `num / den`; a tie goes to the even neighbour. -/
def roundHalfEven (num den : Nat) : Nat :=
  let q := num / den
  let r := num % den
  if 2 * r < den then q
  else if den < 2 * r then q + 1
  else if q % 2 = 0 then q else q + 1

/-- Values built by this file have `mantissa < 2 ^ 53`, and `2 ^ 52 ≤ mantissa` unless the
exponent is the least one, `-1074`. -/
inductive Double where
  | nan
  | infinite (negative : Bool)
  | finite (negative : Bool) (mantissa : Nat) (exponent : Int)
  deriving DecidableEq, Repr, Inhabited

namespace Double

def minExponent : Int := -1074

def maxExponent : Int := 971

/-- Numerator and denominator of `num / den / 2 ^ e`. -/
def shifted (num den : Nat) (e : Int) : Nat × Nat :=
  (num * twoPow (-e).toNat, den * twoPow e.toNat)

/-- The exponent that puts a positive `num / den` between `2 ^ 52` and `2 ^ 53`. -/
def normalExponent (num den : Nat) : Int :=
  let guess : Int := (num.log2 : Int) - (den.log2 : Int) - 52
  let (n, d) := shifted num den guess
  if n < twoPow 52 * d then guess - 1 else guess

def pack (negative : Bool) (mantissa : Nat) (exponent : Int) : Double :=
  if exponent ≤ maxExponent then .finite negative mantissa exponent else .infinite negative

/-- The double nearest to `± num / den`, ties to even; too large a quotient is infinite. -/
def ofRatio (negative : Bool) (num den : Nat) : Double :=
  if num = 0 then .finite negative 0 minExponent
  else
    let e := max (normalExponent num den) minExponent
    let (n, d) := shifted num den e
    let m := roundHalfEven n d
    if m < twoPow 53 then pack negative m e else pack negative (twoPow 52) (e + 1)

def zero : Double := .finite false 0 minExponent

def ofNat (n : Nat) : Double := ofRatio false n 1

/-- The nearest double; infinite if the integer is out of range. -/
def ofInt (i : Int) : Double := ofRatio (decide (i < 0)) i.natAbs 1

/-- The double nearest to `m * 2 ^ e`. -/
def ofScaled (m e : Int) : Double :=
  ofRatio (decide (m < 0)) (m.natAbs * twoPow e.toNat) (twoPow (-e).toNat)

def isFinite : Double → Bool
  | .finite _ _ _ => true
  | _ => false

def isZero : Double → Bool
  | .finite _ m _ => m == 0
  | _ => false

def neg : Double → Double
  | .nan => .nan
  | .infinite s => .infinite (!s)
  | .finite s m e => .finite (!s) m e

def abs : Double → Double
  | .nan => .nan
  | .infinite _ => .infinite false
  | .finite _ m e => .finite false m e

/-- The mantissa with its sign. -/
def signed (negative : Bool) (mantissa : Nat) : Int :=
  if negative then -(mantissa : Int) else mantissa

/-- Compares `m₁ * 2 ^ e₁` with `m₂ * 2 ^ e₂`. -/
def compareScaled (m₁ e₁ m₂ e₂ : Int) : Ordering :=
  let e := min e₁ e₂
  compare (m₁ * twoPow (e₁ - e).toNat) (m₂ * twoPow (e₂ - e).toNat)

/-- The numerical order; NaN is comparable to nothing and the two zeros are equal. -/
def compare? : Double → Double → Option Ordering
  | .nan, _ => none
  | _, .nan => none
  | .infinite s, .infinite t => some (if s = t then .eq else if s then .lt else .gt)
  | .infinite s, .finite _ _ _ => some (if s then .lt else .gt)
  | .finite _ _ _, .infinite t => some (if t then .gt else .lt)
  | .finite s m e, .finite t n f => some (compareScaled (signed s m) e (signed t n) f)

/-- The order against an integer, without rounding the integer. -/
def compareInt? : Double → Int → Option Ordering
  | .nan, _ => none
  | .infinite s, _ => some (if s then .lt else .gt)
  | .finite s m e, i => some (compareScaled (signed s m) e i 0)

def add : Double → Double → Double
  | .nan, _ => .nan
  | _, .nan => .nan
  | .infinite s, .infinite t => if s = t then .infinite s else .nan
  | .infinite s, .finite _ _ _ => .infinite s
  | .finite _ _ _, .infinite t => .infinite t
  | .finite s m e, .finite t n f =>
    let g := min e f
    let sum := signed s m * twoPow (e - g).toNat + signed t n * twoPow (f - g).toNat
    if sum = 0 then .finite (s && t) 0 minExponent else ofScaled sum g

def sub (x y : Double) : Double := add x y.neg

def mul : Double → Double → Double
  | .nan, _ => .nan
  | _, .nan => .nan
  | .infinite s, .infinite t => .infinite (s != t)
  | .infinite s, .finite t n _ => if n = 0 then .nan else .infinite (s != t)
  | .finite s m _, .infinite t => if m = 0 then .nan else .infinite (s != t)
  | .finite s m e, .finite t n f =>
    let g := e + f
    ofRatio (s != t) (m * n * twoPow g.toNat) (twoPow (-g).toNat)

/-- The quotient by a positive whole number. -/
def divNat : Double → Nat → Double
  | .nan, _ => .nan
  | .infinite s, _ => .infinite s
  | .finite s m e, n => ofRatio s (m * twoPow e.toNat) (n * twoPow (-e).toNat)

/-- The whole part, toward zero; none for NaN and the infinities. -/
def truncate? : Double → Option Int
  | .finite s m e => some (signed s (m * twoPow e.toNat / twoPow (-e).toNat))
  | _ => none

/-- The least whole number that is not below; none for NaN and the infinities. -/
def ceil? : Double → Option Int
  | .finite true m e => some (-(m * twoPow e.toNat / twoPow (-e).toNat : Nat))
  | .finite false m e =>
    some ((m * twoPow e.toNat + (twoPow (-e).toNat - 1)) / twoPow (-e).toNat : Nat)
  | _ => none

/-- The ceiling of the quotient, which is rounded to a double first. -/
def ceilQuotient? (num : Int) (den : Nat) : Option Int :=
  (ofRatio (decide (num < 0)) num.natAbs den).ceil?

/-- Whether the fraction is zero. -/
def isWhole : Double → Bool
  | .finite _ m e => m * twoPow e.toNat % twoPow (-e).toNat == 0
  | _ => false

end Double
end SyntheticRows
