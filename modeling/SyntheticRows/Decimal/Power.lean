/-!
# Powers

Powers of the two bases in which numbers are held and written.
-/
namespace SyntheticRows

/-- Two to the power `n`. -/
def twoPow (n : Nat) : Nat := Nat.pow 2 n

/-- Ten to the power `n`. -/
def tenPow (n : Nat) : Nat := Nat.pow 10 n

theorem twoPow_pos (n : Nat) : 0 < twoPow n := Nat.pow_pos (by decide)

theorem tenPow_pos (n : Nat) : 0 < tenPow n := Nat.pow_pos (by decide)

theorem tenPow_mul (m n : Nat) : tenPow (m * n) = Nat.pow (tenPow m) n := Nat.pow_mul 10 m n

/-!
## The limit on decimal digits

Whole numbers are exact and of any size, but only those of at most 4300 digits are read from a
decimal text or written as one.
-/

def digitLimit : Nat := 4300

/-- The least number with more digits than that, from powers small enough to be evaluated. -/
def writingBound : Nat := Nat.pow (tenPow 43) 100

theorem writingBound_eq : writingBound = tenPow digitLimit := (tenPow_mul 43 100).symm

/-- Whether a number has few enough digits to be written. -/
def isWritable (i : Int) : Bool := i.natAbs < writingBound

end SyntheticRows
