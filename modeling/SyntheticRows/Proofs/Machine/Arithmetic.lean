import SyntheticRows.Proofs.Meaning.Pick

/-!
# Arithmetic of 64 bits

What an expression comes to where whole numbers have 64 bits and other numbers are doubles. The
engines differ in what they do about a result that does not fit: it is refused, a double takes its
place, or its upper bits are dropped.
-/
namespace SyntheticRows
open Sql

/-- The signed integers of 64 bits. -/
def Fits64 (i : ℤ) : Prop := -2 ^ 63 ≤ i ∧ i < 2 ^ 63

instance (i : ℤ) : Decidable (Fits64 i) := inferInstanceAs (Decidable (_ ∧ _))

namespace Double

/-- The quotient, rounded once. -/
def div : Double → Double → Double
  | .nan, _ => .nan
  | _, .nan => .nan
  | .infinite _, .infinite _ => .nan
  | .infinite s, .finite t _ _ => .infinite (s != t)
  | .finite s _ _, .infinite t => .finite (s != t) 0 minExponent
  | .finite s m e, .finite t n f =>
    if n = 0 then if m = 0 then .nan else .infinite (s != t)
    else ofRatio (s != t) (m * twoPow (e - f).toNat) (n * twoPow (f - e).toNat)

end Double

namespace Sql.Operator

/-- The result among whole numbers of any size. Remainders and bits never outgrow the operands. -/
def ideal? : Operator → ℤ → ℤ → Option ℤ
  | add, i, j => some (i + j)
  | sub, i, j => some (i - j)
  | mul, i, j => some (i * j)
  | _, _, _ => none

def double? : Operator → Double → Double → Option Double
  | add, x, y => some (x.add y)
  | sub, x, y => some (x.sub y)
  | mul, x, y => some (x.mul y)
  | div, x, y => if y.isZero then none else some (x.div y)
  | _, _, _ => none

end Sql.Operator

/-- What is done about a whole number that does not fit. -/
inductive Overflow where
  | refused
  /-- A double takes its place. -/
  | promoted
  /-- Its upper bits are dropped. -/
  | wrapped
  deriving DecidableEq

namespace Overflow

/-- What becomes of a whole number, or of the double next to it. -/
def whole (o : Overflow) (i : ℤ) (x : Double) : Option Value :=
  match o with
  | refused => if Fits64 i then some (.int i) else none
  | promoted => some (if Fits64 i then .int i else .float x)
  | wrapped => some (.int (i.bmod (2 ^ 64)))

/-- A number that is written out. Where bits are dropped there are unsigned numbers as well. -/
def literal (o : Overflow) (i : ℤ) : Option Value :=
  if o = wrapped then some (if -2 ^ 63 ≤ i ∧ i < 2 ^ 64 then .int i else .float (.ofInt i))
  else o.whole i (.ofInt i)

/-- An operator applied to two values. The division of whole numbers is left out. -/
def operate (o : Overflow) (op : Operator) : Value → Value → Option Value
  | .int i, .int j =>
    match op with
    | .mod => if j = 0 then none else some (.int (i.tmod j))
    | .bitAnd => some (.int (Datum.maskedBits i j))
    | op => do o.whole (← op.ideal? i j) (← op.double? (.ofInt i) (.ofInt j))
  | .int i, .float y => (op.double? (.ofInt i) y).map .float
  | .float x, .int j => (op.double? x (.ofInt j)).map .float
  | .float x, .float y => (op.double? x y).map .float
  | _, _ => none

end Overflow

/-- How an engine computes. -/
structure Machine where
  overflow : Overflow
  call : String → List Value → Option Value
  cast : String → Value → Option Value
  names : Path → Option Value

namespace Sql.Expr

mutual

/-- What an expression comes to. -/
def computed? (M : Machine) : Expr → Option Value
  | literal (.int i) => M.overflow.literal i
  | decimal n => some (.float (.ofNat n))
  | name path => M.names path
  | paren x => computed? M x
  | binary op a b => do M.overflow.operate op (← computed? M a) (← computed? M b)
  | call f args => do M.call f (← computedAll? M args)
  | cast x type | convert x type => do M.cast type (← computed? M x)
  | _ => none

def computedAll? (M : Machine) : List Expr → Option (List Value)
  | [] => some []
  | x :: rest => do return (← computed? M x) :: (← computedAll? M rest)

end

section Parts

variable {M : Machine} {a b : Expr} {u v : Value} {op : Operator} {f type : String}

theorem computed?_paren : (paren a).computed? M = a.computed? M := by
  rw [computed?]

theorem computed?_binary (ha : a.computed? M = some u) (hb : b.computed? M = some v) :
    (binary op a b).computed? M = M.overflow.operate op u v := by
  rw [computed?, ha, hb]
  rfl

theorem computed?_call (ha : a.computed? M = some u) :
    (call f [a]).computed? M = M.call f [u] := by
  rw [computed?, computedAll?, ha]
  rfl

theorem computed?_cast (ha : a.computed? M = some u) :
    (cast a type).computed? M = M.cast type u := by
  rw [computed?, ha]
  rfl

end Parts

/-- The whole number that an expression stands for, with the literals and the results that are met
on the way to it. -/
def ideal? (names : Path → Option ℤ) : Expr → Option (ℤ × List ℤ)
  | literal (.int i) => some (i, [i])
  | name path => do return (← names path, [])
  | paren x => ideal? names x
  | binary op a b => do
    let (i, us) ← ideal? names a
    let (j, vs) ← ideal? names b
    let k ← op.ideal? i j
    return (k, us ++ vs ++ [k])
  | _ => none

end Sql.Expr

namespace Engine

def overflow : Engine → Overflow
  | postgresql | trino => .refused
  | clickhouse => .wrapped
  | sqlite => .promoted

/-- The draws of whole numbers, and the functions that are applied to them. -/
def call (d : RawDraws) : Engine → String → List Value → Option Value
  | sqlite, "random", [] => some (.int d.word)
  | sqlite, "length", [.text s] => some (.int s.length)
  | clickhouse, "rand64", [.int tag] => some (.int (d.tagged tag))
  | clickhouse, "rand64", [.float tag] => some (.int (d.tagged (tag.truncate?.getD 0)))
  | clickhouse, "toInt64", [.int i] => some (.int (i.bmod (2 ^ 64)))
  | trino, "random", [.int n] => if 0 < n then some (.int (d.below n)) else none
  | _, _, _ => none

/-- On SQLite the whole part of a double is taken, or the nearest number that fits. -/
def castTo : Engine → String → Value → Option Value
  | sqlite, "INTEGER", .float x =>
    x.truncate?.map fun i => .int (max (-2 ^ 63) (min i (2 ^ 63 - 1)))
  | sqlite, "INTEGER", .int i => some (.int i)
  | trino, "BIGINT", .int i => some (.int i)
  | _, _, _ => none

def machine (e : Engine) (d : RawDraws) (names : Path → Option Value) : Machine where
  overflow := e.overflow
  call := call d e
  cast := e.castTo
  names

end Engine

namespace Overflow

variable {o : Overflow} {op : Operator} {i j k n : ℤ} {u v : Value} {x : Double}

theorem whole_of_fits (h : Fits64 i) : o.whole i x = some (.int i) := by
  cases o with
  | refused | promoted => simp [whole, h]
  | wrapped =>
    obtain ⟨low, high⟩ := h
    rw [whole, Int.bmod_eq_of_le (by omega) (by omega)]

theorem whole_eq_int_iff (ho : o ≠ .wrapped) : o.whole i x = some (.int n) ↔ n = i ∧ Fits64 i := by
  by_cases fits : Fits64 i
  · rw [whole_of_fits fits]
    simp [fits, eq_comm]
  · cases o with
    | refused | promoted => simp [whole, fits]
    | wrapped => exact absurd rfl ho

theorem literal_eq_int_iff (ho : o ≠ .wrapped) :
    o.literal i = some (.int n) ↔ n = i ∧ Fits64 i := by
  rw [literal, if_neg ho, whole_eq_int_iff ho]

theorem literal_of_fits (h : Fits64 i) : o.literal i = some (.int i) := by
  unfold literal
  split
  · rw [if_pos ⟨h.1, by have := h.2; omega⟩]
  · exact whole_of_fits h

theorem operate_int_iff (ho : o ≠ .wrapped) (hk : op.ideal? i j = some k) :
    o.operate op (.int i) (.int j) = some (.int n) ↔ n = k ∧ Fits64 k := by
  cases op <;> simp only [Operator.ideal?, Option.some.injEq, reduceCtorEq] at hk
  all_goals
    rw [← hk, ← whole_eq_int_iff ho]
    rfl

/-- A whole number comes from whole numbers only. -/
theorem ints_of_operate (h : o.operate op u v = some (.int n)) :
    ∃ i j, u = .int i ∧ v = .int j := by
  cases u <;> cases v <;> simp [operate] at h ⊢

end Overflow

/-- Where no bits are dropped an expression comes to the whole number that it stands for if all
numbers on the way to it fit, and to no whole number otherwise. -/
theorem Sql.Expr.computed?_eq_int_iff {M : Machine} {names : Path → Option ℤ} {x : Expr} {k n : ℤ}
    {met : List ℤ} (ho : M.overflow ≠ .wrapped)
    (hnames : ∀ path i, names path = some i → M.names path = some (.int i))
    (h : x.ideal? names = some (k, met)) :
    x.computed? M = some (.int n) ↔ n = k ∧ ∀ i ∈ met, Fits64 i := by
  fun_induction Expr.ideal? names x generalizing k n met with
  | case1 i =>
    cases h
    simp [computed?, Overflow.literal_eq_int_iff ho]
  | case2 path =>
    obtain ⟨i, found, h⟩ := Option.bind_eq_some_iff.1 h
    cases h
    simp [computed?, hnames path k found, eq_comm]
  | case3 x ih =>
    rw [computed?]
    exact ih h
  | case4 op a b iha ihb =>
    obtain ⟨⟨i, us⟩, left, h⟩ := Option.bind_eq_some_iff.1 h
    obtain ⟨⟨j, vs⟩, right, h⟩ := Option.bind_eq_some_iff.1 h
    obtain ⟨_, result, h⟩ := Option.bind_eq_some_iff.1 h
    cases h
    have both : (∀ w ∈ us ++ vs ++ [k], Fits64 w) ↔
        ((∀ w ∈ us, Fits64 w) ∧ ∀ w ∈ vs, Fits64 w) ∧ Fits64 k := by
      simp [or_imp, forall_and, and_assoc]
    rw [computed?, both]
    constructor
    · intro run
      obtain ⟨u, hu, run⟩ := Option.bind_eq_some_iff.1 run
      obtain ⟨v, hv, run⟩ := Option.bind_eq_some_iff.1 run
      obtain ⟨i', j', rfl, rfl⟩ := Overflow.ints_of_operate run
      obtain ⟨rfl, fitsLeft⟩ := (iha left).1 hu
      obtain ⟨rfl, fitsRight⟩ := (ihb right).1 hv
      obtain ⟨rfl, fits⟩ := (Overflow.operate_int_iff ho result).1 run
      exact ⟨rfl, ⟨fitsLeft, fitsRight⟩, fits⟩
    · rintro ⟨rfl, ⟨fitsLeft, fitsRight⟩, fits⟩
      rw [(iha left).2 ⟨rfl, fitsLeft⟩, (ihb right).2 ⟨rfl, fitsRight⟩]
      exact (Overflow.operate_int_iff ho result).2 ⟨rfl, fits⟩
  | case5 => cases h

end SyntheticRows
