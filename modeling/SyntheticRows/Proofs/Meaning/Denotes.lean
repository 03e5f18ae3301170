import SyntheticRows.Proofs.Meaning.Expr
import SyntheticRows.Proofs.Meaning.Transformation
import SyntheticRows.Sql.Function

/-!
# Expressions with one content

Most expressions of a transformation draw nothing themselves, so they yield one content at most.
`Denotes` gives it, and the lemmas here compute it along the expression.
-/
namespace SyntheticRows
open Sql

/-- The expression yields this content and no other; none if it yields nothing. -/
def Denotes (R : Rules) (env : Env) (x : Expr) (o : Option Datum) : Prop :=
  ∀ v, Yields R env x v ↔ o = some v

namespace Denotes

variable {R : Rules} {env : Env} {a b x : Expr} {o p q : Option Datum} {u v w : Datum}

theorem congr (h : Denotes R env x o) (hop : o = p) : Denotes R env x p := hop ▸ h

theorem literal (l : Literal) : Denotes R env (.literal l) (some l.datum) := by
  intro v
  rw [Yields.literal_iff, Option.some.injEq, eq_comm]

theorem name (path : Path) : Denotes R env (.name path) (env.resolve path) := fun _ =>
  Yields.name_iff

theorem paren (h : Denotes R env x o) : Denotes R env (.paren x) o := by
  intro v
  rw [Yields.paren_iff]
  exact h v

theorem binary (op : Operator) (ha : Denotes R env a o) (hb : Denotes R env b p) :
    Denotes R env (.binary op a b) (o.bind fun u => p.bind fun v => R.operate op u v) := by
  intro v
  simp only [Yields.binary_iff, ha _, hb _, Option.bind_eq_some_iff]
  constructor
  · rintro ⟨u, w, hu, hw, h⟩; exact ⟨u, hu, w, hw, h⟩
  · rintro ⟨u, hu, w, hw, h⟩; exact ⟨u, w, hu, hw, h⟩

/-- An operator applied to what is known. -/
theorem binary_some (op : Operator) (ha : Denotes R env a (some u)) (hb : Denotes R env b (some v))
    (h : R.operate op u v = some w) : Denotes R env (.binary op a b) (some w) :=
  (binary op ha hb).congr (by simp [h])

/-- Expressions with one content each yield these contents. -/
theorem all {args : List Expr} {xs vs : List Datum}
    (h : List.Forall₂ (fun x v => Denotes R env x (some v)) args xs) :
    YieldsAll R env args vs ↔ vs = xs := by
  rw [Yields.all_iff]
  induction h generalizing vs with
  | nil => simp
  | cons hx _ ih =>
    rw [List.forall₂_cons_left_iff]
    simp [ih, hx _, eq_comm]

theorem call {f : String} {g : Builtin} (hf : Builtin.ofName? f = some g)
    {args : List Expr} {xs : List Datum}
    (h : List.Forall₂ (fun x v => Denotes R env x (some v)) args xs) :
    Denotes R env (.call f args) (R.apply g xs) := by
  intro v
  rw [Yields.call_iff hf]
  simp only [all h, exists_eq_left]

theorem call₁ {f : String} {g : Builtin} (hf : Builtin.ofName? f = some g)
    (h : Denotes R env x o) :
    Denotes R env (.call f [x]) (o.bind fun u => R.apply g [u]) := by
  intro v
  simp only [Yields.call_iff hf, Yields.cons_iff, Yields.nil_iff, h _, Option.bind_eq_some_iff]
  constructor
  · rintro ⟨_, ⟨u, _, hu, rfl, rfl⟩, hv⟩; exact ⟨u, hu, hv⟩
  · rintro ⟨u, hu, hv⟩; exact ⟨_, ⟨u, _, hu, rfl, rfl⟩, hv⟩

theorem cast {type : String} {k : CastKind} (hk : CastKind.ofName? type = some k)
    (h : Denotes R env x o) : Denotes R env (.cast x type) (o.bind (R.cast k)) := by
  intro v
  simp only [Yields.cast_iff hk, h _, Option.bind_eq_some_iff]

theorem convert {type : String} {k : CastKind} (hk : CastKind.ofName? type = some k)
    (h : Denotes R env x o) : Denotes R env (.convert x type) (o.bind (R.cast k)) := by
  intro v
  simp only [Yields.convert_iff hk, h _, Option.bind_eq_some_iff]

theorem choose {c : Bool} (hc : Denotes R env x (some (.bool c))) (ha : Denotes R env a o)
    (hb : Denotes R env b p) : Denotes R env (.call "if" [x, a, b]) (if c then o else p) := by
  intro v
  simp only [Yields.choose_iff, hc _, Option.some.injEq, Datum.bool.injEq]
  cases c with
  | true => simp [ha v]
  | false => simp [hb v]

theorem isNotNull (h : Denotes R env x o) :
    Denotes R env (.isNotNull x) (o.map fun u => .bool !u.isNull) := by
  intro v
  simp only [Yields.isNotNull_iff, h _, Option.map_eq_some_iff, eq_comm (a := v)]

theorem otherwise (h : Denotes R env x o) : Denotes R env (.caseWhen [] x) o := by
  intro v
  rw [Yields.otherwise_iff]
  exact h v

variable {condition y : Expr} {rest : List (Expr × Expr)}

/-- A branch whose condition is true is taken. -/
theorem branch_true (hc : Denotes R env condition (some (.bool true))) (hx : Denotes R env x o) :
    Denotes R env (.caseWhen ((condition, x) :: rest) y) o := by
  intro v
  simp only [Yields.branch_iff, hc _, hx v, Option.some.injEq, true_and]
  constructor
  · rintro (h | ⟨c, rfl, hn, _⟩)
    · exact h
    · exact (hn rfl).elim
  · exact .inl

/-- A branch whose condition is known not to be true is passed. -/
theorem branch_skip (hc : Denotes R env condition (some u)) (hu : u ≠ .bool true)
    (hy : Denotes R env (.caseWhen rest y) o) :
    Denotes R env (.caseWhen ((condition, x) :: rest) y) o := by
  intro v
  simp only [Yields.branch_iff, hc _, hy v, Option.some.injEq]
  constructor
  · rintro (⟨h, _⟩ | ⟨c, rfl, _, h⟩)
    · exact (hu h).elim
    · exact h
  · exact fun h => .inr ⟨u, rfl, hu, h⟩

theorem branch_none (hc : Denotes R env condition none) :
    Denotes R env (.caseWhen ((condition, x) :: rest) y) none := by
  intro v
  simp [Yields.branch_iff, hc _]

theorem binary_none_left (op : Operator) (b : Expr) (ha : Denotes R env a none) :
    Denotes R env (.binary op a b) none := by
  intro v
  simp [Yields.binary_iff, ha _]

theorem binary_none_right (op : Operator) (a : Expr) (hb : Denotes R env b none) :
    Denotes R env (.binary op a b) none := by
  intro v
  simp [Yields.binary_iff, hb _]

end Denotes
end SyntheticRows
