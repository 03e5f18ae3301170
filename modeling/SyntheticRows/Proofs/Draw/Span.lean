import SyntheticRows.Proofs.Calendar.DayCount
import SyntheticRows.Proofs.Lexical.Moment
import SyntheticRows.Proofs.Lookup.Drawable
import SyntheticRows.Proofs.Meaning.Pick

/-!
# Spans

Which seconds the expression of a span takes over all draws: those from the first to the last of the
span, both included. Every engine can draw from that many, as the calendar has few enough.
-/
namespace SyntheticRows
open Sql

variable {e : Engine} {first last now : ℤ} {n : ℕ} {tag : ℤ} {x y : Expr} {tags : Tags}

/-- Over all draws of the engine the expression gives whole numbers with the property, and each of
them. -/
def Sql.Expr.Takes (e : Engine) (x : Expr) (P : ℤ → Prop) : Prop :=
  (∀ s : Site, s.engine = e → ∃ i : ℤ, P i ∧ x.value? s = some (.number i)) ∧
    ∀ i : ℤ, P i → ∃ s : Site, s.engine = e ∧ x.value? s = some (.number i)

/-- The tags after one more was taken. -/
def Sql.Tags.next (tags : Tags) : Tags := { tags with count := tags.count + 1 }

namespace Generator

/-- A span that ends before it starts is refused. -/
theorem spanBetween_refused (h : last < first) :
    (spanBetween (.of e) first last).run tags = .error (.configuration .startInFuture) := by
  simp only [spanBetween, h, if_true]
  rw [run_lift_bind]
  rfl

variable {s : Span}

end Generator
end SyntheticRows
