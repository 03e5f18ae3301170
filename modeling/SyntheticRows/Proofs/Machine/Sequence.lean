import SyntheticRows.Proofs.Lookup.Drawable
import SyntheticRows.Proofs.Machine.Arithmetic
import SyntheticRows.Proofs.Meaning.SequenceColumn

/-!
# Sequences in 64 bits

The value of a sequence is reached through the number one step before its start and through the
ordinal times the step. These can lie outside of the 64 bits into which the value itself fits.
-/
namespace SyntheticRows
open Sql

variable {i : ℤ} {s : Sequence} {row : Expr} {names : Path → Option ℤ} {on : List ℤ}

theorem isWritable_of_fits (h : Fits64 i) : isWritable i = true := by
  obtain ⟨low, high⟩ := h
  have most : 2 ^ 63 < writingBound := by decide +kernel
  simp only [isWritable, decide_eq_true_eq]
  omega

namespace Sql.Expr

theorem ofInt_of_fits (h : Fits64 i) : ofInt i = .ok (operand (.int i)) := by
  have written : writable [.int i] = .ok () := by
    simp [writable, Value.isWritable, isWritable_of_fits h]
  simp only [ofInt, Literal.ofValue, written, except_ok_bind]
  rfl

@[simp] theorem ideal?_operand : (operand (.int i)).ideal? names = some (i, [i]) := by
  unfold operand
  split <;> rfl

@[simp] theorem computed?_operand {M : Machine} :
    (operand (.int i)).computed? M = M.overflow.literal i := by
  unfold operand
  split <;> simp only [computed?]

end Sql.Expr

/-- The expression of a sequence whose numbers can be written. -/
def Sequence.written (s : Sequence) (row : Expr) : Expr :=
  .paren (.add (.sub (.operand (.int s.start)) (.operand (.int s.step)))
    (.mul row (.operand (.int s.step))))

/-- The numbers on the way to the value of a sequence at an ordinal. -/
theorem Sequence.ideal?_written (hrow : row.ideal? names = some (i, on)) :
    (s.written row).ideal? names =
      some (s.value i, [s.start, s.step, s.start - s.step] ++ (on ++ [s.step] ++ [i * s.step]) ++
        [s.value i]) := by
  have sum : s.start - s.step + i * s.step = s.value i := by
    rw [value]
    ring
  simp [written, Expr.ideal?, Expr.add, Expr.sub, Expr.mul, hrow, Operator.ideal?, sum]

namespace Generator

theorem expression_sequence (e : Engine) (start : Fits64 s.start) (step : Fits64 s.step)
    (now salt : ℤ) : expression (.of e) now row salt (.sequence s) = .ok (s.written row) := by
  rw [expression, compile, sequenceExpr, Expr.ofInt_of_fits step, Expr.ofInt_of_fits start]
  rfl

/-- The value of a sequence is reached in 64 bits exactly if the number one step before the start
and the ordinal times the step fit as well. -/
theorem expression_sequence_computed (e : Engine) (s : Sequence) (i : ℤ)
    (hrow : row.ideal? names = some (i, on)) (hon : ∀ w ∈ on, Fits64 w) (start : Fits64 s.start)
    (step : Fits64 s.step) (value : Fits64 (s.value i)) (now salt : ℤ) :
    ∃ x met, expression (.of e) now row salt (.sequence s) = .ok x ∧
      x.ideal? names = some (s.value i, met) ∧
      ((∀ w ∈ met, Fits64 w) ↔ Fits64 (s.start - s.step) ∧ Fits64 (i * s.step)) ∧
      ∀ M : Machine, M.overflow ≠ .wrapped →
        (∀ path j, names path = some j → M.names path = some (.int j)) →
        ∀ n, x.computed? M = some (.int n) ↔
          n = s.value i ∧ Fits64 (s.start - s.step) ∧ Fits64 (i * s.step) := by
  have exact := Sequence.ideal?_written (s := s) hrow
  have fitting : (∀ w ∈ [s.start, s.step, s.start - s.step] ++ (on ++ [s.step] ++ [i * s.step]) ++
      [s.value i], Fits64 w) ↔ Fits64 (s.start - s.step) ∧ Fits64 (i * s.step) := by
    simp only [List.forall_mem_append, List.forall_mem_cons]
    tauto
  refine ⟨_, _, expression_sequence e start step now salt, exact, fitting, ?_⟩
  intro M unwrapped named n
  rw [Expr.computed?_eq_int_iff unwrapped named exact, fitting]

/-- From 10 on in steps of 3. -/
def threeSteps : Sequence := ⟨10, 3, by decide⟩

theorem expression_threeSteps :
    ∃ x met, expression (.of .trino) 0 (.bare "n") 0 (.sequence threeSteps) = .ok x ∧
      x.ideal? (fun _ => some 3) = some (16, met) ∧ (∀ w ∈ met, Fits64 w) ∧
      x.computed? (Engine.trino.machine .middle fun _ => some (.int 3)) = some (.int 16) := by
  obtain ⟨x, met, compiled, exact, fitting, computed⟩ :=
    expression_sequence_computed .trino threeSteps 3
      (show (Expr.bare "n").ideal? (fun _ => some 3) = some (3, []) from rfl) (by simp) (by decide)
      (by decide) (by decide) 0 0
  have within : Fits64 (threeSteps.start - threeSteps.step) ∧ Fits64 (3 * threeSteps.step) := by
    decide
  refine ⟨x, met, compiled, exact, fitting.2 within, ?_⟩
  exact (computed _ (by decide) (by rintro _ _ ⟨⟩; rfl) 16).2 ⟨by decide, within⟩

/-- From the least number of 64 bits on. -/
def leastSequence : Sequence := ⟨-2 ^ 63, 2, by decide⟩

/-- The first value is the start, but one step before it there is no number of 64 bits. -/
theorem stopped_leastSequence :
    (1 ≤ (1 : ℤ) ∧ Fits64 1 ∧ Fits64 leastSequence.start ∧ Fits64 leastSequence.step ∧
      Fits64 (leastSequence.value 1)) ∧
    ∃ x met, expression (.of .trino) 0 (.bare "n") 0 (.sequence leastSequence) = .ok x ∧
      x.ideal? (fun _ => some 1) = some (leastSequence.value 1, met) ∧ ¬(∀ w ∈ met, Fits64 w) ∧
      x.computed? (Engine.trino.machine .middle fun _ => some (.int 1)) = none ∧
      ∃ q, x.computed? (Engine.sqlite.machine .middle fun _ => some (.int 1)) =
        some (.float q) := by
  refine ⟨by decide, _, _, rfl, rfl, by decide, by decide, ?_⟩
  exact ⟨.add (.add (.ofInt (-2 ^ 63)) (.neg (.ofInt 2))) (.ofInt 2), by rfl⟩

end Generator
end SyntheticRows
