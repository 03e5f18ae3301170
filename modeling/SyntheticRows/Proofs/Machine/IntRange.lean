import SyntheticRows.Proofs.Draw.Span
import SyntheticRows.Proofs.Machine.Sequence

/-!
# Ranges of whole numbers in 64 bits

A draw from a range of whole numbers is a raw draw modulo the width of the range. SQLite refuses
widths that its draw does not reach. ClickHouse and Trino write such a width down all the same, and
no number of theirs can stand for it.
-/
namespace SyntheticRows
open Sql

namespace Engine

/-- The greatest width that can stand in a draw. -/
def widest (e : Engine) : ℤ := if e = .clickhouse then 2 ^ 64 - 1 else 2 ^ 63 - 1

/-- What a draw of whole numbers comes to when a place was drawn. ClickHouse takes it as signed. -/
def signedPlace (e : Engine) (k : ℕ) : ℤ :=
  if e = .clickhouse then (k : ℤ).bmod (2 ^ 64) else k

variable {e : Engine} {n k : ℕ} {tag : ℤ} {x : Expr} {names : Path → Option Value}

theorem signedPlace_of_ne (h : e ≠ .clickhouse) : e.signedPlace k = k := if_neg h

theorem computed?_nat (names : Path → Option Value) (accepted : n ≤ e.widest) (d : RawDraws) :
    (Expr.nat n).computed? (e.machine d names) = some (.int n) := by
  rw [Expr.nat, Expr.int, Expr.computed?]
  by_cases he : e = .clickhouse
  · subst he
    simp only [widest, if_true] at accepted
    simp only [machine, overflow, Overflow.literal, if_true]
    rw [if_pos (by omega)]
  · simp only [widest, he, if_false] at accepted
    exact Overflow.literal_of_fits ⟨by omega, by omega⟩

theorem operate_mod_nat {o : Overflow} {m : ℕ} (hn : 0 < n) :
    o.operate .mod (.int m) (.int n) = some (.int (m % n : ℕ)) := by
  have nonzero : (n : ℤ) ≠ 0 := by omega
  simp only [Overflow.operate, nonzero, if_false]
  rw [← Int.ofNat_tmod]

/-- SQLite's draw without its sign is the remainder modulo 2 ^ 63. -/
theorem computed?_maskedRandom (d : RawDraws) :
    maskedRandom.computed? (sqlite.machine d names) =
      some (.int ((Datum.maskedBits d.word int64Max).toNat : ℕ)) := by
  obtain ⟨m, -, masked, -⟩ := Datum.maskedBits_int64Max d.word
  have mask := computed?_nat (e := .sqlite) (n := int64Max) names (by decide) d
  have drawn : random.computed? (sqlite.machine d names) = some (.int d.word) := rfl
  rw [maskedRandom, Expr.computed?_paren, Expr.computed?_binary drawn mask]
  simp only [Overflow.operate, masked, Int.toNat_natCast]

/-- Whatever the tag is, there is a draw for it. -/
theorem computed?_rand64 (names : Path → Option Value) (tag : ℤ) : ∃ tag', ∀ d : RawDraws,
    (Expr.call "rand64" [.int tag]).computed? (clickhouse.machine d names) =
      some (.int (d.tagged tag')) := by
  by_cases short : -2 ^ 63 ≤ tag ∧ tag < 2 ^ 64
  · refine ⟨tag, fun d => ?_⟩
    have label : (Expr.int tag).computed? (clickhouse.machine d names) = some (.int tag) := by
      rw [Expr.int, Expr.computed?]
      simp only [machine, overflow, Overflow.literal, if_true, short, and_self]
    rw [Expr.computed?_call label]
    rfl
  · refine ⟨(Double.ofInt tag).truncate?.getD 0, fun d => ?_⟩
    have label : (Expr.int tag).computed? (clickhouse.machine d names) =
        some (.float (.ofInt tag)) := by
      rw [Expr.int, Expr.computed?]
      simp only [machine, overflow, Overflow.literal, if_true, short, if_false]
    rw [Expr.computed?_call label]
    rfl

/-- A draw of whole numbers comes to the place that is drawn. -/
theorem computed?_integer (names : Path → Option Value) (he : e ≠ .postgresql) (hn : 0 < n)
    (accepted : n ≤ e.widest) (h : e.integer n tag = .ok x) : ∃ tag', ∀ d : RawDraws,
      x.computed? (e.machine d names) = some (.int (e.signedPlace (d.place e n tag'))) := by
  have bound := computed?_nat names accepted
  cases e with
  | postgresql => exact absurd rfl he
  | sqlite =>
    simp only [integer] at h
    split at h
    · obtain ⟨y, given, h⟩ := except_ok_of_bind h
      cases h
      refine ⟨tag, fun d => ?_⟩
      rw [Expr.of_given given, Expr.computed?_paren,
        Expr.computed?_binary (computed?_maskedRandom d) (bound d), operate_mod_nat hn,
        signedPlace_of_ne (by decide)]
      simp only [RawDraws.place]
    · exact absurd h refuse_ne_ok
  | clickhouse =>
    obtain ⟨y, given, h⟩ := except_ok_of_bind h
    cases h
    obtain ⟨tag', drawn⟩ := computed?_rand64 names tag
    refine ⟨tag', fun d => ?_⟩
    have rest := (Expr.computed?_binary (drawn d) (bound d)).trans (operate_mod_nat hn)
    rw [Expr.of_given given, Expr.computed?_call rest, signedPlace, if_pos rfl]
    simp only [machine, call, RawDraws.place]
  | trino =>
    obtain ⟨y, given, h⟩ := except_ok_of_bind h
    cases h
    have positive : (0 : ℤ) < n := by exact_mod_cast hn
    refine ⟨tag, fun d => ?_⟩
    have range := d.below_range n positive
    have drawn : (Expr.call "random" [.nat n]).computed? (trino.machine d names) =
        some (.int (d.below n)) := by
      rw [Expr.computed?_call (bound d)]
      simp only [machine, call, positive, if_true]
    have place : ((d.below n).toNat : ℤ) = d.below n := Int.toNat_of_nonneg range.1
    rw [Expr.of_given given, Expr.computed?_cast drawn, signedPlace_of_ne (by decide)]
    simp only [machine, castTo, RawDraws.place, place]

/-- Nothing is lost when a place is added, if the sum fits. -/
theorem operate_add_signedPlace {low : ℤ} (fits : Fits64 (low + k)) :
    e.overflow.operate .add (.int low) (.int (e.signedPlace k)) = some (.int (low + k)) := by
  by_cases he : e = .clickhouse
  · subst he
    obtain ⟨least, most⟩ := fits
    have whole : (low + (k : ℤ).bmod (2 ^ 64)).bmod (2 ^ 64) = low + k := by
      rw [Int.add_bmod_bmod, Int.bmod_eq_of_le (by omega) (by omega)]
    simp only [overflow, Overflow.operate, Operator.ideal?, Operator.double?, Overflow.whole,
      signedPlace, if_true, Option.bind_eq_bind, Option.bind_some, whole]
  · rw [signedPlace_of_ne he]
    exact Overflow.whole_of_fits fits

/-- Over all draws of the engine the expression comes to whole numbers with the property, and to
each of them. -/
def Covers (e : Engine) (names : Path → Option Value) (x : Expr) (P : ℤ → Prop) : Prop :=
  (∀ d, ∃ i, P i ∧ x.computed? (e.machine d names) = some (.int i)) ∧
    ∀ i, P i → ∃ d, x.computed? (e.machine d names) = some (.int i)

theorem covers_operand {i : ℤ} (fits : Fits64 i) :
    e.Covers names (.operand (.int i)) fun j => i ≤ j ∧ j ≤ i := by
  have given (d : RawDraws) :
      (Expr.operand (.int i)).computed? (e.machine d names) = some (.int i) := by
    rw [Expr.computed?_operand]
    exact Overflow.literal_of_fits fits
  refine ⟨fun d => ⟨i, by omega, given d⟩, fun j range => ?_⟩
  obtain rfl : j = i := by omega
  exact ⟨.middle, given _⟩

/-- A draw that is added to the least number of a range covers the range. -/
theorem covers_draw {low high : ℤ} (he : e ≠ .postgresql) (hn : 0 < n) (accepted : n ≤ e.widest)
    (least : Fits64 low) (most : Fits64 high) (width : high - low + 1 = n)
    (h : e.integer n tag = .ok x) :
    e.Covers names (.paren (.add (.operand (.int low)) x)) fun i => low ≤ i ∧ i ≤ high := by
  obtain ⟨tag', drawn⟩ := computed?_integer names he hn accepted h
  have sum (d : RawDraws) : (Expr.paren (.add (.operand (.int low)) x)).computed?
      (e.machine d names) = some (.int (low + d.place e n tag')) := by
    have start : (Expr.operand (.int low)).computed? (e.machine d names) = some (.int low) := by
      rw [Expr.computed?_operand]
      exact Overflow.literal_of_fits least
    have below := d.place_lt e hn tag'
    have fits : Fits64 (low + d.place e n tag') :=
      ⟨by have := least.1; omega, by have := most.2; omega⟩
    rw [Expr.computed?_paren, Expr.add, Expr.computed?_binary start (drawn d)]
    exact operate_add_signedPlace fits
  refine ⟨fun d => ?_, fun i range => ?_⟩
  · have below := d.place_lt e hn tag'
    exact ⟨_, by omega, sum d⟩
  · have few : (n : ℤ) ≤ if e = .clickhouse then 2 ^ 64 - 1 else 2 ^ 63 - 1 := accepted
    obtain ⟨d, there⟩ := RawDraws.exists_place_from e (show low ≤ i ∧ i < low + n by omega)
      (fun he => by simp only [he, reduceCtorEq, if_false] at few; omega)
      (fun he => by simp only [he, if_true] at few; omega) tag'
    exact ⟨d, by rw [sum, there]⟩

end Engine

namespace Generator
open Engine

variable {e : Engine} {r : IntRange} {row : Expr} {now salt : ℤ} {names : Path → Option Value}

/-- The tag of the first draw of a column. -/
def firstTag (salt : ℤ) : ℤ := (Tags.ofSalt salt).next.last

theorem expression_intRange_single (low : Fits64 r.low) (single : r.width = 1) :
    expression (.of e) now row salt (.intRange r) = .ok (.operand (.int r.low)) := by
  rw [expression, compile, intRangeExpr, Expr.ofInt_of_fits low]
  simp only [single, if_true]
  rfl

theorem expression_intRange (low : Fits64 r.low) (several : r.width ≠ 1) :
    expression (.of e) now row salt (.intRange r) =
      e.integer r.width (firstTag salt) >>= fun draw =>
        .ok (.paren (.add (.operand (.int r.low)) draw)) := by
  have drawn : (intRangeExpr (.of e) r).run (.ofSalt salt) =
      (liftM (e.integer r.width (firstTag salt)) >>= fun draw =>
        (pure (.paren (.add (.operand (.int r.low)) draw)) : Tagged Expr)).run
          (Tags.ofSalt salt).next := by
    rw [intRangeExpr, Expr.ofInt_of_fits low]
    simp only [several, if_false]
    rfl
  rw [expression, compile, drawn, run_lift_bind]
  cases e.integer r.width (firstTag salt) <;> rfl

/-- The width of a range as a natural number. -/
theorem exists_width (r : IntRange) : ∃ n : ℕ, 0 < n ∧ r.width = n := by
  have ordered := r.low_le_high
  obtain ⟨n, width⟩ := Int.eq_ofNat_of_zero_le (show 0 ≤ r.high - r.low + 1 by omega)
  exact ⟨n, by omega, width⟩

theorem isWritable_width (low : Fits64 r.low) (high : Fits64 r.high) :
    isWritable r.width = true := by
  obtain ⟨least, -⟩ := low
  obtain ⟨-, most⟩ := high
  have ordered := r.low_le_high
  have bound : 2 ^ 64 < writingBound := by decide +kernel
  rw [isWritable, decide_eq_true_iff, IntRange.width]
  omega

theorem canDraw_of_fits {n : ℕ} (low : Fits64 r.low) (high : Fits64 r.high) (width : r.width = n)
    (reached : e = .sqlite → r.width ≤ e.widest) : e.CanDraw n := by
  refine ⟨width ▸ isWritable_width low high, fun he => ?_⟩
  have few := reached he
  have top : (int64Max : ℤ) = 2 ^ 63 - 1 := by decide
  simp only [widest, he, reduceCtorEq, if_false] at few
  omega

/-- A range whose width can stand in a draw is covered. -/
theorem expression_intRange_covers (he : e ≠ .postgresql) (low : Fits64 r.low)
    (high : Fits64 r.high) (accepted : r.width ≤ e.widest) :
    ∃ x, expression (.of e) now row salt (.intRange r) = .ok x ∧
      e.Covers names x fun i => r.low ≤ i ∧ i ≤ r.high := by
  by_cases single : r.width = 1
  · have same : r.high = r.low := by
      rw [IntRange.width] at single
      omega
    refine ⟨_, expression_intRange_single low single, ?_⟩
    rw [same]
    exact covers_operand low
  · obtain ⟨n, hn, width⟩ := exists_width r
    obtain ⟨draw, drawn⟩ : ∃ draw, e.integer n (firstTag salt) = .ok draw :=
      integer_ok_iff.2 (canDraw_of_fits low high width fun _ => accepted)
    refine ⟨_, ?_, covers_draw he hn (width ▸ accepted) low high width drawn⟩
    rw [expression_intRange low single, width, drawn]
    rfl

/-- SQLite refuses a range that is too wide. -/
theorem expression_intRange_refused (low : Fits64 r.low) (high : Fits64 r.high)
    (wide : Engine.widest .sqlite < r.width) :
    expression (.of .sqlite) now row salt (.intRange r) =
      .error (.configuration (.rangeTooWide r.width)) := by
  have beyond : ¬r.width ≤ int64Max := by
    have top : (int64Max : ℤ) = 2 ^ 63 - 1 := by decide
    simp only [widest, reduceCtorEq, if_false] at wide
    omega
  have several : r.width ≠ 1 := by
    rintro single
    exact beyond (by rw [single]; decide)
  have written : writable [.int r.width] = .ok () := by
    simp [writable, Value.isWritable, isWritable_width low high]
  rw [expression_intRange low several]
  simp only [integer, beyond, if_false, refuse, Cause.shown, written]
  rfl

/-- The other engines write the width of such a range down. -/
theorem expression_intRange_written (row : Expr) (now salt : ℤ) (he : e ≠ .sqlite)
    (low : Fits64 r.low) (high : Fits64 r.high) (wide : e.widest < r.width) :
    ∃ draw, e.integer r.width (firstTag salt) = .ok draw ∧
      expression (.of e) now row salt (.intRange r) =
        .ok (.paren (.add (.operand (.int r.low)) draw)) := by
  have several : r.width ≠ 1 := by
    intro single
    rw [single, widest] at wide
    split at wide <;> omega
  obtain ⟨n, -, width⟩ := exists_width r
  obtain ⟨draw, drawn⟩ : ∃ draw, e.integer n (firstTag salt) = .ok draw :=
    integer_ok_iff.2 (canDraw_of_fits low high width fun sqlite => absurd sqlite he)
  refine ⟨draw, width ▸ drawn, ?_⟩
  rw [expression_intRange low several, width, drawn]
  rfl

/-- A range is covered or refused exactly if the engine is SQLite or the width can stand in a draw.
Otherwise the width is written down, although no number of the engine stands for it. -/
theorem expression_intRange_covers_iff (e : Engine) (he : e ≠ .postgresql) (r : IntRange)
    (low : Fits64 r.low) (high : Fits64 r.high) (row : Expr) (now salt : ℤ)
    (names : Path → Option Value) :
    (((∃ cause, expression (.of e) now row salt (.intRange r) = .error (.configuration cause)) ∨
      r.width ≤ e.widest ∧ ∃ x, expression (.of e) now row salt (.intRange r) = .ok x ∧
        e.Covers names x fun i => r.low ≤ i ∧ i ≤ r.high) ↔
      e = .sqlite ∨ r.width ≤ e.widest) ∧
    (e ≠ .sqlite → e.widest < r.width → ∃ draw,
      e.integer r.width (firstTag salt) = .ok draw ∧
      expression (.of e) now row salt (.intRange r) =
        .ok (.paren (.add (.operand (.int r.low)) draw))) := by
  refine ⟨⟨?_, ?_⟩, fun other wide => expression_intRange_written row now salt other low high wide⟩
  · rintro (⟨cause, refused⟩ | ⟨accepted, -⟩)
    · by_contra! neither
      obtain ⟨draw, -, written⟩ :=
        expression_intRange_written row now salt neither.1 low high neither.2
      rw [written] at refused
      cases refused
    · exact .inr accepted
  · intro reached
    by_cases accepted : r.width ≤ e.widest
    · exact .inr ⟨accepted, expression_intRange_covers he low high accepted⟩
    · obtain rfl := reached.resolve_right accepted
      exact .inl ⟨_, expression_intRange_refused low high (not_le.1 accepted)⟩

/-- All numbers of 64 bits but the greatest. -/
def wideRange : IntRange := ⟨-2 ^ 63, 2 ^ 63 - 2, by decide⟩

theorem expression_wideRange :
    (Engine.clickhouse ≠ .postgresql ∧ Fits64 wideRange.low ∧ Fits64 wideRange.high) ∧
    ((∃ cause, expression (.of .clickhouse) 0 .null 0 (.intRange wideRange) =
        .error (.configuration cause)) ∨
      wideRange.width ≤ Engine.clickhouse.widest ∧
        ∃ x, expression (.of .clickhouse) 0 .null 0 (.intRange wideRange) = .ok x ∧
          Engine.clickhouse.Covers (fun _ => none) x
            fun i => wideRange.low ≤ i ∧ i ≤ wideRange.high) := by
  have others : Engine.clickhouse ≠ .postgresql := by decide
  have low : Fits64 wideRange.low := by decide
  have high : Fits64 wideRange.high := by decide
  have exact := (expression_intRange_covers_iff .clickhouse others wideRange low high .null 0 0
    fun _ => none).1
  exact ⟨⟨others, low, high⟩, exact.2 (.inr (by decide))⟩

/-- From -1 to the greatest number of 64 bits. -/
def shiftedRange : IntRange := ⟨-1, 2 ^ 63 - 1, by decide⟩

/-- All numbers of 64 bits. -/
def fullRange : IntRange := ⟨-2 ^ 63, 2 ^ 63 - 1, by decide⟩

/-- Trino is asked for a number below one that it does not have, and so is ClickHouse. -/
theorem unrefused_wide_ranges :
    (Fits64 shiftedRange.low ∧ Fits64 shiftedRange.high ∧
      Engine.trino.widest < shiftedRange.width ∧
      ∃ x, expression (.of .trino) 0 .null 0 (.intRange shiftedRange) = .ok x ∧
        x.render .trino = "((-1) + CAST(random(9223372036854775809) AS BIGINT))") ∧
    (Fits64 fullRange.low ∧ Fits64 fullRange.high ∧
      Engine.clickhouse.widest < fullRange.width ∧
      ∃ x, expression (.of .clickhouse) 0 .null 0 (.intRange fullRange) = .ok x ∧
        x.render .clickhouse =
          "((-9223372036854775808) + toInt64(rand64(1) % 18446744073709551616))") := by
  refine ⟨⟨by decide, by decide, by decide, _, rfl, ?_⟩, by decide, by decide, by decide, _, rfl,
    ?_⟩
  · decide +kernel
  · decide +kernel

end Generator
end SyntheticRows
