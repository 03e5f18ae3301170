import SyntheticRows.Proofs.Run.ResumedSeries

/-!
# Where a resumed sequence goes on

The members of a sequence, extended to both sides, are the numbers that it would give at any
position, also at negative ones. A column can hold other numbers too. Whatever its extreme content
is, the sequence is resumed at its first member beyond that.
-/
namespace SyntheticRows

namespace Sequence

variable {s : Sequence} {v n : ℤ} {i j : ℤ}

/-- Further on in the direction of the sequence. -/
def Beyond (s : Sequence) (v n : ℤ) : Prop := if s.step < 0 then n < v else v < n

/-- The numbers of the sequence, extended to both sides. -/
def Member (s : Sequence) (n : ℤ) : Prop := ∃ k : ℤ, n = s.start + k * s.step

/-- The first member beyond a number. -/
structure IsNext (s : Sequence) (v n : ℤ) : Prop where
  member : s.Member n
  beyond : s.Beyond v n
  first : ∀ m, s.Member m → s.Beyond v m → m = n ∨ s.Beyond n m

theorem beyond_members : s.Beyond (s.start + i * s.step) (s.start + j * s.step) ↔ i < j := by
  have nonzero := s.step_ne_zero
  unfold Beyond
  split
  · next down =>
    rw [add_lt_add_iff_left, mul_lt_mul_right_of_neg down]
  · next up =>
    have positive : 0 < s.step := by omega
    rw [add_lt_add_iff_left, mul_lt_mul_iff_left₀ positive]

theorem not_beyond_self : ¬s.Beyond v v := by
  unfold Beyond
  split <;> exact lt_irrefl v

theorem Beyond.trans {m : ℤ} (h : s.Beyond v n) (h' : s.Beyond n m) : s.Beyond v m := by
  unfold Beyond at *
  split at h
  · next down =>
    rw [if_pos down] at h' ⊢
    exact h'.trans h
  · next up =>
    rw [if_neg up] at h' ⊢
    exact h.trans h'

theorem Beyond.trans_not {m : ℤ} (h : ¬s.Beyond n v) (h' : s.Beyond n m) : s.Beyond v m := by
  unfold Beyond at *
  split at h
  · next down =>
    rw [if_pos down] at h' ⊢
    omega
  · next up =>
    rw [if_neg up] at h' ⊢
    omega

theorem IsNext.unique {m : ℤ} (h : s.IsNext v n) (h' : s.IsNext v m) : m = n := by
  rcases h.first m h'.member h'.beyond with same | later
  · exact same
  · rcases h'.first n h.member h.beyond with same | earlier
    · exact same.symm
    · exact (not_beyond_self (later.trans earlier)).elim

end Sequence

namespace Run
open Sql Sequence

variable {sequence : Sequence} {v r : ℤ} {table : Table} {column : Column} {c : Connection}
  {s s' : Session}

section Origin

/-- The position that an origin leads to is beyond the extreme, the one before it is not. -/
theorem originAfter_bounds (sequence : Sequence) (v : ℤ) :
    sequence.Beyond v (sequence.start + originAfter sequence v * sequence.step) ∧
      ¬sequence.Beyond v (sequence.start + (originAfter sequence v - 1) * sequence.step) := by
  have nonzero := sequence.step_ne_zero
  unfold Beyond originAfter
  generalize ha : v + sequence.step - sequence.start = a
  have divided := Int.mul_fdiv_add_fmod a sequence.step
  rw [sub_mul, one_mul, mul_comm (a.fdiv _)]
  split
  · next down =>
    -- the remainder has the sign of the divisor
    have mirrored := Int.neg_fmod_neg a sequence.step
    have low := Int.fmod_nonneg_of_pos (-a) (b := -sequence.step) (by omega)
    have high := Int.fmod_lt_of_pos (-a) (b := -sequence.step) (by omega)
    omega
  · next up =>
    have low := Int.fmod_nonneg_of_pos a (b := sequence.step) (by omega)
    have high := Int.fmod_lt_of_pos a (b := sequence.step) (by omega)
    omega

theorem isNext_originAfter (sequence : Sequence) (v : ℤ) :
    sequence.IsNext v (sequence.start + originAfter sequence v * sequence.step) := by
  obtain ⟨beyond, before⟩ := originAfter_bounds sequence v
  refine ⟨⟨_, rfl⟩, beyond, ?_⟩
  rintro m ⟨k, rfl⟩ hk
  have later := beyond_members.1 (Beyond.trans_not before hk)
  rcases (show originAfter sequence v ≤ k by omega).eq_or_lt with rfl | further
  · exact .inl rfl
  · exact .inr (beyond_members.2 further)

/-- One step beyond a number is a member exactly if the number is. -/
theorem next_eq_step_iff {n : ℤ} (next : sequence.IsNext v n) :
    n = v + sequence.step ↔ sequence.Member v := by
  constructor
  · rintro rfl
    obtain ⟨k, hk⟩ := next.member
    exact ⟨k - 1, by rw [sub_mul]; omega⟩
  · rintro ⟨k, rfl⟩
    rw [(isNext_originAfter sequence _).unique next, originAfter]
    have moved : sequence.start + k * sequence.step + sequence.step - sequence.start =
        (k + 1) * sequence.step := by ring
    rw [moved, Int.mul_fdiv_cancel _ sequence.step_ne_zero]
    ring

theorem next_not_beyond_step {n : ℤ} (next : sequence.IsNext v n) :
    ¬sequence.Beyond (v + sequence.step) n := by
  have nonzero := sequence.step_ne_zero
  obtain ⟨_, before⟩ := originAfter_bounds sequence v
  rw [(isNext_originAfter sequence v).unique next]
  rw [sub_mul, one_mul] at before
  unfold Beyond at *
  split at before
  · next down =>
    rw [if_pos down]
    omega
  · next up =>
    rw [if_neg up]
    omega

end Origin

section Answer

theorem outcome_fetchScalar (q : Query) : outcome (fetchScalar q) c s =
    match outcome (fetch q) c s with
    | (.ok r, s') => (.ok (firstField r), s')
    | (.error e, s') => (.error e, s') := by
  show outcome (fetch q >>= fun r => pure (firstField r)) c s = _
  rw [outcome_bind]
  rcases outcome (fetch q) c s with ⟨_ | _, _⟩ <;> rfl

/-- What resuming ends with once the extreme is known. -/
theorem outcome_resumeOrigin {q : Query} (hf : table.firstSequence? = some (column, sequence))
    (hq : c.target.extreme (sequence.step < 0) table.name column.name = .ok q)
    (hv : (firstField s.database.answer.1).whole = .ok v) :
    outcome (resumeOrigin table) c s =
      match outcome (fetch q) c s with
      | (.ok _, s') => ((fun _ => originAfter sequence v) <$>
          writable [.int (v + sequence.step), .int (originAfter sequence v)], s')
      | (.error e, s') => (.error e, s') := by
  unfold resumeOrigin
  rw [hf]
  simp only [outcome_bind, outcome_target, outcome_lift, hq, outcome_fetchScalar]
  rcases hr : outcome (fetch q) c s with ⟨e | r, s₁⟩
  · rfl
  · rw [← fetched_eq hr] at hv
    dsimp only
    split
    · next hnull =>
      rw [hnull] at hv
      cases hv
    · rw [hv]
      simp only [outcome_bind, outcome_lift]
      cases writable [.int (v + sequence.step), .int (originAfter sequence v)] <;> rfl

/-- A query is answered if the connection is open and the database does not refuse it. -/
theorem fetch_ok_iff {q : Query} {a : ResultSet} : outcome (fetch q) c s = (.ok a, s') ↔
    s.isOpen = true ∧ (s.database.accept (q.render c.target.writer)).1 = none ∧
      a = s.database.answer.1 ∧
      s' = (s.after (.fetched q) (q.render c.target.writer)).answered := by
  rw [outcome_fetch, outcome_bind, outcome_send]
  by_cases hopen : s.isOpen = true
  · rw [if_pos hopen]
    cases hw : (s.database.accept (q.render c.target.writer)).1 with
    | some reason => simp
    | none =>
      simp only [outcome_nextResult, Prod.mk.injEq, Except.ok.injEq, hopen, true_and]
      rw [Database.answer_eq (s.after_results (.fetched q) _), eq_comm, @eq_comm _ _ s']
  · simp [hopen]

end Answer

/-- The extreme content of the consulted column was asked for, and the sequence goes on with its
first member beyond it, which is what the expression of the sequence gives for the first row. -/
structure GoesOn (c : Connection) (table : Table) (column : Column) (sequence : Sequence)
    (s s' : Session) (v r : ℤ) : Prop where
  asked : ∃ ident path, column.name = .text ident.name ∧ c.target.tableRef table.name = .ok path ∧
    s'.events = s.events ++ [.fetched (.extreme (sequence.step < 0) ident path)]
  next : sequence.IsNext v (sequence.start + r * sequence.step)
  exactly : sequence.start + r * sequence.step = v + sequence.step ↔ sequence.Member v
  within : ¬sequence.Beyond (v + sequence.step) (sequence.start + r * sequence.step)
  given : ∀ R env row x, Denotes R env row (some (.number ((r + 1 : ℤ) : ℚ))) →
    Generator.sequenceExpr sequence row = .ok x →
      Denotes R env x (some (.number ((sequence.start + r * sequence.step : ℤ) : ℚ)))

/-- Where a sequence is resumed after any extreme. Resuming gives an origin exactly if both it and
the number one step beyond the extreme, which is logged, have few enough digits to be written. -/
theorem goesOn_of_resumeOrigin (hf : table.firstSequence? = some (column, sequence))
    (hv : (firstField s.database.answer.1).whole = .ok v) :
    (∀ r s', outcome (resumeOrigin table) c s = (.ok r, s') →
      GoesOn c table column sequence s s' v r) ∧
    ∀ q, c.target.extreme (sequence.step < 0) table.name column.name = .ok q →
      s.isOpen = true → (s.database.accept (q.render c.target.writer)).1 = none →
      ∀ r, sequence.IsNext v (sequence.start + r * sequence.step) →
        ((∃ s', outcome (resumeOrigin table) c s = (.ok r, s')) ↔
          isWritable (v + sequence.step) = true ∧ isWritable r = true) := by
  constructor
  · intro r s' h
    have starts : outcome (startingOrigin { resumeSequences := true } table) c s = (.ok r, s') := h
    obtain ⟨⟨q, hq⟩, _⟩ := originOf_of_starts rfl hf starts
    rw [outcome_resumeOrigin hf hq hv] at h
    rcases hr : outcome (fetch q) c s with ⟨e | a, s₁⟩ <;> rw [hr] at h
    · cases h
    obtain ⟨origin, rfl⟩ := Prod.mk.inj h
    obtain ⟨_, _, rfl⟩ := except_ok_of_map origin
    obtain ⟨_, _, _, rfl⟩ := fetch_ok_iff.1 hr
    obtain ⟨ident, hident, hq⟩ := except_ok_of_bind hq
    obtain ⟨path, hpath, hq⟩ := except_ok_of_bind hq
    cases hq
    have next := isNext_originAfter sequence v
    refine ⟨⟨ident, path, Target.ident_text hident, hpath, rfl⟩, next, next_eq_step_iff next,
      next_not_beyond_step next, fun R env row x hrow hx => ?_⟩
    have first := Generator.sequenceExpr_denotes hrow hx
    rwa [Sequence.value, add_sub_cancel_right] at first
  · intro q hq hopen accepted r next
    have same : r = originAfter sequence v := by
      have values := (isNext_originAfter sequence v).unique next
      exact mul_right_cancel₀ sequence.step_ne_zero (add_left_cancel values)
    subst same
    rw [outcome_resumeOrigin hf hq hv, fetch_ok_iff.2 ⟨hopen, accepted, rfl, rfl⟩]
    by_cases written : isWritable (v + sequence.step) = true ∧
        isWritable (originAfter sequence v) = true
    · simp [writable, Value.isWritable, written, Functor.map, Except.map]
    · simp [writable, Value.isWritable, written, Functor.map, Except.map]

section Countdown

/-- 100, 93, 86 and so on. -/
def downBySeven : Sequence := { start := 100, step := -7 }

def countdownTable : Table :=
  { name := .text "countdown"
    columns := [{ name := .text "ticks", type := .integer, generator := .sequence downBySeven }] }

/-- The minimum 41 lies between the members 44 and 37. -/
theorem goesOn_of_countdown : ∃ column s',
    countdownTable.firstSequence? = some (column, downBySeven) ∧
      (firstField (answering (.int 41)).database.answer.1).whole = .ok 41 ∧
      outcome (resumeOrigin countdownTable) liteConnection (answering (.int 41)) = (.ok 9, s') ∧
      GoesOn liteConnection countdownTable column downBySeven (answering (.int 41)) s' 41 9 := by
  have hf : countdownTable.firstSequence? =
      some (countdownTable.columns.head countdownTable.nonempty, downBySeven) := rfl
  have hv : (firstField (answering (.int 41)).database.answer.1).whole = .ok 41 := rfl
  obtain ⟨returned, returns⟩ := goesOn_of_resumeOrigin (c := liteConnection) hf hv
  obtain ⟨q, hq⟩ := except_ok_of_isSome (x := liteConnection.target.extreme
    (downBySeven.step < 0) countdownTable.name (.text "ticks")) (by decide +kernel)
  have next := isNext_originAfter downBySeven 41
  have origin : originAfter downBySeven 41 = 9 := by decide
  rw [origin] at next
  obtain ⟨s', h⟩ := (returns q hq rfl rfl 9 next).2 ⟨by decide, by decide⟩
  exact ⟨_, s', hf, hv, h, returned 9 s' h⟩

end Countdown

/-- A sequence is not resumed after the greatest number that can be written: one step more cannot be
logged. The origin itself could be written. -/
theorem unresumed_beyond_digits : ∃ column e s',
    sequenceTable.firstSequence? = some (column, byFive) ∧
      outcome (resumeOrigin sequenceTable) liteConnection (answering (.int (writingBound - 1))) =
        (.error e, s') ∧
      ∃ r, byFive.IsNext (writingBound - 1) (byFive.start + r * byFive.step) ∧
        isWritable r = true := by
  have hf : sequenceTable.firstSequence? = some (numberColumn, byFive) := rfl
  obtain ⟨q, hq⟩ := except_ok_of_isSome (x := liteConnection.target.extreme
    (byFive.step < 0) sequenceTable.name numberColumn.name) (by decide +kernel)
  have long : writable [.int (writingBound - 1 + byFive.step),
      .int (originAfter byFive (writingBound - 1))] = .error .tooManyDigits :=
    if_neg (by decide +kernel)
  have resumed := outcome_resumeOrigin (c := liteConnection)
    (s := answering (.int (writingBound - 1))) hf hq rfl
  rw [fetch_ok_iff.2 ⟨rfl, rfl, rfl, rfl⟩, long] at resumed
  exact ⟨_, _, _, hf, resumed, _, isNext_originAfter byFive _, by decide +kernel⟩

end Run
end SyntheticRows
