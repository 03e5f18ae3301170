import SyntheticRows.Proofs.Meaning.Extreme
import SyntheticRows.Proofs.Run.GeneratedRows

/-!
# Resumed sequences

A generation that resumes its sequences asks for the extreme content of the first sequence column
and starts its ordinals after the one that this content belongs to. All sequence columns go by
these ordinals. In a series of generations the first sequence column therefore never gets a number
twice, and the other ones do not as long as it shows the last row before each generation.
-/
namespace SyntheticRows

namespace Database

/-- The next answer depends on the answers to come alone. -/
theorem answer_eq {d d' : Database} (h : d'.results = d.results) : d'.answer.1 = d.answer.1 := by
  unfold answer
  rw [h]
  cases d.results <;> rfl

end Database

namespace Run
open Sql

/-- The answer is the one that the store gives to a query for an extreme. -/
def Replies (σ : Store) : Query → ResultSet → Prop
  | .extreme least column table, r => IsExtreme least (σ.contents table column.name) (firstField r)
  | _, _ => True

section Origin

variable {c : Connection} {s s' : Session} {settings : GenerationSettings} {table : Table}
  {column : Column} {sequence : Sequence} {origin : ℤ}

/-- The origin that an answer leads to. -/
def OriginOf (sequence : Sequence) (answer : Value) (origin : ℤ) : Prop :=
  answer = .null ∧ origin = 0 ∨
    ∃ extreme, answer.whole = .ok extreme ∧ origin = originAfter sequence extreme

theorem fetched_eq {q : Query} {r : ResultSet} (h : outcome (fetch q) c s = (.ok r, s')) :
    r = s.database.answer.1 := by
  rw [outcome_fetch] at h
  obtain ⟨_, s₁, hsend, h⟩ := ok_of_bind h
  cases h
  refine Database.answer_eq ?_
  rw [outcome_send] at hsend
  split at hsend
  · split at hsend <;> cases hsend
    rfl
  · cases hsend

theorem originOf_of_starts (resumes : settings.resumeSequences = true)
    (hf : table.firstSequence? = some (column, sequence))
    (h : outcome (startingOrigin settings table) c s = (.ok origin, s')) :
    (∃ q, c.target.extreme (sequence.step < 0) table.name column.name = .ok q) ∧
      OriginOf sequence (firstField s.database.answer.1) origin := by
  rw [startingOrigin, if_pos resumes] at h
  unfold resumeOrigin at h
  rw [hf] at h
  obtain ⟨q, hq, h⟩ := ok_of_lift_bind (of_target_bind h)
  refine ⟨⟨q, hq⟩, ?_⟩
  obtain ⟨answer, s₁, hfetch, h⟩ := ok_of_bind h
  obtain ⟨r, _, hr, hanswer⟩ := ok_of_bind (x := fetch q) (f := fun r => pure (firstField r)) hfetch
  cases hanswer
  rw [← fetched_eq hr]
  split at h
  · next hnull =>
    cases h
    exact .inl ⟨hnull, rfl⟩
  · obtain ⟨extreme, hwhole, h⟩ := ok_of_lift_bind h
    obtain ⟨_, _, h⟩ := ok_of_lift_bind h
    cases h
    exact .inr ⟨extreme, hwhole, rfl⟩

/-- The position of a value of the sequence is found again. -/
theorem originAfter_value (sequence : Sequence) (i : ℤ) :
    originAfter sequence (sequence.value i) = i := by
  have moved : sequence.value i + sequence.step - sequence.start = i * sequence.step := by
    rw [Sequence.value]
    ring
  rw [originAfter, moved, Int.mul_fdiv_cancel _ sequence.step_ne_zero]

/-- What is further on in the direction of the sequence is at no earlier position. -/
theorem originAfter_mono {a b : ℤ} (h : if sequence.step < 0 then b ≤ a else a ≤ b) :
    originAfter sequence a ≤ originAfter sequence b := by
  have nonzero := sequence.step_ne_zero
  unfold originAfter
  split at h
  · next down =>
    rw [← Int.neg_fdiv_neg, ← Int.neg_fdiv_neg (b + _ - _),
      Int.fdiv_eq_ediv_of_nonneg _ (by omega), Int.fdiv_eq_ediv_of_nonneg _ (by omega)]
    exact Int.ediv_le_ediv (by omega) (by omega)
  · rw [Int.fdiv_eq_ediv_of_nonneg _ (by omega), Int.fdiv_eq_ediv_of_nonneg _ (by omega)]
    exact Int.ediv_le_ediv (by omega) (by omega)

/-- The origin is the furthest position of what a column holds, or zero if it holds nothing. -/
structure Reaches (sequence : Sequence) (contents : List Datum) (origin : ℤ) : Prop where
  covers : ∀ q, .number q ∈ contents → originAfter sequence (truncated q) ≤ origin
  attained : (origin = 0 ∧ ∀ x ∈ contents, x = .null) ∨
    ∃ q, .number q ∈ contents ∧ origin = originAfter sequence (truncated q)

/-- A column that holds nothing but numbers and nulls. -/
def IsNumeric (contents : List Datum) : Prop := ∀ x ∈ contents, x = .null ∨ ∃ q, x = .number q

theorem reaches_of_isExtreme {contents : List Datum} {v : Value} (numeric : IsNumeric contents)
    (hv : IsExtreme (sequence.step < 0) contents v) (ho : OriginOf sequence v origin) :
    Reaches sequence contents origin := by
  rcases hv with ⟨x, hx, shown, beyond⟩ | ⟨empty, rfl⟩
  · obtain ⟨q, rfl⟩ : ∃ q, x = .number q := by
      rcases numeric x hx with rfl | known
      · cases shown
      · exact known
    rcases ho with ⟨rfl, _⟩ | ⟨extreme, whole, rfl⟩
    · cases shown
    rw [whole_of_shows shown whole]
    refine ⟨fun p hp => originAfter_mono ?_, .inr ⟨q, hx, rfl⟩⟩
    have order := beyond _ hp (by simp)
    simp only [decide_eq_true_eq] at order
    split at order
    · next down =>
      cases order with
      | number order =>
        rw [if_pos down]
        exact truncated_mono order
    · next up =>
      cases order with
      | number order =>
        rw [if_neg up]
        exact truncated_mono order
  · rcases ho with ⟨_, rfl⟩ | ⟨extreme, whole, _⟩
    · exact ⟨fun q hq => absurd (empty _ hq) (by simp), .inl ⟨rfl, empty⟩⟩
    · cases whole

end Origin

/-- One generation of a series: the rows that it finds in the table, and the origin from which its
ordinals run. -/
structure Turn where
  now : ℤ
  settings : GenerationSettings
  rows : ℕ
  optimizeAfter : Bool := false
  present : List Row
  origin : ℤ

/-- The generation resumes the sequences, neither drops nor empties the table, and returns. The
database performs what it is sent, and is asked for the extreme of what the table holds. -/
structure Turn.Runs (R : Rules) (convert : Conversion) (config : DatabaseConfig) (table : Table)
    (path : Path) (σ : Store) (turn : Turn) (σ' : Store) : Prop where
  resumes : turn.settings.resumeSequences = true
  keeps : turn.settings.truncateFirst = false
  finds : turn.present = σ.rowsOf path
  runs : ∃ s s' r sent,
    outcome (generateRows turn.settings table turn.rows false turn.optimizeAfter)
      ⟨config, turn.now⟩ s = (.ok r, s') ∧
    s'.statements = s.statements ++ sent ∧ PerformsAll R convert σ sent σ' ∧
    (∃ s₁ s₂, SameAnswers s s₁ ∧
      outcome (startingOrigin turn.settings table) ⟨config, turn.now⟩ s₁ =
        (.ok turn.origin, s₂)) ∧
    ∀ column sequence q, table.firstSequence? = some (column, sequence) →
      (Target.ofDatabase config).extreme (sequence.step < 0) table.name column.name = .ok q →
      Replies σ q s.database.answer.1

/-- Generations of one table, one after the other. -/
abbrev Turns (R : Rules) (convert : Conversion) (config : DatabaseConfig) (table : Table)
    (path : Path) : Store → List Turn → Store → Prop :=
  Folded (Turn.Runs R convert config table path)

section Turn

variable {R : Rules} {convert : Conversion} {config : DatabaseConfig} {table : Table}
  {path : Path} {column : Column} {sequence : Sequence} {name : String} {turn : Turn}
  {σ σ' : Store}

/-- The origin is determined by the answers to come. -/
theorem originOf_unique {v : Value} {a b : ℤ} (ha : OriginOf sequence v a)
    (hb : OriginOf sequence v b) : a = b := by
  rcases ha with ⟨rfl, rfl⟩ | ⟨x, hx, rfl⟩
  · rcases hb with ⟨_, rfl⟩ | ⟨y, hy, _⟩
    · rfl
    · cases hy
  · rcases hb with ⟨rfl, _⟩ | ⟨y, hy, rfl⟩
    · cases hx
    · cases hx.symm.trans hy
      rfl

/-- The rows of a generation follow its origin. -/
theorem Turn.Runs.continues (h : turn.Runs R convert config table path σ σ')
    (hR : R.engine = config.driver)
    (ht : (Target.ofDatabase config).tableRef table.name = .ok path)
    (hf : table.firstSequence? = some (column, sequence)) :
    ∃ is added, σ'.rowsOf path = σ.rowsOf path ++ added ∧
      table.Continues config.driver convert turn.origin turn.rows is added ∧
      (turn.settings.Counts config.driver turn.rows → is = ordinals turn.origin turn.rows) := by
  obtain ⟨s, s', r, sent, hrun, hsent, hx, ⟨s₁, s₂, same, hstart⟩, _⟩ := h.runs
  obtain ⟨before, origin, sizes, inserts, after, written⟩ := written_of_ok hrun
  obtain ⟨s₃, s₄, _, same', hstart'⟩ := written.starts
  have statements := written.sent
  rw [hsent, List.append_assoc, List.append_assoc, List.append_right_inj,
    ← List.append_assoc] at statements
  subst statements
  obtain ⟨σ₁, is, added, hbefore, extended, continued, all⟩ := written.performed hR ht hx
  have answers : s₃.database.results = s₁.database.results := same'.trans same.symm
  have ho := (originOf_of_starts h.resumes hf hstart').2
  rw [Database.answer_eq answers] at ho
  cases originOf_unique (originOf_of_starts h.resumes hf hstart).2 ho
  refine ⟨is, added, ?_, continued, all⟩
  have kept : σ₁.rowsOf path = σ.rowsOf path :=
    rowsOf_of_preparations (c := ⟨config, turn.now⟩) ht h.keeps written.prepared hbefore
  rw [extended.rowsOf, kept]

/-- The origin of a generation is the furthest position that the first sequence column shows. -/
theorem Turn.Runs.reaches (h : turn.Runs R convert config table path σ σ')
    (ht : (Target.ofDatabase config).tableRef table.name = .ok path)
    (hf : table.firstSequence? = some (column, sequence)) (named : column.name = .text name)
    (numeric : IsNumeric (σ.contents path name)) :
    Reaches sequence (σ.contents path name) turn.origin := by
  obtain ⟨s, _, _, _, _, _, _, ⟨s₁, _, same, hstart⟩, replies⟩ := h.runs
  obtain ⟨⟨q, hq⟩, ho⟩ := originOf_of_starts h.resumes hf hstart
  have reply := replies column sequence q hf hq
  obtain ⟨ident, hident, hq⟩ := except_ok_of_bind hq
  obtain ⟨path', hpath', hq⟩ := except_ok_of_bind hq
  cases ht.symm.trans hpath'
  cases hq
  rw [Target.ident_text hident, Value.text.injEq] at named
  subst named
  rw [Database.answer_eq same] at ho
  exact reaches_of_isExtreme numeric reply ho

end Turn
end Run
end SyntheticRows
