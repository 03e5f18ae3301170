import SyntheticRows.Proofs.Meaning.Insert
import SyntheticRows.Proofs.Run.ChunkPlan
import SyntheticRows.Proofs.Run.GenerationOrder
import SyntheticRows.Proofs.Run.Sending

/-!
# Generating in chunks

A generation writes its rows chunk by chunk. The chunks go through the ordinals of all rows without
a gap, so the sequence columns get what one insert of all rows would give them.
-/
namespace SyntheticRows.Run
open Sql

variable {c : Connection} {s s' : Session} {settings : GenerationSettings} {table : Table}

theorem statements_of_sendAll {l : List (Except Error Statement)}
    (h : outcome (sendAll l) c s = (.ok (), s')) :
    ∃ sent, l = sent.map .ok ∧ s'.statements = s.statements ++ sent := by
  induction l generalizing s with
  | nil =>
    cases h
    exact ⟨[], rfl, by simp⟩
  | cons x l ih =>
    obtain ⟨st, rfl, sending⟩ := ok_of_lift_bind h
    obtain ⟨_, s₁, hx, later⟩ := ok_of_bind sending
    obtain ⟨sent, rfl, hs⟩ := ih later
    refine ⟨st :: sent, rfl, ?_⟩
    rw [hs, statements_of_execute hx, List.append_assoc]
    rfl

/-- What compiles is only executed. -/
theorem sendAll_map_ok (sts : List Statement) : sendAll (sts.map .ok) = runAll sts := by
  induction sts with
  | nil => rfl
  | cons st sts ih =>
    rw [List.map_cons, sendAll, ih]
    rfl

theorem statements_of_runAll {sts : List Statement}
    (h : outcome (runAll sts) c s = (.ok (), s')) : s'.statements = s.statements ++ sts := by
  rw [← sendAll_map_ok] at h
  obtain ⟨sent, same, hs⟩ := statements_of_sendAll h
  rwa [(List.map_injective_iff.2 fun _ _ => Except.ok.inj) same]

/-- The inserts of the chunks, each of them for the ordinals after those of the chunks before. -/
theorem inserts_of_writeChunks {sizes : List ℕ} {origin : ℤ} {result r : GenerateResult}
    (h : outcome (writeChunks table origin result (sizes.map fun n : ℕ => (n : ℤ))) c s =
      (.ok r, s')) :
    ∃ inserts, List.Forall₂
        (fun b i => c.target.insertRows c.now table (b.2 : ℕ) b.1 = .ok (.insert i))
        (blocks origin sizes) inserts ∧
      s'.statements = s.statements ++ inserts.map .insert ∧
      r = { result with
        rowsInserted := result.rowsInserted + (sizes.sum : ℕ)
        chunks := result.chunks + inserts.length } := by
  induction sizes generalizing origin result s with
  | nil =>
    cases h
    exact ⟨[], .nil, by simp, by simp⟩
  | cons n rest ih =>
    rw [List.map_cons, writeChunks] at h
    obtain ⟨c', _, hc, h⟩ := ok_of_bind (of_target_bind h)
    cases hc
    obtain ⟨st, hst, h⟩ := ok_of_lift_bind h
    obtain ⟨_, s₁, hx, later⟩ := ok_of_bind h
    obtain ⟨i, _, rfl, _⟩ := Target.inserts_of_insertRows hst
    obtain ⟨inserts, compiled, sent, rfl⟩ := ih later
    refine ⟨i :: inserts, .cons hst compiled, ?_, ?_⟩
    · rw [sent, statements_of_execute hx, List.append_assoc]
      rfl
    · simp only [List.sum_cons, List.length_cons, GenerateResult.mk.injEq, true_and]
      constructor
      · push_cast
        ring
      · omega

/-- What inserts put into a sequence column, whatever is converted and whatever else is computed
from: for each ordinal what the column can hold there; without nulls, the value of the ordinal;
and in any case what one insert of all rows would put there. -/
structure Continues (c : Connection) (table : Table) (origin : ℤ) (rows : ℕ)
    (inserts : List Insert) (place : ℕ) (column : Column) (sequence : Sequence) (w : Scene)
    (convert : Conversion) : Prop where
  holds : ∀ vs, CanStoreAll w convert place inserts vs ↔
    List.Forall₂ (column.Holds c.config.driver convert sequence) (ordinals origin rows) vs
  exactly : column.nullShare ≤ 0 → ∀ vs, CanStoreAll w convert place inserts vs ↔
    vs = (ordinals origin rows).map fun i : ℤ =>
      convert (column.conversion c.config.driver) (.number (sequence.value i))
  unchunked : 0 < rows → ∀ whole,
    c.target.insertRows c.now table rows origin = .ok (.insert whole) →
      ∀ vs, CanStoreAll w convert place inserts vs ↔ whole.CanStore w convert place vs

theorem statements_of_optimizeAfter {optimizeAfter : Bool} {result r : GenerateResult}
    (h : outcome (do if optimizeAfter then optimize table.name
                     return result) c s = (.ok r, s')) :
    r = result ∧ ∃ after,
      (if optimizeAfter then c.target.maintenance table.name else .ok []) = .ok after ∧
        s'.statements = s.statements ++ after := by
  cases optimizeAfter with
  | false =>
    cases h
    exact ⟨rfl, [], rfl, by simp⟩
  | true =>
    obtain ⟨_, s₁, hx, h⟩ := ok_of_bind h
    cases h
    obtain ⟨after, compiled, ran⟩ := ok_of_optimize hx
    exact ⟨rfl, after, compiled, statements_of_runAll ran⟩

/-- The answers to come are the same before and after. -/
def SameAnswers (s s' : Session) : Prop := s'.database.results = s.database.results

theorem keepsAnswers_execute (st : Statement) : Keeps SameAnswers (execute st) := by
  intro c s
  rw [outcome_execute, outcome_send]
  split
  · split <;> exact s.after_results (.executed st) _
  · rfl

theorem keepsAnswers_sendAll (l : List (Except Error Statement)) :
    Keeps SameAnswers (sendAll l) := by
  induction l with
  | nil => exact fun _ _ => rfl
  | cons x l ih =>
    refine .bind (fun h h' => h'.trans h) (fun _ _ => rfl) fun st => ?_
    exact .bind (fun h h' => h'.trans h) (keepsAnswers_execute st) fun _ => ih

/-- What a generation that returned has sent: the preparations, one insert for each chunk, and the
maintenance. -/
structure Written (c : Connection) (s s' : Session) (settings : GenerationSettings)
    (table : Table) (rows : ℕ) (dropFirst optimizeAfter : Bool) (r : GenerateResult)
    (before : List Statement) (origin : ℤ) (sizes : List ℕ) (inserts : List Insert)
    (after : List Statement) : Prop where
  prepared : preparations c.target settings table dropFirst = before.map .ok
  starts : ∃ s₁ s₂, s₁.statements = s.statements ++ before ∧ SameAnswers s s₁ ∧
    outcome (startingOrigin settings table) c s₁ = (.ok origin, s₂)
  divides : Divides rows settings.batchSize sizes
  compiled : List.Forall₂
    (fun b i => c.target.insertRows c.now table (b.2 : ℕ) b.1 = .ok (.insert i))
    (blocks origin sizes) inserts
  maintained : (if optimizeAfter then c.target.maintenance table.name else .ok []) = .ok after
  sent : s'.statements = s.statements ++ before ++ inserts.map .insert ++ after
  result : r = { tableName := table.name, rowsInserted := rows, chunks := inserts.length }

theorem written_of_ok {rows : ℕ} {dropFirst optimizeAfter : Bool} {r : GenerateResult}
    (h : outcome (generateRows settings table rows dropFirst optimizeAfter) c s = (.ok r, s')) :
    ∃ before origin sizes inserts after, Written c s s' settings table rows dropFirst
      optimizeAfter r before origin sizes inserts after := by
  rw [generateRows_eq] at h
  obtain ⟨_, s₁, hprep, h⟩ := ok_of_bind (of_target_bind h)
  obtain ⟨before, prepared, sent₁⟩ := statements_of_sendAll hprep
  obtain ⟨origin, s₂, horigin, h⟩ := ok_of_bind h
  have sent₂ : s₂.statements = s₁.statements :=
    (keeps_startingOrigin settings table).outcome horigin
  obtain ⟨chunks, plan, h⟩ := ok_of_lift_bind h
  obtain ⟨sizes, rfl, divides⟩ := divides_of_planChunks plan
  obtain ⟨_, -, h⟩ := ok_of_lift_bind h
  obtain ⟨result, s₃, hwrite, h⟩ := ok_of_bind h
  obtain ⟨inserts, compiled, sent₃, rfl⟩ := inserts_of_writeChunks hwrite
  obtain ⟨rfl, after, maintained, sent₄⟩ := statements_of_optimizeAfter h
  refine ⟨before, origin, sizes, inserts, after, {
    prepared
    starts := ⟨s₁, s₂, sent₁, (keepsAnswers_sendAll _).outcome hprep, horigin⟩
    divides
    compiled
    maintained
    sent := by rw [sent₄, sent₃, sent₂, sent₁]
    result := by simp [divides.sum] }⟩

section Willing

/-- The run only computes: it takes nothing from the session and leaves it as it is. -/
def Computes {α : Type} (x : Run α) : Prop :=
  ∀ c s s', outcome x c s' = ((outcome x c s).1, s')

theorem Computes.bind {α β : Type} {x : Run α} {f : α → Run β} (hx : Computes x)
    (hf : ∀ a, Computes (f a)) : Computes (x >>= f) := by
  intro c s s'
  rw [outcome_bind, outcome_bind, hx c s s', hx c s s]
  cases (outcome x c s).1 with
  | error e => rfl
  | ok a => exact hf a c s s'

end Willing

section FiveRows

def fiveSettings : GenerationSettings :=
  { batchSize := some ⟨2, by decide⟩, resumeSequences := false }

/-- 10, 15, 20 and so on. -/
def byFive : Sequence := { start := 10, step := 5 }

def sequenceTable : Table :=
  { name := .text "numbers"
    columns := [{ name := .text "n", type := .integer, generator := .sequence byFive }] }

def liteConnection : Connection := { config := { driver := .sqlite }, now := 0 }

end FiveRows

section NulledSequence

end NulledSequence

end SyntheticRows.Run
