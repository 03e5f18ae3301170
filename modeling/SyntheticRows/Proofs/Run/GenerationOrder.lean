import SyntheticRows.Proofs.Compile.Chunk
import SyntheticRows.Run.Generation

/-!
# Configuration errors while rows are generated

A generation compiles each statement right before it is executed. So what a configuration error
finds done are the preparations of the table that compile before the first one that does not: the
first insert is refused before it is sent, and after it nothing is refused any more.
-/
namespace SyntheticRows
open Sql

/-- The results of the compilations before the first failure. -/
def leading {ε α : Type} : List (Except ε α) → List α
  | .ok a :: rest => a :: leading rest
  | _ => []

/-- Whether a statement only tidies up what is stored. -/
def Sql.Statement.isMaintenance : Statement → Bool
  | .maintain _ => true
  | _ => false

/-- The statements sent that create, drop, empty or fill tables. -/
def Session.writes (s : Session) : List Statement := s.statements.filter (!·.isMaintenance)

namespace Run

/-- What is done to a table before rows are written to it, each statement with what its compilation
ends with. -/
def preparations (t : Target) (settings : GenerationSettings) (table : Table)
    (dropFirst : Bool) : List (Except Error Statement) :=
  (if dropFirst then [t.dropTable table.name] else []) ++
  (if settings.createTable then [t.createTable table] else []) ++
  (if settings.truncateFirst && !dropFirst then [t.clearTable table.name] else [])

/-- Compiles and executes one statement after the other. -/
def sendAll : List (Except Error Statement) → Run Unit
  | [] => pure ()
  | st :: rest => do
    execute (← st)
    sendAll rest

/-- The rows used up where sequences are resumed. -/
def startingOrigin (settings : GenerationSettings) (table : Table) : Run Int :=
  if settings.resumeSequences then resumeOrigin table else pure 0

/-- A generation after the preparations. -/
def fillTable (settings : GenerationSettings) (table : Table) (rows : Int) (optimizeAfter : Bool) :
    Run GenerateResult := do
  let origin ← startingOrigin settings table
  let chunks ← planChunks rows (settings.batchSize.map fun n => (n.val : Int))
  writable [.int rows]
  let result ← writeChunks table origin { tableName := table.name } chunks
  if optimizeAfter then optimize table.name
  return result

theorem generateRows_eq (settings : GenerationSettings) (table : Table) (rows : Int)
    (dropFirst optimizeAfter : Bool) :
    generateRows settings table rows dropFirst optimizeAfter =
      (do
        sendAll (preparations (← target) settings table dropFirst)
        fillTable settings table rows optimizeAfter) := by
  unfold generateRows fillTable preparations startingOrigin
  congr 1
  funext t
  cases dropFirst <;> cases settings.createTable <;> cases settings.truncateFirst <;>
    cases settings.resumeSequences <;> simp [sendAll]

theorem isMaintenance_of_mem_preparations {t : Target} {settings : GenerationSettings}
    {table : Table}
    {dropFirst : Bool} {st : Statement}
    (h : .ok st ∈ preparations t settings table dropFirst) : st.isMaintenance = false := by
  simp only [preparations, List.mem_append, List.mem_ite_nil_right, List.mem_singleton] at h
  rcases h with (⟨_, h⟩ | ⟨_, h⟩) | ⟨_, h⟩
  · obtain ⟨_, _, h⟩ := except_ok_of_bind h.symm
    cases h; rfl
  · obtain ⟨_, _, h⟩ := except_ok_of_bind h.symm
    obtain ⟨_, _, h⟩ := except_ok_of_bind h
    split at h
    · obtain ⟨_, _, h⟩ := except_ok_of_bind h
      cases h; rfl
    · cases h; rfl
    · cases h; rfl
  · obtain ⟨_, _, h⟩ := except_ok_of_bind h.symm
    cases h; rfl

theorem writes_of_execute {st : Statement} {c : Connection} {s s' : Session}
    (hw : st.isMaintenance = false)
    (h : outcome (execute st) c s = (.ok (), s')) : s'.writes = s.writes ++ [st] := by
  simp [Session.writes, statements_of_execute h, hw]

/-- Preparations up to an error that refuses one of them: those before it are executed. -/
theorem writes_of_sendAll_error {l : List (Except Error Statement)} {c : Connection}
    {s s' : Session} {e : Error} (hl : ∀ st, .ok st ∈ l → st.isMaintenance = false)
    (he : e.isConfiguration = true) (h : outcome (sendAll l) c s = (.error e, s')) :
    s'.writes = s.writes ++ leading l := by
  induction l generalizing s with
  | nil => cases h
  | cons x l ih =>
    rcases error_of_lift_bind h with ⟨rfl, rfl⟩ | ⟨st, rfl, sending⟩
    · simp [leading]
    rcases error_of_bind sending with hx | ⟨_, s₁, hx, later⟩
    · rw [neverRefuses_execute st c s e s' hx] at he
      cases he
    · have hw := writes_of_execute (hl st (by simp)) hx
      rw [ih (fun st hst => hl st (by simp [hst])) later, hw]
      simp [leading]

theorem writes_of_sendAll_ok {l : List (Except Error Statement)} {c : Connection}
    {s s' : Session} (hl : ∀ st, .ok st ∈ l → st.isMaintenance = false)
    (h : outcome (sendAll l) c s = (.ok (), s')) :
    s'.writes = s.writes ++ leading l := by
  induction l generalizing s with
  | nil => cases h; simp [leading]
  | cons x l ih =>
    obtain ⟨st, rfl, sending⟩ := ok_of_lift_bind h
    obtain ⟨_, s₁, hx, later⟩ := ok_of_bind sending
    have hw := writes_of_execute (hl st (by simp)) hx
    rw [ih (fun st hst => hl st (by simp [hst])) later, hw]
    simp [leading]

/-- The session before and after have the same statements on record. -/
def SameStatements (s s' : Session) : Prop := s'.statements = s.statements

theorem SameStatements.refl (s : Session) : SameStatements s s := rfl

theorem SameStatements.trans {a b d : Session} (h : SameStatements a b)
    (h' : SameStatements b d) : SameStatements a d := Eq.trans h' h

theorem SameStatements.writes {s s' : Session} (h : SameStatements s s') : s'.writes = s.writes :=
  congrArg (List.filter fun st : Statement => !st.isMaintenance) h

theorem keeps_fetch (q : Query) : Keeps SameStatements (fetch q) := by
  intro c s
  rw [outcome_fetch, outcome_bind, outcome_send]
  by_cases hs : s.isOpen = true
  · simp only [hs, if_true]
    cases (s.database.accept (q.render c.target.writer)).1 <;>
      simp [SameStatements, Session.statements, Event.statement?]
  · simp only [hs]
    exact SameStatements.refl s

theorem keeps_resumeOrigin (table : Table) : Keeps SameStatements (resumeOrigin table) := by
  have bind {α β : Type} {x : Run α} {f : α → Run β} : Keeps SameStatements x →
      (∀ a, Keeps SameStatements (f a)) → Keeps SameStatements (x >>= f) := .bind .trans
  unfold resumeOrigin
  cases table.firstSequence? with
  | none => exact .pure .refl _
  | some f =>
    refine bind (fun _ _ => rfl) fun t => ?_
    refine bind (.lift .refl _) fun q => ?_
    refine bind (bind (keeps_fetch q) fun r => .pure .refl _) fun v => ?_
    split
    · exact .pure .refl _
    · refine bind (.lift .refl _) fun extreme => ?_
      exact bind (.lift .refl _) fun _ => .pure .refl _

theorem keeps_startingOrigin (settings : GenerationSettings) (table : Table) :
    Keeps SameStatements (startingOrigin settings table) := by
  unfold startingOrigin
  split
  · exact keeps_resumeOrigin table
  · exact .pure .refl _

/-- Once an insert has compiled for some chunk, no chunk is refused. -/
theorem writeChunks_error_of_ok {c : Connection} {table : Table} {n o : Int} {st : Statement}
    (hc : c.target.insertRows c.now table n o = .ok st) {sizes : List Int} {origin : Int}
    {result : GenerateResult} {s s' : Session} {e : Error}
    (h : outcome (writeChunks table origin result sizes) c s = (.error e, s')) :
    e.isConfiguration = false := by
  induction sizes generalizing origin result s with
  | nil => cases h
  | cons size rest ih =>
    simp only [writeChunks, outcome_bind, outcome_target, outcome_read, outcome_lift] at h
    cases hi : c.target.insertRows c.now table size origin with
    | error e' =>
      rw [hi] at h
      cases h
      exact Target.insertRows_error_of_ok hc hi
    | ok st' =>
      simp only [hi] at h
      rcases error_of_bind (x := execute st') (by rwa [outcome_bind]) with h | ⟨_, s₁, _, h⟩
      · exact neverRefuses_execute st' c s e s' h
      · exact ih h

/-- Only the insert of the first chunk can be refused, and then it is not sent. -/
theorem writeChunks_configuration {c : Connection} {table : Table} {sizes : List Int}
    {origin : Int} {result : GenerateResult} {s s' : Session} {e : Error}
    (he : e.isConfiguration = true)
    (h : outcome (writeChunks table origin result sizes) c s = (.error e, s')) : s' = s := by
  cases sizes with
  | nil => cases h
  | cons size rest =>
    have h' := h
    simp only [writeChunks, outcome_bind, outcome_target, outcome_read, outcome_lift] at h'
    cases hi : c.target.insertRows c.now table size origin with
    | error e' =>
      rw [hi] at h'
      cases h'; rfl
    | ok st =>
      rw [writeChunks_error_of_ok hi h] at he
      cases he

/-- Chunks that were written leave the table with a name that can be quoted. -/
theorem writeChunks_tableRef {c : Connection} {table : Table} {sizes : List Int}
    {origin : Int} {result r : GenerateResult} {s s' : Session}
    (h : outcome (writeChunks table origin result sizes) c s = (.ok r, s')) :
    s' = s ∨ ∃ path, c.target.tableRef table.name = .ok path := by
  cases sizes with
  | nil => cases h; exact .inl rfl
  | cons size rest =>
    refine .inr ?_
    simp only [writeChunks, outcome_bind, outcome_target, outcome_read, outcome_lift] at h
    cases hi : c.target.insertRows c.now table size origin with
    | error e => simp [hi] at h
    | ok st => exact Target.tableRef_of_insertRows hi

theorem neverRefuses_runAll (statements : List Statement) : NeverRefuses (runAll statements) := by
  induction statements with
  | nil => exact .pure _
  | cons st rest ih =>
    exact (neverRefuses_execute st).bind fun _ => ih

/-- Maintenance is refused only for the name of the table. -/
theorem maintenance_error {t : Target} {table : Value} {e : Error}
    (h : t.maintenance table = .error e) : t.tableRef table = .error e := by
  unfold Target.maintenance at h
  cases hd : t.dialect with
  | core => simp only [hd] at h; cases h
  | of engine =>
    simp only [hd] at h
    rcases except_error_of_bind h with h | ⟨path, _, h⟩
    · exact h
    · cases engine <;> cases h

theorem optimize_configuration {c : Connection} {table : Value} {s s' : Session} {e : Error}
    (he : e.isConfiguration = true) (h : outcome (optimize table) c s = (.error e, s')) :
    s' = s ∧ c.target.tableRef table = .error e := by
  rcases error_of_lift_bind (of_target_bind h) with ⟨hm, rfl⟩ | ⟨sts, _, h⟩
  · exact ⟨rfl, maintenance_error hm⟩
  · cases (neverRefuses_runAll sts c s e s' h).symm.trans he

theorem ok_of_optimize {c : Connection} {table : Value} {s s' : Session} {u : Unit}
    (h : outcome (optimize table) c s = (.ok u, s')) :
    ∃ sts, c.target.maintenance table = .ok sts ∧ outcome (runAll sts) c s = (.ok u, s') :=
  ok_of_lift_bind (of_target_bind h)

/-- A refusal after the preparations finds nothing written since. -/
theorem writes_of_fillTable_error {settings : GenerationSettings} {table : Table} {rows : Int}
    {optimizeAfter : Bool} {c : Connection} {s s' : Session} {e : Error}
    (he : e.isConfiguration = true)
    (h : outcome (fillTable settings table rows optimizeAfter) c s = (.error e, s')) :
    s'.writes = s.writes := by
  have origin := keeps_startingOrigin settings table
  rcases error_of_bind h with h | ⟨o, s₁, ho, h⟩
  · exact (origin.outcome h).writes
  have hs₁ : s₁.writes = s.writes := (origin.outcome ho).writes
  rw [← hs₁]
  rcases error_of_lift_bind h with ⟨hp, rfl⟩ | ⟨chunks, _, h⟩
  · rfl
  rcases error_of_lift_bind h with ⟨hw, rfl⟩ | ⟨_, _, h⟩
  · rfl
  rcases error_of_bind h with h | ⟨r, s₂, hr, h⟩
  · rw [writeChunks_configuration he h]
  -- Maintenance follows the chunks; if there was any, the name of the table compiles.
  cases optimizeAfter with
  | false => cases h
  | true =>
    rcases error_of_bind h with h | ⟨_, _, _, h⟩
    · obtain ⟨rfl, ht⟩ := optimize_configuration he h
      rcases writeChunks_tableRef hr with rfl | ⟨path, hpath⟩
      · rfl
      · rw [ht] at hpath
        cases hpath
    · cases h

/-- A generation that is refused has executed the preparations that compile before the first that
does not, and nothing else. So nothing is written exactly if there is no preparation, or the first
one does not compile. -/
theorem writes_of_generateRows_refused {settings : GenerationSettings} {table : Table} {rows : Int}
    {dropFirst optimizeAfter : Bool} {c : Connection} {s s' : Session} {e : Error}
    (h : outcome (generateRows settings table rows dropFirst optimizeAfter) c s = (.error e, s'))
    (he : e.isConfiguration = true) :
    s'.writes =
        s.writes ++ leading (preparations c.target settings table dropFirst) ∧
      (s'.writes = s.writes ↔ leading (preparations c.target settings table dropFirst) = []) := by
  have written : s'.writes =
      s.writes ++ leading (preparations c.target settings table dropFirst) := by
    have writes : ∀ st, .ok st ∈ preparations c.target settings table dropFirst →
        st.isMaintenance = false := fun _ => isMaintenance_of_mem_preparations
    simp only [generateRows_eq, outcome_bind, outcome_target] at h
    rcases error_of_bind (x := sendAll _) (by rwa [outcome_bind]) with h | ⟨_, s₁, hs, h⟩
    · exact writes_of_sendAll_error writes he h
    · rw [writes_of_fillTable_error he h, writes_of_sendAll_ok writes hs]
  refine ⟨written, ?_⟩
  rw [written]
  simp

/-- A table whose only column holds a text that SQL cannot write. -/
def unwritableTable : Table :=
  { name := .text "t"
    columns := [{ name := .text "a", type := .string, generator := .constant (.text "\x00") }] }

/-- One row for that table on SQLite, where the settings drop and create the table first. -/
def unwritableGeneration : Except Error GenerateResult × Session :=
  outcome (generateRows { dropFirst := true, optimize := false } unwritableTable 1 true false)
    { config := { driver := .sqlite }, now := 0 } { isOpen := true }

theorem unwritableGeneration_refused : ∃ e s', unwritableGeneration = (.error e, s') ∧
    e.isConfiguration = true ∧ s'.writes.length = 2 := by
  have h : (failure? unwritableGeneration.1).any Error.isConfiguration = true ∧
      unwritableGeneration.2.writes.length = 2 := by decide +kernel
  rcases hu : unwritableGeneration with ⟨e | r, s'⟩
  · rw [hu] at h
    exact ⟨e, s', rfl, by simpa [failure?] using h.1, h.2⟩
  · rw [hu] at h
    simp [failure?] at h

theorem writes_of_unwritableGeneration : ∃ e s', unwritableGeneration = (.error e, s') ∧
    e.isConfiguration = true ∧ (s'.writes = [] ↔
      leading (preparations { dialect := .of .sqlite } { dropFirst := true, optimize := false }
        unwritableTable true) = []) := by
  obtain ⟨e, s', h, he, _⟩ := unwritableGeneration_refused
  exact ⟨e, s', h, he, (writes_of_generateRows_refused h he).2⟩

/-- The table is dropped and created before its column is refused. -/
theorem dropped_before_refusal : ∃ e s', unwritableGeneration = (.error e, s') ∧
    e.isConfiguration = true ∧ s'.writes ≠ [] := by
  obtain ⟨e, s', h, he, hw⟩ := unwritableGeneration_refused
  refine ⟨e, s', h, he, fun hn => ?_⟩
  rw [hn] at hw
  cases hw

end Run
end SyntheticRows
