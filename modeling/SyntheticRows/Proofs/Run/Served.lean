import SyntheticRows.Proofs.Meaning.Pick
import SyntheticRows.Proofs.Run.BatchInTurn
import SyntheticRows.Proofs.Run.Course
import SyntheticRows.Proofs.Run.Resuming

/-!
# Databases that serve a session

A database serves a session if it carries out each statement, draws as its random functions do, and
answers each query from what it holds at that moment. What it does between two sessions can be
taken apart wherever the run between them can.
-/
namespace SyntheticRows
open Sql

/-- Where the insert casts what the draws of the engine determine, the row holds what some draws
give, converted. -/
def Sql.Insert.Draws (e : Engine) (convert : Conversion) (i : Insert) (row : Row) : Prop :=
  List.Forall₂ (fun column x => ∀ y type, x = .cast y type →
    (∀ s : Site, s.engine = e → (y.value? s).isSome) →
    ∃ s u, s.engine = e ∧ y.value? s = some u ∧ row column.name = some (convert type u))
    i.columns i.values

/-- A statement is performed, and the rows that it inserts are drawn. -/
structure Fulfils (R : Rules) (convert : Conversion) (σ : Store) (st : Statement) (σ' : Store) :
    Prop where
  performs : Performs R convert σ st σ'
  drawn : ∀ i added, st = .insert i → σ'.rowsOf i.table = σ.rowsOf i.table ++ added →
    ∀ row ∈ added, i.Draws R.engine convert row

/-- Statements that are fulfilled one after the other. -/
abbrev FulfilsAll (R : Rules) (convert : Conversion) : Store → List Statement → Store → Prop :=
  Folded (Fulfils R convert)

theorem performsAll_of_fulfilsAll {R : Rules} {convert : Conversion} {σ σ' : Store}
    {sts : List Statement} (h : FulfilsAll R convert σ sts σ') :
    PerformsAll R convert σ sts σ' := by
  induction h with
  | nil σ => exact .nil σ
  | cons first _ ih => exact .cons first.performs ih

/-- Whether an event takes an answer. -/
def Event.asks : Event → Bool
  | .fetched _ | .queried _ => true
  | _ => false

/-- Events of any kind. -/
def Event.Any (_ : Event) : Prop := True

theorem Event.told_any (st : Statement) : Any (.executed st) := trivial

namespace Run

/-- The answer to the query for the columns of a table lists the columns of its rows. -/
def Describes (t : Target) (σ : Store) (q : CatalogQuery) (r : ResultSet) : Prop :=
  ∀ columns table path, t.columnsQuery = .ok columns →
    q = { columns with parameters := columns.parameters ++ [("name", table)] } →
    t.tableRef table = .ok path → ∀ row ∈ σ.rowsOf path, row.IsOver (firstFields r)

/-- Events that a database serves, with the answers that it gives. -/
inductive Serves (R : Rules) (convert : Conversion) (t : Target) :
    Store → List ResultSet → List Event → Store → List ResultSet → Prop
  | nil {σ : Store} {answers : List ResultSet} : Serves R convert t σ answers [] σ answers
  | executed {σ σ₁ σ' : Store} {answers rest : List ResultSet} {st : Statement}
    {events : List Event} : Fulfils R convert σ st σ₁ →
    Serves R convert t σ₁ answers events σ' rest →
    Serves R convert t σ answers (.executed st :: events) σ' rest
  | fetched {σ σ' : Store} {answers rest : List ResultSet} {q : Query} {r : ResultSet}
    {events : List Event} : Replies σ q r → Serves R convert t σ answers events σ' rest →
    Serves R convert t σ (r :: answers) (.fetched q :: events) σ' rest
  | queried {σ σ' : Store} {answers rest : List ResultSet} {q : CatalogQuery} {r : ResultSet}
    {events : List Event} : Describes t σ q r → Serves R convert t σ answers events σ' rest →
    Serves R convert t σ (r :: answers) (.queried q :: events) σ' rest

/-- From one session to the other the database served what was sent. -/
def Served (R : Rules) (convert : Conversion) (t : Target) (σ : Store) (s : Session) (σ' : Store)
    (s' : Session) : Prop :=
  ∃ events, s'.events = s.events ++ events ∧
    Serves R convert t σ s.database.results events σ' s'.database.results

section Serves

variable {R : Rules} {convert : Conversion} {t : Target} {σ σ' : Store}
  {answers rest : List ResultSet} {events more : List Event}

/-- Each event that takes an answer takes the first of those to come. -/
theorem Serves.answers_eq (h : Serves R convert t σ answers events σ' rest) :
    rest = answers.drop (events.countP Event.asks) := by
  induction h with
  | nil => rfl
  | executed _ _ ih => rw [ih, List.countP_cons_of_neg (by simp [Event.asks])]
  | fetched _ _ ih => rw [ih, List.countP_cons_of_pos rfl, List.drop_succ_cons]
  | queried _ _ ih => rw [ih, List.countP_cons_of_pos rfl, List.drop_succ_cons]

theorem Serves.split (h : Serves R convert t σ answers (events ++ more) σ' rest) :
    ∃ σ₁ between, Serves R convert t σ answers events σ₁ between ∧
      Serves R convert t σ₁ between more σ' rest := by
  induction events generalizing σ answers with
  | nil => exact ⟨σ, answers, .nil, h⟩
  | cons e events ih =>
    cases h with
    | executed first later =>
      obtain ⟨σ₁, between, before, after⟩ := ih later
      exact ⟨σ₁, between, .executed first before, after⟩
    | fetched first later =>
      obtain ⟨σ₁, between, before, after⟩ := ih later
      exact ⟨σ₁, between, .fetched first before, after⟩
    | queried first later =>
      obtain ⟨σ₁, between, before, after⟩ := ih later
      exact ⟨σ₁, between, .queried first before, after⟩

theorem Serves.append (h : Serves R convert t σ answers events σ' rest) {σ₂ : Store}
    {last : List ResultSet} (h' : Serves R convert t σ' rest more σ₂ last) :
    Serves R convert t σ answers (events ++ more) σ₂ last := by
  induction h with
  | nil => exact h'
  | executed first _ ih => exact .executed first (ih h')
  | fetched first _ ih => exact .fetched first (ih h')
  | queried first _ ih => exact .queried first (ih h')

/-- Queries change nothing, so the statements alone lead from store to store. -/
theorem Serves.fulfilled (h : Serves R convert t σ answers events σ' rest) :
    FulfilsAll R convert σ (events.filterMap Event.statement?) σ' := by
  induction h with
  | nil => exact .nil _
  | executed first _ ih => exact .cons first ih
  | fetched _ _ ih => exact ih
  | queried _ _ ih => exact ih

end Serves

section Exchanging

variable {α β : Type} {c : Connection} {s s₁ s' : Session} {P : Event → Prop}

/-- From one session to the other there were only events of a kind, and each query among them took
the first of the answers to come. -/
def Exchanges (P : Event → Prop) (s s' : Session) : Prop :=
  ∃ events, s'.events = s.events ++ events ∧ (∀ e ∈ events, P e) ∧
    s'.database.results = s.database.results.drop (events.countP Event.asks)

theorem Exchanges.nothing (events : s'.events = s.events)
    (results : s'.database.results = s.database.results) : Exchanges P s s' :=
  ⟨[], by rw [events, List.append_nil], nofun, results⟩

theorem Exchanges.refl (s : Session) : Exchanges P s s := .nothing rfl rfl

theorem Exchanges.trans (h : Exchanges P s s₁) (h' : Exchanges P s₁ s') : Exchanges P s s' := by
  obtain ⟨first, sent, known, taken⟩ := h
  obtain ⟨later, sent', known', taken'⟩ := h'
  refine ⟨first ++ later, by rw [sent', sent, List.append_assoc], fun e he => ?_, ?_⟩
  · exact (List.mem_append.1 he).elim (known e) (known' e)
  · rw [taken', taken, List.drop_drop, List.countP_append]

/-- A run that ends well sends only events of a kind, and takes one answer for each query. -/
def Exchanging (P : Event → Prop) (x : Run α) : Prop :=
  ∀ c s a s', outcome x c s = (.ok a, s') → Exchanges P s s'

theorem Exchanging.pure (a : α) : Exchanging P (pure a : Run α) := by
  rintro c s _ s' ⟨⟩
  exact .refl s

theorem Exchanging.lift (x : Except Error α) : Exchanging P (liftM x : Run α) := by
  rintro c s a s' h
  cases h
  exact .refl s

theorem Exchanging.bind {x : Run α} {f : α → Run β} (hx : Exchanging P x)
    (hf : ∀ a, Exchanging P (f a)) : Exchanging P (x >>= f) := by
  rintro c s b s' h
  obtain ⟨a, s₁, first, later⟩ := ok_of_bind h
  exact (hx c s a s₁ first).trans (hf a c s₁ b s' later)

theorem exchanging_target : Exchanging P target := by
  rintro c s _ s' ⟨⟩
  exact .refl s

theorem exchanging_read : Exchanging P (read : Run Connection) := by
  rintro c s _ s' ⟨⟩
  exact .refl s

theorem exchanging_compile (x : Warned α) : Exchanging P (compile x) := by
  rintro c s a s' h
  rw [outcome_compile, Prod.mk.injEq] at h
  obtain ⟨-, rfl⟩ := h
  exact .nothing rfl rfl

theorem exchanging_newShadowNames (table : Value) : Exchanging P (newShadowNames table) := by
  rintro c s a s' h
  rw [outcome_newShadowNames, Prod.mk.injEq] at h
  obtain ⟨-, rfl⟩ := h
  exact .nothing rfl rfl

/-- What is sent is on record, and takes no answer by itself. -/
theorem sent_of_send {event : Event} {text title : String} {u : Unit}
    (h : outcome (send event text title) c s = (.ok u, s')) :
    s'.events = s.events ++ [event] ∧ s'.database.results = s.database.results := by
  rw [outcome_send] at h
  split at h
  · split at h <;> cases h
    exact ⟨rfl, rfl⟩
  · cases h

theorem Database.results_answer (d : Database) : d.answer.2.results = d.results.drop 1 := by
  unfold Database.answer
  cases h : d.results <;> simp [h]

/-- A query is sent, and takes the first of the answers to come. -/
theorem asked_of_send {event : Event} {text title : String} {r : ResultSet}
    (h : outcome (do send event text title; nextResult) c s = (.ok r, s')) :
    s'.events = s.events ++ [event] ∧ s'.database.results = s.database.results.drop 1 ∧
      r = s.database.answer.1 := by
  obtain ⟨_, s₁, hsend, h⟩ := ok_of_bind h
  obtain ⟨sent, kept⟩ := sent_of_send hsend
  cases h
  refine ⟨sent, ?_, Database.answer_eq kept⟩
  show s₁.database.answer.2.results = _
  rw [Database.results_answer, kept]

theorem asked_of_fetch {q : Query} {r : ResultSet} (h : outcome (fetch q) c s = (.ok r, s')) :
    s'.events = s.events ++ [.fetched q] ∧ s'.database.results = s.database.results.drop 1 ∧
      r = s.database.answer.1 := by
  rw [outcome_fetch] at h
  exact asked_of_send h

theorem asked_of_query {q : CatalogQuery} {r : ResultSet}
    (h : outcome (query q) c s = (.ok r, s')) :
    s'.events = s.events ++ [.queried q] ∧ s'.database.results = s.database.results.drop 1 ∧
      r = s.database.answer.1 := asked_of_send h

theorem exchanging_fetch {q : Query} (asked : P (.fetched q)) : Exchanging P (fetch q) := by
  rintro c s a s' h
  obtain ⟨sent, taken, -⟩ := asked_of_fetch h
  exact ⟨_, sent, by simpa using asked, taken⟩

theorem exchanging_query {q : CatalogQuery} (asked : P (.queried q)) : Exchanging P (query q) := by
  rintro c s a s' h
  obtain ⟨sent, taken, -⟩ := asked_of_query h
  exact ⟨_, sent, by simpa using asked, taken⟩

theorem exchanging_columnNames (table : Value) (asked : ∀ q, P (.queried q)) :
    Exchanging P (columnNames table) :=
  .bind exchanging_target fun _ => .bind (.lift _) fun _ =>
    .bind (exchanging_query (asked _)) fun _ => .pure _

theorem exchanging_startingOrigin {settings : GenerationSettings} (table : Table)
    (asked : settings.resumeSequences = true → ∀ q, P (.fetched q)) :
    Exchanging P (startingOrigin settings table) := by
  unfold startingOrigin
  split
  · next resumes =>
    unfold resumeOrigin
    split
    · exact .pure 0
    · refine .bind exchanging_target fun t => .bind (.lift _) fun q => ?_
      refine .bind (.bind (exchanging_fetch (asked resumes q)) fun r => .pure _) fun v => ?_
      split
      · exact .pure 0
      · exact .bind (.lift _) fun _ => .bind (.lift _) fun _ => .pure _
  · exact .pure 0

section Told

variable (told : ∀ st, P (.executed st))
include told

theorem exchanging_execute (st : Statement) : Exchanging P (execute st) := by
  rintro c s a s' h
  rw [outcome_execute] at h
  obtain ⟨sent, kept⟩ := sent_of_send h
  exact ⟨_, sent, by simpa using told st, kept⟩

theorem exchanging_compiled (x : Except Error Statement) :
    Exchanging P (do execute (← x) : Run Unit) :=
  .bind (.lift x) (exchanging_execute told)

theorem exchanging_sendAll (l : List (Except Error Statement)) : Exchanging P (sendAll l) := by
  induction l with
  | nil => exact .pure ()
  | cons x l ih => exact .bind (.lift x) fun st => .bind (exchanging_execute told st) fun _ => ih

theorem exchanging_optimize (table : Value) : Exchanging P (optimize table) := by
  refine .bind exchanging_target fun t => .bind (.lift _) fun sts => ?_
  rw [← sendAll_map_ok]
  exact exchanging_sendAll told _

theorem exchanging_optimizes (tables : List Value) : Exchanging P (tables.forM optimize) := by
  induction tables with
  | nil => exact .pure ()
  | cons table tables ih => exact .bind (exchanging_optimize told table) fun _ => ih

theorem exchanging_writeChunks (table : Table) (origin : ℤ) (result : GenerateResult)
    (sizes : List ℤ) : Exchanging P (writeChunks table origin result sizes) := by
  induction sizes generalizing origin result with
  | nil => exact .pure _
  | cons size rest ih =>
    refine .bind exchanging_target fun t => .bind exchanging_read fun c => ?_
    exact .bind (.lift _) fun st => .bind (exchanging_execute told st) fun _ => ih _ _

theorem exchanging_fillTable {settings : GenerationSettings}
    (asked : settings.resumeSequences = true → ∀ q, P (.fetched q)) (table : Table) (rows : ℤ)
    (optimizeAfter : Bool) : Exchanging P (fillTable settings table rows optimizeAfter) := by
  refine .bind (exchanging_startingOrigin table asked) fun origin => .bind (.lift _) fun _ => ?_
  refine .bind (.lift _) fun _ => .bind (exchanging_writeChunks told _ _ _ _) fun r => ?_
  split
  · exact .bind (exchanging_optimize told _) fun _ => .pure r
  · exact .pure r

theorem exchanging_generateRows {settings : GenerationSettings}
    (asked : settings.resumeSequences = true → ∀ q, P (.fetched q)) (table : Table) (rows : ℤ)
    (dropFirst optimizeAfter : Bool) :
    Exchanging P (generateRows settings table rows dropFirst optimizeAfter) := by
  rw [generateRows_eq]
  refine .bind exchanging_target fun t => .bind (exchanging_sendAll told _) fun _ => ?_
  exact exchanging_fillTable told asked table rows optimizeAfter

theorem exchanging_replaceTable (columns : List Value) (p : ReplacementPass) :
    Exchanging P (replaceTable columns p) := by
  have step {table : Value} {step : ReplacementStep} {orphans : List String} {action : Run Unit}
      (h : Exchanging P action) : Exchanging P (replacementStep table step orphans action) :=
    fun c s _ s' hx => h c s () s' (ok_of_replacementStep hx)
  refine .bind exchanging_target fun t => .bind (exchanging_newShadowNames _) fun names => ?_
  refine .bind (exchanging_compile _) fun populate => .bind (.lift _) fun create => ?_
  refine .bind (exchanging_execute told create) fun _ => ?_
  refine .bind (step (exchanging_execute told populate)) fun _ => ?_
  exact .bind (step (exchanging_compiled told _)) fun _ => step (exchanging_compiled told _)

theorem exchanging_runActions (columns : List Value) (result : TransformResult)
    (actions : List Action) : Exchanging P (runActions columns result actions) := by
  induction actions generalizing result with
  | nil => exact .pure _
  | cons a rest ih =>
    cases a with
    | run st => exact .bind (exchanging_execute told st) fun _ => ih _
    | replace p => exact .bind (exchanging_replaceTable told columns p) fun _ => ih _

theorem exchanging_applyBatches (strict : Bool) (columns : List Value) (result : TransformResult)
    (batches : List Batch) : Exchanging P (applyBatches strict columns result batches) := by
  induction batches generalizing result with
  | nil => exact .pure _
  | cons b rest ih =>
    refine .bind (.lift _) fun _ => .bind exchanging_target fun t => ?_
    refine .bind (exchanging_compile _) fun actions => ?_
    exact .bind (exchanging_runActions told _ _ _) fun _ => ih _

end Told

theorem exchanging_applyTransformations (strict : Bool) (table : Value) (batches : List Batch) :
    Exchanging Event.Any (applyTransformations strict table batches) := by
  unfold applyTransformations
  generalize batches.filter (!·.transformations.isEmpty) = kept
  dsimp only
  split
  · exact .pure _
  · refine .bind (fun c s a s' h => ?_) fun _ => ?_
    · obtain ⟨_, hr, _⟩ := outcome_checkAll table kept c s
      cases hr.symm.trans h
      exact .refl s
    · exact .bind (exchanging_columnNames table fun _ => trivial) fun columns =>
        exchanging_applyBatches Event.told_any _ _ _ _

theorem exchanging_runStep (settings : GenerationSettings) (p : Progress) (step : Step) :
    Exchanging Event.Any (runStep settings p step) := by
  have applied (table : Value) (batches : List Batch) :
      Exchanging Event.Any (applyStepBatches settings table batches) :=
    exchanging_applyTransformations _ _ _
  unfold runStep
  refine .bind (.lift _) fun _ => ?_
  cases step with
  | generate g =>
    refine .bind (.lift _) fun _ => ?_
    have generates (dropFirst : Bool) :
        Exchanging Event.Any (generateRows settings g.table g.rowCount dropFirst false) :=
      exchanging_generateRows Event.told_any (fun _ _ => trivial) _ _ _ _
    dsimp only
    split
    · exact fun c s a s' h => by cases h
    · refine .bind (generates _) fun r => ?_
      split
      · exact .pure _
      · exact .bind (.bind (applied _ _) fun _ => .pure _) fun _ => .pure _
  | transform g => exact .bind (applied _ _) fun _ => .pure _

theorem exchanging_runSteps (settings : GenerationSettings) (p : Progress) (steps : List Step) :
    Exchanging Event.Any (steps.foldlM (runStep settings) p) := by
  induction steps generalizing p with
  | nil => exact .pure p
  | cons step steps ih =>
    rw [List.foldlM_cons]
    exact .bind (exchanging_runStep settings p step) ih

end Exchanging

section Served

variable {α β : Type} {R : Rules} {convert : Conversion} {t : Target} {c : Connection}
  {σ σ₁ σ' : Store} {s s₁ s' : Session} {P Q : Event → Prop}

theorem Served.split (h : Served R convert t σ s σ' s') (first : Exchanges P s s₁)
    (later : Exchanges Q s₁ s') :
    ∃ σ₁, Served R convert t σ s σ₁ s₁ ∧ Served R convert t σ₁ s₁ σ' s' := by
  obtain ⟨events, sent, serves⟩ := h
  obtain ⟨before, sent₁, -, taken⟩ := first
  obtain ⟨after, sent₂, -⟩ := later
  rw [sent₂, sent₁, List.append_assoc, List.append_right_inj] at sent
  subst sent
  obtain ⟨σ₁, between, serves₁, serves₂⟩ := serves.split
  obtain rfl : between = s₁.database.results := serves₁.answers_eq.trans taken.symm
  exact ⟨σ₁, ⟨before, sent₁, serves₁⟩, ⟨after, sent₂, serves₂⟩⟩

theorem Served.trans (h : Served R convert t σ s σ₁ s₁) (h' : Served R convert t σ₁ s₁ σ' s') :
    Served R convert t σ s σ' s' := by
  obtain ⟨before, sent, serves⟩ := h
  obtain ⟨after, sent', serves'⟩ := h'
  exact ⟨before ++ after, by rw [sent', sent, List.append_assoc], serves.append serves'⟩

/-- A part in which nothing is sent leaves the store as it is. -/
theorem Served.eq_of_events (h : Served R convert t σ s σ' s') (same : s'.events = s.events) :
    σ' = σ := by
  obtain ⟨events, sent, serves⟩ := h
  rw [same, List.self_eq_append_right] at sent
  subst sent
  exact Folded.nil_iff.1 serves.fulfilled

/-- What serves a run of two parts serves one after the other. -/
theorem Served.bind {x : Run α} {f : α → Run β} {b : β} (h : Served R convert t σ s σ' s')
    (hrun : outcome (x >>= f) c s = (.ok b, s')) (hx : Exchanging P x)
    (hf : ∀ a, Exchanging Q (f a)) :
    ∃ a s₁ σ₁, outcome x c s = (.ok a, s₁) ∧ Served R convert t σ s σ₁ s₁ ∧
      outcome (f a) c s₁ = (.ok b, s') ∧ Served R convert t σ₁ s₁ σ' s' := by
  obtain ⟨a, s₁, first, later⟩ := ok_of_bind hrun
  obtain ⟨σ₁, served, served'⟩ := h.split (hx c s a s₁ first) (hf a c s₁ b s' later)
  exact ⟨a, s₁, σ₁, first, served, later, served'⟩

theorem Served.fulfilled {sts : List Statement} (h : Served R convert t σ s σ' s')
    (sent : s'.statements = s.statements ++ sts) : FulfilsAll R convert σ sts σ' := by
  obtain ⟨events, hevents, serves⟩ := h
  rw [Session.statements, hevents, List.filterMap_append, Session.statements,
    List.append_right_inj] at sent
  exact sent ▸ serves.fulfilled

theorem Served.of_fetch {q : Query} {r : ResultSet} (h : Served R convert t σ s σ' s')
    (hx : outcome (fetch q) c s = (.ok r, s')) : σ' = σ ∧ Replies σ q s.database.answer.1 := by
  obtain ⟨events, sent, serves⟩ := h
  obtain ⟨sent', -, -⟩ := asked_of_fetch hx
  rw [sent', List.append_right_inj] at sent
  subst sent
  generalize answers : s.database.results = results at serves
  cases serves with
  | fetched replies rest =>
    cases rest
    rw [Database.answer, answers]
    exact ⟨rfl, replies⟩

theorem Served.of_query {q : CatalogQuery} {r : ResultSet} (h : Served R convert t σ s σ' s')
    (hx : outcome (query q) c s = (.ok r, s')) : σ' = σ ∧ Describes t σ q r := by
  obtain ⟨events, sent, serves⟩ := h
  obtain ⟨sent', -, rfl⟩ := asked_of_query hx
  rw [sent', List.append_right_inj] at sent
  subst sent
  generalize answers : s.database.results = results at serves
  cases serves with
  | queried describes rest =>
    cases rest
    rw [Database.answer, answers]
    exact ⟨rfl, describes⟩

end Served

end Run
end SyntheticRows
