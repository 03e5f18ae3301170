import SyntheticRows.CommandLine.Shell
import SyntheticRows.Proofs.Run.GenerationOrder
import SyntheticRows.Proofs.Run.Sending
import SyntheticRows.Proofs.Run.TransformationOrder
import SyntheticRows.Run.Generator

/-!
# Open and closed connections

Whether the connection of a session is open is decided by the last call that opened or closed it;
no operation changes it. A connection is open from the moment it is made, before it is tested, and
stays open if the test or the schema is refused. So what could not be connected can be used.
-/
namespace SyntheticRows
open Sql

/-- The event carries a text over the connection. -/
def Event.isText : Event → Bool
  | .executed _ | .fetched _ | .queried _ => true
  | .opened _ | .disposed => false

/-- From one session to the other texts were sent, but only over an open connection, and the
connection was left as it is. -/
structure Session.Stays (s s' : Session) : Prop where
  isOpen : s'.isOpen = s.isOpen
  texts : ∃ sent, s'.events = s.events ++ sent ∧ ∀ e ∈ sent, e.isText = true
  closed : s.isOpen = false → s'.events = s.events

namespace Session.Stays

variable {a b d s s' : Session}

theorem quiet (isOpen : s'.isOpen = s.isOpen) (events : s'.events = s.events) : s.Stays s' where
  isOpen
  texts := ⟨[], by rw [events, List.append_nil], nofun⟩
  closed _ := events

theorem refl (s : Session) : s.Stays s := quiet rfl rfl

theorem trans (h : a.Stays b) (h' : b.Stays d) : a.Stays d where
  isOpen := h'.isOpen.trans h.isOpen
  texts := by
    obtain ⟨first, hfirst, text⟩ := h.texts
    obtain ⟨second, hsecond, text'⟩ := h'.texts
    refine ⟨first ++ second, by rw [hsecond, hfirst, List.append_assoc], fun e he => ?_⟩
    exact (List.mem_append.1 he).elim (text e) (text' e)
  closed hc := (h'.closed (h.isOpen.trans hc)).trans (h.closed hc)

/-- A text that is sent over an open connection. -/
theorem sent {e : Event} (hopen : s.isOpen = true) (text : e.isText = true)
    (isOpen : s'.isOpen = s.isOpen) (events : s'.events = s.events ++ [e]) : s.Stays s' where
  isOpen
  texts := ⟨[e], events, fun e' he => List.mem_singleton.1 he ▸ text⟩
  closed hc := by rw [hopen] at hc; cases hc

end Session.Stays

namespace Run

variable {α β : Type}

section Stays

theorem stays_bind {x : Run α} {f : α → Run β} : Keeps Session.Stays x →
    (∀ a, Keeps Session.Stays (f a)) → Keeps Session.Stays (x >>= f) := .bind .trans

theorem stays_pure (a : α) : Keeps Session.Stays (pure a) := .pure .refl a

theorem stays_lift (x : Except Error α) : Keeps Session.Stays (liftM x : Run α) := .lift .refl x

theorem stays_throw (e : Error) : Keeps Session.Stays (throw e : Run α) := fun _ s => .refl s

theorem stays_target : Keeps Session.Stays target := fun _ s => .refl s

theorem stays_forM {f : α → Run Unit} (l : List α) (h : ∀ a, Keeps Session.Stays (f a)) :
    Keeps Session.Stays (l.forM f) := by
  induction l with
  | nil => exact stays_pure ()
  | cons a rest ih => exact stays_bind (h a) fun _ => ih

theorem stays_mapM {f : α → Run β} (l : List α) (h : ∀ a, Keeps Session.Stays (f a)) :
    Keeps Session.Stays (l.mapM f) := by
  induction l with
  | nil => exact stays_pure []
  | cons a rest ih =>
    rw [List.mapM_cons]
    exact stays_bind (h a) fun _ => stays_bind ih fun _ => stays_pure _

theorem stays_foldlM {f : β → α → Run β} (l : List α) (b : β)
    (h : ∀ b a, Keeps Session.Stays (f b a)) : Keeps Session.Stays (l.foldlM f b) := by
  induction l generalizing b with
  | nil => exact stays_pure b
  | cons a rest ih =>
    rw [List.foldlM_cons]
    exact stays_bind (h b a) ih

theorem stays_send {event : Event} (ht : event.isText = true) (text title : String) :
    Keeps Session.Stays (send event text title) := by
  intro c s
  rw [outcome_send]
  by_cases hs : s.isOpen = true
  · rw [if_pos hs]
    split
    · exact .sent hs ht rfl rfl
    · exact .sent hs ht rfl rfl
  · rw [if_neg hs]
    exact .refl s

theorem stays_nextResult : Keeps Session.Stays nextResult := fun _ _ => .quiet rfl rfl

theorem stays_execute (st : Statement) : Keeps Session.Stays (execute st) :=
  stays_bind stays_target fun _ => stays_send rfl _ _

theorem stays_fetch (q : Query) : Keeps Session.Stays (fetch q) :=
  stays_bind stays_target fun _ => stays_bind (stays_send rfl _ _) fun _ => stays_nextResult

theorem stays_query (q : CatalogQuery) : Keeps Session.Stays (query q) :=
  stays_bind (stays_send rfl _ _) fun _ => stays_nextResult

theorem stays_tryQuery (q : CatalogQuery) : Keeps Session.Stays (tryQuery q) := by
  intro c s
  by_cases hs : s.isOpen = true
  · simp only [tryQuery, outcome_bind, outcome_needOpen, hs, if_true, outcome_record,
      outcome_submit]
    split
    · exact .sent hs rfl hs.symm rfl
    · exact .sent hs rfl hs.symm rfl
  · simp only [tryQuery, outcome_bind, outcome_needOpen, hs]
    exact .refl s

theorem stays_fetchScalar (q : Query) : Keeps Session.Stays (fetchScalar q) :=
  stays_bind (stays_fetch q) fun _ => stays_pure _

/-- What is compiled is executed. -/
theorem stays_executed (x : Except Error Statement) : Keeps Session.Stays (do execute (← x)) :=
  stays_bind (stays_lift x) stays_execute

theorem stays_built (x : Target → Except Error Statement) :
    Keeps Session.Stays (do execute (← x (← target))) :=
  stays_bind stays_target fun t => stays_executed (x t)

theorem stays_compile (x : Warned α) : Keeps Session.Stays (compile x) := by
  intro c s
  rw [outcome_compile]
  exact .quiet rfl rfl

theorem stays_newShadowNames (table : Value) : Keeps Session.Stays (newShadowNames table) := by
  intro c s
  rw [outcome_newShadowNames]
  exact .quiet rfl rfl

theorem stays_replacementStep (table : Value) (step : ReplacementStep) (orphans : List String)
    {action : Run Unit} (h : Keeps Session.Stays action) :
    Keeps Session.Stays (replacementStep table step orphans action) :=
  keeps_replacementStep (fun h => h.trans (.quiet rfl rfl)) table step orphans h

theorem stays_replaceTable (columns : List Value) (p : ReplacementPass) :
    Keeps Session.Stays (replaceTable columns p) := by
  unfold replaceTable
  refine stays_bind stays_target fun t => ?_
  refine stays_bind (stays_newShadowNames _) fun names => ?_
  refine stays_bind (stays_compile _) fun populate => ?_
  refine stays_bind (stays_lift _) fun create => ?_
  refine stays_bind (stays_execute create) fun _ => ?_
  refine stays_bind (stays_replacementStep _ _ _ (stays_execute populate)) fun _ => ?_
  refine stays_bind (stays_replacementStep _ _ _ (stays_executed _)) fun _ => ?_
  exact stays_replacementStep _ _ _ (stays_executed _)

theorem stays_runActions (columns : List Value) (result : TransformResult)
    (actions : List Action) : Keeps Session.Stays (runActions columns result actions) := by
  induction actions generalizing result with
  | nil => exact stays_pure _
  | cons a rest ih =>
    cases a with
    | run st => exact stays_bind (stays_execute st) fun _ => ih _
    | replace p => exact stays_bind (stays_replaceTable columns p) fun _ => ih _

theorem stays_applyBatches (strict : Bool) (columns : List Value) (result : TransformResult)
    (batches : List Batch) : Keeps Session.Stays (applyBatches strict columns result batches) := by
  induction batches generalizing result with
  | nil => exact stays_pure _
  | cons b rest ih =>
    refine stays_bind (stays_lift _) fun _ => ?_
    refine stays_bind stays_target fun t => ?_
    refine stays_bind (stays_compile _) fun actions => ?_
    exact stays_bind (stays_runActions columns result actions) ih

theorem stays_columnNames (table : Value) : Keeps Session.Stays (columnNames table) :=
  stays_bind stays_target fun _ => stays_bind (stays_lift _) fun _ =>
    stays_bind (stays_query _) fun _ => stays_pure _

theorem stays_applyTransformations (strict : Bool) (table : Value) (batches : List Batch) :
    Keeps Session.Stays (applyTransformations strict table batches) := by
  unfold applyTransformations
  dsimp only
  split
  · exact stays_pure _
  · refine stays_bind (stays_forM _ fun b => stays_lift _) fun _ => ?_
    exact stays_bind (stays_columnNames table) fun _ => stays_applyBatches _ _ _ _

theorem stays_resumeOrigin (table : Table) : Keeps Session.Stays (resumeOrigin table) := by
  unfold resumeOrigin
  cases table.firstSequence? with
  | none => exact stays_pure _
  | some f =>
    refine stays_bind stays_target fun t => stays_bind (stays_lift _) fun q => ?_
    refine stays_bind (stays_fetchScalar q) fun v => ?_
    split
    · exact stays_pure _
    · exact stays_bind (stays_lift _) fun _ => stays_bind (stays_lift _) fun _ => stays_pure _

theorem stays_optimize (table : Value) : Keeps Session.Stays (optimize table) :=
  stays_bind stays_target fun _ => stays_bind (stays_lift _) fun sts =>
    stays_forM sts stays_execute

theorem stays_writeChunks (table : Table) (origin : Int) (result : GenerateResult)
    (sizes : List Int) : Keeps Session.Stays (writeChunks table origin result sizes) := by
  induction sizes generalizing origin result with
  | nil => exact stays_pure _
  | cons size rest ih =>
    refine stays_bind stays_target fun t => stays_bind (fun _ s => .refl s) fun c => ?_
    exact stays_bind (stays_lift _) fun st => stays_bind (stays_execute st) fun _ => ih _ _

theorem stays_sendAll (l : List (Except Error Statement)) : Keeps Session.Stays (sendAll l) := by
  induction l with
  | nil => exact stays_pure ()
  | cons st rest ih =>
    exact stays_bind (stays_lift st) fun _ => stays_bind (stays_execute _) fun _ => ih

theorem stays_fillTable (settings : GenerationSettings) (table : Table) (rows : Int)
    (optimizeAfter : Bool) : Keeps Session.Stays (fillTable settings table rows optimizeAfter) := by
  unfold fillTable startingOrigin
  refine stays_bind ?_ fun origin => stays_bind (stays_lift _) fun chunks => ?_
  · split
    · exact stays_resumeOrigin table
    · exact stays_pure 0
  refine stays_bind (stays_lift _) fun _ => stays_bind (stays_writeChunks _ _ _ _) fun result => ?_
  dsimp only
  split
  · exact stays_bind (stays_optimize _) fun _ => stays_pure _
  · exact stays_pure _

theorem stays_generateRows (settings : GenerationSettings) (table : Table) (rows : Int)
    (dropFirst optimizeAfter : Bool) :
    Keeps Session.Stays (generateRows settings table rows dropFirst optimizeAfter) := by
  rw [generateRows_eq]
  exact stays_bind stays_target fun _ => stays_bind (stays_sendAll _) fun _ =>
    stays_fillTable _ _ _ _

theorem stays_runStep (settings : GenerationSettings) (p : Progress) (step : Step) :
    Keeps Session.Stays (runStep settings p step) := by
  unfold runStep applyStepBatches
  dsimp only
  refine stays_bind (stays_lift _) fun _ => ?_
  cases step with
  | generate g =>
    refine stays_bind (stays_lift _) fun _ => ?_
    split
    · exact fun _ s => .refl s
    · refine stays_bind (stays_generateRows _ _ _ _ _) fun _ => ?_
      split
      · exact stays_pure _
      · exact stays_bind (stays_bind (stays_applyTransformations _ _ _) fun _ => stays_pure _)
          fun _ => stays_pure _
  | transform g =>
    exact stays_bind (stays_applyTransformations _ _ _) fun _ => stays_pure _

theorem stays_runScenario (settings : GenerationSettings) (sc : Scenario) :
    Keeps Session.Stays (runScenario settings sc) := by
  have reported (p : Progress) (r : ScenarioResult) :
      Keeps Session.Stays (do writable [.int p.result.totalRows]; return r : Run _) :=
    stays_bind (stays_lift _) fun _ => stays_pure _
  unfold runScenario
  refine stays_bind (stays_lift _) fun _ => ?_
  refine stays_bind (stays_foldlM _ _ (stays_runStep settings)) fun p => ?_
  dsimp only
  split
  · exact stays_bind (stays_forM _ stays_optimize) fun _ => reported p _
  · exact reported p _

theorem stays_pageNumber (q : Query) : Keeps Session.Stays (pageNumber q) :=
  stays_bind (stays_fetch q) fun _ => stays_pure _

theorem stays_fileSize : Keeps Session.Stays fileSize :=
  stays_bind (stays_pageNumber _) fun _ => stays_bind (stays_pageNumber _) fun _ =>
    stays_bind (stays_lift _) fun _ => stays_bind (stays_lift _) fun _ => stays_pure _

theorem stays_tableSize (table : Value) : Keeps Session.Stays (tableSize table) := by
  unfold tableSize
  refine stays_bind stays_target fun t => stays_bind (fun _ s => .refl s) fun c => ?_
  split
  · exact stays_bind (stays_lift _) fun _ => stays_bind (stays_query _) fun _ => stays_lift _
  · exact stays_bind (stays_query _) fun _ => stays_lift _
  · refine stays_bind (stays_tryQuery _) fun found => ?_
    split
    · exact stays_lift _
    · exact stays_fileSize
  · exact stays_bind (stays_lift _) fun _ => stays_bind (stays_fetchScalar _) fun _ => stays_lift _

theorem stays_sweepOrphans (table : String) : Keeps Session.Stays (sweepOrphans table) := by
  unfold sweepOrphans
  refine stays_bind stays_target fun t => stays_bind (stays_lift _) fun q => ?_
  refine stays_bind (stays_query _) fun r => ?_
  refine stays_bind (stays_mapM _ fun v => ?_) fun names => ?_
  · split
    · exact stays_pure _
    · exact stays_throw _
  · exact stays_bind (stays_forM _ fun name => stays_built _) fun _ => stays_pure _

end Stays

end Run

/-- What a session is asked for besides being opened and closed. -/
inductive Operation where
  | execute (st : Statement)
  | fetch (q : Query)
  | query (q : CatalogQuery)
  | createTable (table : Table)
  | dropTable (table : Value)
  | clearTable (table : Value)
  | generate (settings : GenerationSettings) (overrides : Settings.Fields) (table : Table)
    (rows : Int)
  | transform (settings : GenerationSettings) (overrides : Settings.Fields) (table : Value)
    (batches : List Batch)
  | scenario (settings : GenerationSettings) (overrides : Settings.Fields) (s : Option Scenario)
  | optimize (table : Value)
  | selectRows (table limit order : Value)
  | maxValue (table column : Value)
  | countRows (table : Value)
  | columnNames (table : Value)
  | tableSize (table : Value)
  | tableSizeText (table : Value)
  | sweepOrphans (table : String)

namespace Operation
open Run

/-- The run of an operation; what it gives is not looked at. -/
def run : Operation → Run Unit
  | execute st => Run.execute st
  | fetch q => do let _ ← Run.fetch q
  | query q => do let _ ← Run.query q
  | createTable table => Run.createTable table
  | dropTable table => Run.dropTable table
  | clearTable table => Run.clearTable table
  | generate settings overrides table rows => do
    let _ ← Run.generate settings overrides table rows
  | transform settings overrides table batches => do
    let _ ← Run.transform settings overrides table batches
  | scenario settings overrides s => do let _ ← Run.scenario settings overrides s
  | optimize table => Run.optimize table
  | selectRows table limit order => do let _ ← Run.selectRows table limit order
  | maxValue table column => do let _ ← Run.maxValue table column
  | countRows table => do let _ ← Run.countRows table
  | columnNames table => do let _ ← Run.columnNames table
  | tableSize table => do let _ ← Run.tableSize table
  | tableSizeText table => do let _ ← Run.tableSizeText table
  | sweepOrphans table => do let _ ← Run.sweepOrphans table

/-- No operation opens or closes the connection, whatever it ends with. -/
theorem stays (o : Operation) : Keeps Session.Stays o.run := by
  have unread {α : Type} {x : Run α} (h : Keeps Session.Stays x) :
      Keeps Session.Stays (do let _ ← x) := stays_bind h fun _ => stays_pure _
  cases o with
  | execute st => exact stays_execute st
  | fetch q => exact unread (stays_fetch q)
  | query q => exact unread (stays_query q)
  | createTable table => exact stays_built fun t => t.createTable table
  | dropTable table => exact stays_built fun t => t.dropTable table
  | clearTable table => exact stays_built fun t => t.clearTable table
  | generate settings overrides table rows =>
    exact unread (stays_bind (stays_lift _) fun _ => stays_generateRows _ _ _ _ _)
  | transform settings overrides table batches =>
    exact unread (stays_bind (stays_lift _) fun _ => stays_applyTransformations _ _ _)
  | scenario settings overrides s =>
    exact unread (stays_bind (stays_lift _) fun _ => stays_bind (stays_lift _) fun _ =>
      stays_runScenario _ _)
  | optimize table => exact stays_optimize table
  | selectRows table limit order =>
    exact unread (stays_bind stays_target fun _ => stays_bind (stays_lift _) fun _ =>
      stays_bind (stays_fetch _) fun _ => stays_pure _)
  | maxValue table column =>
    exact unread (stays_bind stays_target fun _ => stays_bind (stays_lift _) fun _ =>
      stays_fetchScalar _)
  | countRows table =>
    exact unread (stays_bind stays_target fun _ => stays_bind (stays_lift _) fun _ =>
      stays_bind (stays_fetchScalar _) fun _ => stays_lift _)
  | columnNames table => exact unread (stays_columnNames table)
  | tableSize table => exact unread (stays_tableSize table)
  | tableSizeText table =>
    exact unread (stays_bind (stays_tableSize table) fun _ => stays_lift _)
  | sweepOrphans table => exact unread (stays_sweepOrphans table)

end Operation

/-- What a session is called for. -/
inductive Call where
  | connect
  | close
  | operate (o : Operation)

namespace Call

def run : Call → Run Unit
  | connect => Run.connect
  | close => Run.close
  | operate o => o.run

/-- Whether the connection is open after the call, which may have been refused. -/
def leavesOpen (before : Bool) : Call → Bool
  | connect => true
  | close => false
  | operate _ => before

end Call

/-- Calls made one after the other, each with the database as it is by then. A call that ends with
an error is followed by the next one all the same. -/
abbrev Calls := List (Database × Call)

/-- Whether the connection is open after the calls. -/
def Calls.leaveOpen (before : Bool) (calls : Calls) : Bool :=
  calls.foldl (fun before call => call.2.leavesOpen before) before

namespace Session

/-- The session with another database behind it. -/
def facing (s : Session) (d : Database) : Session := { s with database := d }

def next (c : Connection) (s : Session) (call : Database × Call) : Session :=
  (Run.outcome call.2.run c (s.facing call.1)).2

def following (c : Connection) (s : Session) (calls : Calls) : Session := calls.foldl (next c) s

end Session

namespace Run

variable {α : Type} {c : Connection} {s s' : Session}

/-- An attempt to connect makes a connection before it tests it, and takes it back in no case. -/
theorem opened_of_connect {r : Except Error Unit} (h : outcome connect c s = (r, s')) :
    s'.isOpen = true ∧ ∃ sent, s'.events = s.events ++ .opened c.config :: sent ∧
      ∀ e ∈ sent, e.isText = true := by
  have tested : ∀ e ∈ [Event.queried connectionTest], e.isText = true :=
    fun e he => List.mem_singleton.1 he ▸ rfl
  simp only [connect, outcome_bind, outcome_read, outcome_record, outcome_modify,
    outcome_submit] at h
  cases hw : (s.database.accept connectionTest.text).1 with
  | some reason =>
    simp only [hw, outcome_bind, outcome_log, outcome_throw, Prod.mk.injEq] at h
    obtain ⟨_, rfl⟩ := h
    exact ⟨rfl, _, by simp, tested⟩
  | none =>
    simp only [hw] at h
    rw [outcome_bind, outcome_target] at h
    dsimp only at h
    split at h
    · have kept := (stays_executed c.target.createSchema).outcome h
      obtain ⟨sent, hs, text⟩ := kept.texts
      refine ⟨kept.isOpen, .queried connectionTest :: sent, by rw [hs]; simp, fun e he => ?_⟩
      exact (List.mem_cons.1 he).elim (fun he => he ▸ rfl) (text e)
    · cases h
      exact ⟨rfl, _, by simp, tested⟩

theorem isOpen_of_close {r : Except Error Unit} (h : outcome close c s = (r, s')) :
    s'.isOpen = false := by
  simp only [close, outcome_bind, outcome_get] at h
  split at h
  · cases h; rfl
  · next hs =>
    cases h
    simpa using hs

/-- One call: only whether it connects or closes matters, not what it ends with. -/
theorem isOpen_next (call : Database × Call) :
    (s.next c call).isOpen = call.2.leavesOpen s.isOpen := by
  obtain ⟨d, call⟩ := call
  cases call with
  | connect => exact (opened_of_connect rfl).1
  | close => exact isOpen_of_close rfl
  | operate o => exact (o.stays c _).isOpen

/-- All calls: the last one that connects or closes decides. -/
theorem isOpen_following (calls : Calls) :
    (s.following c calls).isOpen = calls.leaveOpen s.isOpen := by
  induction calls generalizing s with
  | nil => rfl
  | cons call rest ih =>
    show ((s.next c call).following c rest).isOpen = _
    rw [ih, isOpen_next]
    rfl

/-- The event is sent, and the run does not end for want of a connection. -/
def Arrives (x : Run α) (e : Event) (c : Connection) (s : Session) : Prop :=
  (outcome x c s).2.events = s.events ++ [e] ∧ (outcome x c s).1 ≠ .error .notConnected

theorem arrives_send (hopen : s.isOpen = true) (e : Event) (text title : String) :
    Arrives (send e text title) e c s := by
  unfold Arrives
  rw [outcome_send, if_pos hopen]
  split <;> exact ⟨rfl, nofun⟩

theorem arrives_answered {x : Run Unit} {e : Event} (h : Arrives x e c s) :
    Arrives (do x; nextResult) e c s := by
  obtain ⟨sent, ended⟩ := h
  unfold Arrives
  rw [outcome_bind]
  rcases hx : outcome x c s with ⟨r | _, s₁⟩
  · rw [hx] at sent ended
    exact ⟨sent, fun h => ended (by cases h; rfl)⟩
  · rw [hx] at sent
    exact ⟨sent, nofun⟩

theorem arrives_execute (hopen : s.isOpen = true) (st : Statement) :
    Arrives (execute st) (.executed st) c s := by
  unfold Arrives
  rw [outcome_execute]
  exact arrives_send hopen _ _ _

theorem arrives_fetch (hopen : s.isOpen = true) (q : Query) :
    Arrives (fetch q) (.fetched q) c s := by
  unfold Arrives
  rw [outcome_fetch]
  exact arrives_answered (arrives_send hopen _ _ _)

theorem arrives_query (hopen : s.isOpen = true) (q : CatalogQuery) :
    Arrives (query q) (.queried q) c s :=
  arrives_answered (arrives_send hopen _ _ _)

theorem fetch_of_closed (hclosed : s.isOpen = false) (q : Query) :
    outcome (fetch q) c s = (.error .notConnected, s) := by
  rw [outcome_fetch, outcome_bind, outcome_send, hclosed]
  rfl

/-- After calls that leave the connection closed no operation sends anything, and statements and
queries are told that there is no connection. -/
theorem silent_of_closed {calls : Calls} (hclosed : calls.leaveOpen s.isOpen = false)
    (d : Database) :
    (∀ o, ((s.following c calls).next c (d, .operate o)).events = (s.following c calls).events) ∧
      (∀ st, (outcome (execute st) c ((s.following c calls).facing d)).1 = .error .notConnected) ∧
      ∀ q, (outcome (fetch q) c ((s.following c calls).facing d)).1 = .error .notConnected := by
  have still : ((s.following c calls).facing d).isOpen = false :=
    (isOpen_following calls).trans hclosed
  refine ⟨fun o => (o.stays c _).closed still, fun st => ?_, fun q => ?_⟩
  · exact (execute_of_closed still rfl).1
  · rw [fetch_of_closed still]

end Run

namespace CommandLine.Shell
open Run

variable {α β : Type} {w : Surroundings} {t : Terminal}

/-- What a part of a task ends with, and the terminal that it leaves. -/
def outcome (x : Shell α) (w : Surroundings) (t : Terminal) : Except Failure α × Terminal :=
  (x.run w).run.run t

theorem outcome_bind (x : Shell α) (f : α → Shell β) (w : Surroundings) (t : Terminal) :
    outcome (x >>= f) w t =
      match outcome x w t with
      | (.ok a, t') => outcome (f a) w t'
      | (.error e, t') => (.error e, t') := by
  show ExceptT.bind (x w) (fun a => f a w) t = _
  simp only [outcome, ReaderT.run, ExceptT.run, StateT.run, ExceptT.bind, ExceptT.mk, bind,
    StateT.bind]
  rcases x w t with ⟨_ | _, _⟩ <;> rfl

theorem outcome_runOn (c : Connection) (r : Run α) :
    outcome (runOn c r) w t =
      ((Run.outcome r c t.session).1.mapError .failed,
        { t with session := (Run.outcome r c t.session).2 }) := by
  have got : outcome get w t = (.ok t, t) := rfl
  have written (s : Session) : outcome (modify ({ · with session := s })) w t =
      (.ok (), { t with session := s }) := rfl
  rw [runOn, outcome_bind, got]
  rcases h : Run.outcome r c t.session with ⟨e | a, s⟩ <;>
  · have ran : (r.run c).run.run t.session = _ := h
    simp only [ran, outcome_bind, written]
    rfl

theorem outcome_tryCatch (x : Shell α) (f : Failure → Shell α) :
    outcome (tryCatch x f) w t =
      match outcome x w t with
      | (.ok a, t') => (.ok a, t')
      | (.error e, t') => outcome (f e) w t' := by
  show ExceptT.tryCatch (x w) (fun e => f e w) t = _
  simp only [outcome, ReaderT.run, ExceptT.run, StateT.run, ExceptT.tryCatch, ExceptT.mk, bind,
    StateT.bind]
  rcases x w t with ⟨_ | _, _⟩ <;> rfl

/-- A part of a task that cannot connect fails with that error and does nothing else. -/
theorem connected_of_error {config : DatabaseConfig} {body : Connection → Shell α} {e : Error}
    {s : Session} (h : Run.outcome connect ⟨config, w.now⟩ t.session = (.error e, s)) :
    outcome (connected config body) w t = (.error (.failed e), { t with session := s }) := by
  show outcome (runOn ⟨config, w.now⟩ connect >>= fun _ => _) w t = _
  rw [outcome_bind, outcome_runOn, h]
  rfl

/-- What was done over a connection ends, and then the connection is closed. -/
theorem isOpen_of_closing {c : Connection} (f : Unit → Shell α)
    (h : ∀ t, (outcome (f ()) w t).2 = t) :
    (outcome (runOn c close >>= f) w t).2.session.isOpen = false := by
  have closed : (Run.outcome close c t.session).2.isOpen = false := isOpen_of_close rfl
  rw [outcome_bind, outcome_runOn]
  cases (Run.outcome close c t.session).1 with
  | error e => exact closed
  | ok u =>
    show (outcome (f ()) w _).2.session.isOpen = false
    rw [h]
    exact closed

/-- A part of a task leaves its connection open if it could not open it, and in no other case. -/
theorem isOpen_connected_iff {config : DatabaseConfig} {body : Connection → Shell α} :
    (outcome (connected config body) w t).2.session.isOpen = true ↔
      ∃ e s, Run.outcome connect ⟨config, w.now⟩ t.session = (.error e, s) := by
  rcases h : Run.outcome connect ⟨config, w.now⟩ t.session with ⟨e | _, s⟩
  · rw [connected_of_error h]
    exact iff_of_true (opened_of_connect h).1 ⟨e, s, rfl⟩
  · refine iff_of_false ?_ (by rintro ⟨e, s', he⟩; cases he)
    rw [Bool.not_eq_true]
    let c : Connection := ⟨config, w.now⟩
    show (outcome (runOn c connect >>= fun _ =>
      tryCatch (body c) (fun f => runOn c close >>= fun _ => throw f) >>= fun a =>
        runOn c close >>= fun _ => pure a) w t).2.session.isOpen = false
    rw [outcome_bind, outcome_runOn, h]
    show (outcome (_ >>= _) w _).2.session.isOpen = false
    rw [outcome_bind, outcome_tryCatch]
    rcases outcome (body c) w { t with session := s } with ⟨f | a, t'⟩
    · let leaving : Shell α := runOn c close >>= fun _ => throw f
      have closed : (outcome leaving w t').2.session.isOpen = false :=
        isOpen_of_closing _ fun _ => rfl
      dsimp only
      rcases ho : outcome leaving w t' with ⟨g | a, t''⟩
      · rwa [ho] at closed
      · exact isOpen_of_closing (fun _ => pure a) fun _ => rfl
    · exact isOpen_of_closing (fun _ => pure a) fun _ => rfl

end CommandLine.Shell

namespace Run
open CommandLine

/-- After whatever calls, an attempt to connect that fails leaves the connection that it made: it is
not disposed of, a part of a task ends with the error and leaves it too, and until a call closes it
every statement and every query is sent over it. -/
theorem usable_of_connect_error {c : Connection} {calls : Calls} {d : Database} {e : Error}
    {s : Session}
    (h : outcome connect c ((Session.following c {} calls).facing d) = (.error e, s)) :
    s.isOpen = true ∧
      (∃ sent, s.events = (Session.following c {} calls).events ++ .opened c.config :: sent ∧
        .disposed ∉ sent) ∧
      (∀ (α : Type) (body : Connection → Shell α) (w : Surroundings) (t : Terminal),
        w.now = c.now → t.session = (Session.following c {} calls).facing d →
        Shell.outcome (Shell.connected c.config body) w t =
          (.error (.failed e), { t with session := s })) ∧
      ∀ later : Calls, later.leaveOpen true = true → ∀ d' : Database,
        (∀ st, Arrives (execute st) (.executed st) c ((s.following c later).facing d')) ∧
        (∀ q, Arrives (fetch q) (.fetched q) c ((s.following c later).facing d')) ∧
        ∀ q, Arrives (query q) (.queried q) c ((s.following c later).facing d') := by
  obtain ⟨hopen, sent, hsent, text⟩ := opened_of_connect h
  refine ⟨hopen, ⟨sent, hsent, fun hd => ?_⟩, fun α body w t hnow ht => ?_, fun later hl d' => ?_⟩
  · cases text _ hd
  · obtain ⟨config, now⟩ := c
    obtain rfl : w.now = now := hnow
    exact Shell.connected_of_error (by rw [ht]; exact h)
  · have still : ((s.following c later).facing d').isOpen = true := by
      show (s.following c later).isOpen = true
      rw [isOpen_following, hopen, hl]
    exact ⟨arrives_execute still, arrives_fetch still, arrives_query still⟩

/-- A database that refuses the statements that begin in some way. -/
def refusing (beginning : String) : Database :=
  { refusals := [{ beginning, reason := "refused" }] }

/-- SQLite refuses the test, and is asked for the number of its pages afterwards. -/
theorem usable_untested :
    ∃ s, outcome connect ⟨{ driver := .sqlite }, 0⟩ (({} : Session).facing (refusing "SELECT 1")) =
        (.error (.connectionFailed "refused"), s) ∧
      s.isOpen = true ∧
      Arrives (fetch .pageCount) (.fetched .pageCount) ⟨{ driver := .sqlite }, 0⟩ s := by
  have failed : outcome connect ⟨{ driver := .sqlite }, 0⟩
      ((Session.following ⟨{ driver := .sqlite }, 0⟩ {} []).facing (refusing "SELECT 1")) =
        (.error (.connectionFailed "refused"), _) := rfl
  obtain ⟨hopen, _, _, sent⟩ := usable_of_connect_error failed
  exact ⟨_, failed, hopen, (sent [] rfl _).2.1 .pageCount⟩

/-- Trino refuses the schema: the connection is not taken back. -/
theorem not_closed_of_connect_error :
    ¬ ∀ (c : Connection) (calls : Calls) (d : Database) (e : Error) (s : Session),
      outcome connect c ((Session.following c {} calls).facing d) = (.error e, s) →
        s.isOpen = false ∧ .disposed ∈ s.events ∧
          ∀ (d' : Database) (st : Statement),
            (outcome (execute st) c (s.facing d')).1 = .error .notConnected := by
  intro closed
  have failed : outcome connect ⟨{ driver := .trino }, 0⟩
      ((Session.following ⟨{ driver := .trino }, 0⟩ {} []).facing (refusing "CREATE SCHEMA")) =
        (.error (.statementFailed "refused"), _) := rfl
  have h := (closed _ _ _ _ _ failed).1
  rw [(opened_of_connect failed).1] at h
  cases h

end Run

end SyntheticRows
