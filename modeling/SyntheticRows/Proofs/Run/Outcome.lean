import SyntheticRows.Run.Session

/-!
# Outcomes of runs

A run of a session is a function of the connection and of the session before it. `outcome` gives
that function, and the equations below open it step by step, down to the one place where a text
reaches the database. What holds of every single step holds of a run put together from them:
`Keeps` says so for relations between the session before and after, `NeverRefuses` for the kind of
error that a run can end with.
-/
namespace SyntheticRows

namespace Error

/-- The errors that say that a specification cannot be compiled. -/
def isConfiguration : Error → Bool
  | configuration _ | unsupportedGenerator _ _ | unsupportedTransformation _ _
  | unknownPlaceholders _ _ _ => true
  | _ => false

end Error

theorem writable_error {values : List Value} {e : Error} (h : writable values = .error e) :
    e.isConfiguration = false := by
  unfold writable at h
  split at h
  · cases h
  · cases h; rfl

/-- The statement that was sent, if it was one. -/
def Event.statement? : Event → Option Sql.Statement
  | .executed st => some st
  | _ => none

namespace Session

/-- The statements that were sent, in order. -/
def statements (s : Session) : List Sql.Statement := s.events.filterMap Event.statement?

/-- The session after an event whose text the database was given. -/
def after (s : Session) (event : Event) (text : String) : Session :=
  { s with events := s.events ++ [event], database := (s.database.accept text).2 }

@[simp] theorem after_events (s : Session) (event : Event) (text : String) :
    (s.after event text).events = s.events ++ [event] := rfl

/-- A statement leaves the answers to come as they are. -/
@[simp] theorem after_results (s : Session) (event : Event) (text : String) :
    (s.after event text).database.results = s.database.results := rfl

/-- The session with the first of the answers to come taken. -/
def answered (s : Session) : Session := { s with database := s.database.answer.2 }

@[simp] theorem answered_events (s : Session) : s.answered.events = s.events := rfl

end Session

namespace Run
open Sql

variable {α β : Type}

/-- What a run ends with, and the session that it leaves. -/
def outcome (x : Run α) (c : Connection) (s : Session) : Except Error α × Session :=
  (x.run c).run.run s

@[simp] theorem outcome_pure (a : α) (c : Connection) (s : Session) :
    outcome (pure a) c s = (.ok a, s) := rfl

theorem outcome_bind (x : Run α) (f : α → Run β) (c : Connection) (s : Session) :
    outcome (x >>= f) c s =
      match outcome x c s with
      | (.ok a, s') => outcome (f a) c s'
      | (.error e, s') => (.error e, s') := by
  show ExceptT.bind (x c) (fun a => f a c) s = _
  simp only [outcome, ReaderT.run, ExceptT.run, StateT.run, ExceptT.bind, ExceptT.mk, bind,
    StateT.bind]
  rcases x c s with ⟨_ | _, _⟩ <;> rfl

@[simp] theorem outcome_throw (e : Error) (c : Connection) (s : Session) :
    outcome (throw e : Run α) c s = (.error e, s) := rfl

@[simp] theorem outcome_lift (x : Except Error α) (c : Connection) (s : Session) :
    outcome (liftM x : Run α) c s = (x, s) := rfl

@[simp] theorem outcome_read (c : Connection) (s : Session) :
    outcome read c s = (.ok c, s) := rfl

@[simp] theorem outcome_target (c : Connection) (s : Session) :
    outcome target c s = (.ok c.target, s) := rfl

@[simp] theorem outcome_get (c : Connection) (s : Session) :
    outcome get c s = (.ok s, s) := rfl

@[simp] theorem outcome_modify (f : Session → Session) (c : Connection) (s : Session) :
    outcome (modify f) c s = (.ok (), f s) := rfl

@[simp] theorem outcome_log (level : LogLevel) (message : String) (c : Connection) (s : Session) :
    outcome (log level message) c s = (.ok (), { s with logs := s.logs ++ [⟨level, message⟩] }) :=
  rfl

@[simp] theorem outcome_record (e : Event) (c : Connection) (s : Session) :
    outcome (record e) c s = (.ok (), { s with events := s.events ++ [e] }) := rfl

@[simp] theorem outcome_submit (text : String) (c : Connection) (s : Session) :
    outcome (submit text) c s =
      (.ok (s.database.accept text).1, { s with database := (s.database.accept text).2 }) := rfl

@[simp] theorem outcome_nextResult (c : Connection) (s : Session) :
    outcome nextResult c s = (.ok s.database.answer.1, s.answered) := rfl

theorem outcome_needOpen (c : Connection) (s : Session) :
    outcome needOpen c s = (if s.isOpen then .ok () else .error .notConnected, s) := by
  unfold needOpen
  simp only [outcome_bind, outcome_get]
  cases s.isOpen <;> rfl

/-- A text is sent only over an open connection. A refusal is logged and ends the run. -/
theorem outcome_send (event : Event) (text title : String) (c : Connection) (s : Session) :
    outcome (send event text title) c s =
      if s.isOpen then
        match (s.database.accept text).1 with
        | none => (.ok (), s.after event text)
        | some reason =>
          (.error (.statementFailed reason),
            { s.after event text with logs := s.logs ++ [⟨.error, title ++ ": " ++ reason⟩] })
      else (.error .notConnected, s) := by
  unfold send
  simp only [outcome_bind, outcome_needOpen, outcome_record, outcome_submit]
  by_cases hs : s.isOpen = true
  · simp only [hs, if_true]
    cases hr : (s.database.accept text).1 with
    | none => simp [Session.after, hs]
    | some reason => simp [outcome_bind, Session.after, hs]
  · simp [hs]

theorem outcome_execute (st : Statement) (c : Connection) (s : Session) :
    outcome (execute st) c s =
      outcome (send (.executed st) (st.render c.target.writer) "Statement execution failed")
        c s := by
  simp only [execute, outcome_bind, outcome_target]

theorem outcome_fetch (q : Query) (c : Connection) (s : Session) :
    outcome (fetch q) c s =
      outcome (do
        send (.fetched q) (q.render c.target.writer) "Query execution failed"
        nextResult) c s := by
  simp only [fetch, outcome_bind, outcome_target]

/-- A run of two parts ends as the first, if that fails, and otherwise as the second. -/
theorem cases_of_bind {x : Run α} {f : α → Run β} {c : Connection} {s s' : Session}
    {r : Except Error β} (h : outcome (x >>= f) c s = (r, s')) :
    (∃ e, r = .error e ∧ outcome x c s = (.error e, s')) ∨
      ∃ a s₁, outcome x c s = (.ok a, s₁) ∧ outcome (f a) c s₁ = (r, s') := by
  rw [outcome_bind] at h
  rcases hx : outcome x c s with ⟨e | a, s₁⟩
  · rw [hx] at h
    cases h
    exact .inl ⟨e, rfl, rfl⟩
  · rw [hx] at h
    exact .inr ⟨a, s₁, rfl, h⟩

theorem error_of_bind {x : Run α} {f : α → Run β} {c : Connection} {s s' : Session} {e : Error}
    (h : outcome (x >>= f) c s = (.error e, s')) :
    outcome x c s = (.error e, s') ∨
      ∃ a s₁, outcome x c s = (.ok a, s₁) ∧ outcome (f a) c s₁ = (.error e, s') := by
  rcases cases_of_bind h with ⟨_, he, h⟩ | h
  · cases he
    exact .inl h
  · exact .inr h

theorem ok_of_bind {x : Run α} {f : α → Run β} {c : Connection} {s s' : Session} {b : β}
    (h : outcome (x >>= f) c s = (.ok b, s')) :
    ∃ a s₁, outcome x c s = (.ok a, s₁) ∧ outcome (f a) c s₁ = (.ok b, s') := by
  rcases cases_of_bind h with ⟨_, he, _⟩ | h
  · cases he
  · exact h

/-- Asking for the target neither fails nor changes the session. -/
theorem of_target_bind {f : Target → Run β} {c : Connection} {s s' : Session} {r : Except Error β}
    (h : outcome (target >>= f) c s = (r, s')) : outcome (f c.target) c s = (r, s') := by
  rwa [outcome_bind, outcome_target] at h

/-- What is compiled within a run leaves the session as it is, also if it fails. -/
theorem cases_of_lift_bind {x : Except Error α} {f : α → Run β} {c : Connection} {s s' : Session}
    {r : Except Error β} (h : outcome (liftM x >>= f) c s = (r, s')) :
    (∃ e, r = .error e ∧ x = .error e ∧ s' = s) ∨
      ∃ a, x = .ok a ∧ outcome (f a) c s = (r, s') := by
  rw [outcome_bind, outcome_lift] at h
  cases x with
  | error e =>
    cases h
    exact .inl ⟨e, rfl, rfl, rfl⟩
  | ok a => exact .inr ⟨a, rfl, h⟩

theorem error_of_lift_bind {x : Except Error α} {f : α → Run β} {c : Connection} {s s' : Session}
    {e : Error} (h : outcome (liftM x >>= f) c s = (.error e, s')) :
    x = .error e ∧ s' = s ∨ ∃ a, x = .ok a ∧ outcome (f a) c s = (.error e, s') := by
  rcases cases_of_lift_bind h with ⟨_, he, h⟩ | h
  · cases he
    exact .inl h
  · exact .inr h

theorem ok_of_lift_bind {x : Except Error α} {f : α → Run β} {c : Connection} {s s' : Session}
    {b : β} (h : outcome (liftM x >>= f) c s = (.ok b, s')) :
    ∃ a, x = .ok a ∧ outcome (f a) c s = (.ok b, s') := by
  rcases cases_of_lift_bind h with ⟨_, he, _⟩ | h
  · cases he
  · exact h

theorem ok_of_isSome {x : Run α} {c : Connection} {s : Session}
    (h : (outcome x c s).1.toOption.isSome = true) : ∃ a s', outcome x c s = (.ok a, s') := by
  rcases hx : outcome x c s with ⟨_ | a, s'⟩
  · rw [hx] at h
    cases h
  · exact ⟨a, s', rfl⟩

/-- The relation holds between the session before and after the run, whatever it ends with. -/
def Keeps (R : Session → Session → Prop) (x : Run α) : Prop :=
  ∀ c s, R s (outcome x c s).2

/-- The run never ends with a configuration error. -/
def NeverRefuses (x : Run α) : Prop :=
  ∀ c s e s', outcome x c s = (.error e, s') → e.isConfiguration = false

section Keeps

variable {R : Session → Session → Prop}

theorem Keeps.pure (hr : ∀ s, R s s) (a : α) : Keeps R (pure a) := fun _ s => hr s

theorem Keeps.lift (hr : ∀ s, R s s) (x : Except Error α) : Keeps R (liftM x : Run α) :=
  fun _ s => hr s

theorem Keeps.bind (ht : ∀ {a b d}, R a b → R b d → R a d) {x : Run α} {f : α → Run β}
    (hx : Keeps R x) (hf : ∀ a, Keeps R (f a)) : Keeps R (x >>= f) := by
  intro c s
  have h := hx c s
  rw [outcome_bind]
  rcases ho : outcome x c s with ⟨_ | a, s₁⟩
  · rwa [ho] at h
  · rw [ho] at h
    exact ht h (hf a c s₁)

theorem Keeps.outcome (h : Keeps R x) {c : Connection} {s s' : Session} {r : Except Error α}
    (ho : outcome x c s = (r, s')) : R s s' := by
  have := h c s
  rwa [ho] at this

end Keeps

section NeverRefuses

theorem NeverRefuses.pure (a : α) : NeverRefuses (pure a : Run α) := by
  intro c s e s' h
  cases h

theorem NeverRefuses.bind {x : Run α} {f : α → Run β} (hx : NeverRefuses x)
    (hf : ∀ a, NeverRefuses (f a)) : NeverRefuses (x >>= f) := by
  intro c s e s' h
  rcases error_of_bind h with h | ⟨a, s₁, _, h⟩
  · exact hx c s e s' h
  · exact hf a c s₁ e s' h

/-- The database can refuse a text, but that is no matter of configuration. -/
theorem neverRefuses_send (event : Event) (text title : String) :
    NeverRefuses (send event text title) := by
  intro c s e s' h
  rw [outcome_send] at h
  split at h
  · split at h <;> cases h
    rfl
  · cases h; rfl

theorem neverRefuses_execute (st : Statement) : NeverRefuses (execute st) := by
  intro c s e s' h
  rw [outcome_execute] at h
  exact neverRefuses_send _ _ _ c s e s' h

theorem neverRefuses_nextResult : NeverRefuses nextResult := by
  intro c s e s' h
  simp at h

theorem neverRefuses_query (q : CatalogQuery) : NeverRefuses (query q) :=
  (neverRefuses_send _ _ _).bind fun _ => neverRefuses_nextResult

end NeverRefuses

/-- A statement that is executed is on record. -/
theorem statements_of_execute {st : Statement} {c : Connection} {s s' : Session}
    (h : outcome (execute st) c s = (.ok (), s')) : s'.statements = s.statements ++ [st] := by
  rw [outcome_execute, outcome_send] at h
  split at h
  · split at h <;> cases h
    simp [Session.statements, Event.statement?]
  · cases h

section Adds

variable {P : Statement → Prop}

/-- The statements sent from one session to the other have the property. -/
def Adds (P : Statement → Prop) (s s' : Session) : Prop :=
  ∃ sent, s'.statements = s.statements ++ sent ∧ ∀ st ∈ sent, P st

theorem Adds.nothing {s s' : Session} (h : s'.statements = s.statements) : Adds P s s' :=
  ⟨[], by rw [h, List.append_nil], nofun⟩

theorem Adds.trans {a b d : Session} (h : Adds P a b) (h' : Adds P b d) : Adds P a d := by
  obtain ⟨first, sent, hfirst⟩ := h
  obtain ⟨second, sent', hsecond⟩ := h'
  refine ⟨first ++ second, by rw [sent', sent, List.append_assoc], fun st hst => ?_⟩
  exact (List.mem_append.1 hst).elim (hfirst st) (hsecond st)

end Adds
end Run
end SyntheticRows
