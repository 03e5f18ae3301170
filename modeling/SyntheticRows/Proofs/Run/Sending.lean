import SyntheticRows.Proofs.Run.Outcome

/-!
# Words of the database

A database says one word to each text that it is given: nothing, or why it refuses it. What it says
to a text can depend on the texts before it. `Sends` tells which statements a run has sent, each
with the word on it.
-/
namespace SyntheticRows
open Sql

namespace Database

/-- The words on texts given one after the other. -/
def words : Database → List String → List (Option String)
  | _, [] => []
  | d, text :: rest => (d.accept text).1 :: words (d.accept text).2 rest

/-- The database after texts that it was given. -/
def past : Database → List String → Database
  | d, [] => d
  | d, text :: rest => past (d.accept text).2 rest

variable (d : Database) (texts more : List String)

theorem words_append : d.words (texts ++ more) = d.words texts ++ (d.past texts).words more := by
  induction texts generalizing d with
  | nil => rfl
  | cons text rest ih => simp [words, past, ih]

theorem past_append : d.past (texts ++ more) = (d.past texts).past more := by
  induction texts generalizing d with
  | nil => rfl
  | cons text rest ih => simp [past, ih]

end Database

namespace Run

/-- Statements that were sent, each with the database's word on it. -/
abbrev History := List (Statement × Option String)

/-- The statements as texts of the connection's engine. -/
def History.texts (c : Connection) (history : History) : List String :=
  history.map fun x => x.1.render c.target.writer

theorem History.texts_append (c : Connection) (first second : History) :
    History.texts c (first ++ second) = History.texts c first ++ History.texts c second :=
  List.map_append

/-- From one session to the other, these statements were sent and got these words. -/
structure Sends (c : Connection) (s s' : Session) (history : History) : Prop where
  events : s'.events = s.events ++ history.map fun x => Event.executed x.1
  words : history.map Prod.snd = s.database.words (history.texts c)
  database : s'.database = s.database.past (history.texts c)
  isOpen : s'.isOpen = s.isOpen

namespace Sends

variable {c : Connection} {s s₁ s₂ s' : Session} {first second history : History}

/-- What is neither sent nor said plays no role. -/
theorem nothing (events : s'.events = s.events) (database : s'.database = s.database)
    (isOpen : s'.isOpen = s.isOpen) : Sends c s s' [] where
  events := by simp [events]
  words := rfl
  database
  isOpen

theorem trans (h : Sends c s s₁ first) (h' : Sends c s₁ s₂ second) :
    Sends c s s₂ (first ++ second) where
  events := by rw [h'.events, h.events, List.map_append, List.append_assoc]
  words := by
    rw [List.map_append, h.words, h'.words, h.database, History.texts_append,
      Database.words_append]
  database := by rw [h'.database, h.database, History.texts_append, Database.past_append]
  isOpen := h'.isOpen.trans h.isOpen

theorem log (h : Sends c s s₁ history) (logs : List LogRecord) :
    Sends c s { s₁ with logs := logs } history :=
  ⟨h.events, h.words, h.database, h.isOpen⟩

theorem statements (h : Sends c s s' history) :
    s'.statements = s.statements ++ history.map Prod.fst := by
  rw [Session.statements, h.events, List.filterMap_append, Session.statements]
  congr 1
  induction history with
  | nil => rfl
  | cons x rest ih => simp [Event.statement?, List.filterMap_map, Function.comp_def]

end Sends

variable {c : Connection} {s s' : Session} {st : Statement} {res : Except Error Unit}

/-- What a statement ends with, by the word on it. -/
def reply : Option String → Except Error Unit
  | none => .ok ()
  | some reason => .error (.statementFailed reason)

/-- A statement gets one word, and ends by it. -/
theorem sends_of_execute (hopen : s.isOpen = true)
    (h : outcome (execute st) c s = (res, s')) :
    ∃ word, Sends c s s' [(st, word)] ∧ res = reply word := by
  rw [outcome_execute, outcome_send, if_pos hopen] at h
  cases hw : (s.database.accept (st.render c.target.writer)).1 with
  | none =>
    rw [hw] at h
    cases h
    exact ⟨none, ⟨rfl, by simp [History.texts, Database.words, hw], rfl, rfl⟩, rfl⟩
  | some reason =>
    rw [hw] at h
    cases h
    exact ⟨some reason, ⟨rfl, by simp [History.texts, Database.words, hw], rfl, rfl⟩, rfl⟩

theorem execute_of_closed (hclosed : s.isOpen = false)
    (h : outcome (execute st) c s = (res, s')) : res = .error .notConnected ∧ s' = s := by
  rw [outcome_execute, outcome_send, hclosed] at h
  cases h
  exact ⟨rfl, rfl⟩

/-- A database that refuses nothing stays as it is. -/
theorem accept_of_willing {d : Database} (h : d.refusals = []) (text : String) :
    d.accept text = (none, d) := by
  rw [Database.accept, h]
  simp only [Refusal.meetAll]
  rw [← h]

theorem execute_of_willing (hopen : s.isOpen = true) (willing : s.database.refusals = [])
    (st : Statement) : outcome (execute st) c s =
      (.ok (), { s with events := s.events ++ [.executed st] }) := by
  rw [outcome_execute, outcome_send, if_pos hopen, accept_of_willing willing]
  simp only [Session.after, accept_of_willing willing]

end Run
end SyntheticRows
