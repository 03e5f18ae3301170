import SyntheticRows.Proofs.Meaning.ReplacementStage
import SyntheticRows.Proofs.Run.Replacement
import SyntheticRows.Proofs.Run.Sending
import SyntheticRows.Proofs.Run.ShadowName

/-!
# The replacement protocol

A replacement sends its four statements until the database refuses one. Which one it was decides how
the replacement ends, and the tables that its error names are those that were left behind.
-/
namespace SyntheticRows.Run
open Sql

variable {c : Connection} {s s' : Session} {columns : List Value} {p : ReplacementPass}
  {res : Except Error Unit}

/-- What a step ends with, by the word on its statement. -/
def stepReply (table : Value) (step : ReplacementStep) (orphans : List String) :
    Option String → Except Error Unit
  | none => .ok ()
  | some reason => .error (.replacementFailed table step orphans reason)

theorem sends_of_replacementStep {table : Value} {step : ReplacementStep} {orphans : List String}
    {st : Statement} (hopen : s.isOpen = true)
    (h : outcome (replacementStep table step orphans (execute st)) c s = (res, s')) :
    ∃ word, Sends c s s' [(st, word)] ∧ res = stepReply table step orphans word := by
  rw [replacementStep, outcome_tryCatch] at h
  rcases hx : outcome (execute st) c s with ⟨r, s₁⟩
  obtain ⟨word, sent, rfl⟩ := sends_of_execute hopen hx
  rw [hx] at h
  cases word with
  | none =>
    cases h
    exact ⟨none, sent, rfl⟩
  | some reason =>
    cases h
    exact ⟨some reason, sent.log _, rfl⟩

theorem replacementStep_compiled {table : Value} {step : ReplacementStep} {orphans : List String}
    {x : Except Error Statement} {st : Statement} (hx : x = .ok st) :
    replacementStep table step orphans (do execute (← x)) =
      replacementStep table step orphans (execute st) := by
  rw [hx]
  rfl

/-- How a replacement of `table` ends, by the words on the statements that were sent. -/
inductive Ends (table : Value) (shadow old : String) (r : Rebuild) (path : Path) :
    History → Except Error Unit → Prop
  | create (reason : String) :
    Ends table shadow old r path [(.createLike r.shadow r.table, some reason)]
      (.error (.statementFailed reason))
  | populate (reason : String) :
    Ends table shadow old r path
      [(.createLike r.shadow r.table, none), (.rebuild r, some reason)]
      (.error (.replacementFailed table .populate [shadow] reason))
  | rename (reason : String) :
    Ends table shadow old r path
      [(.createLike r.shadow r.table, none), (.rebuild r, none),
        (.exchange r.table r.shadow path, some reason)]
      (.error (.replacementFailed table .rename [shadow] reason))
  | drop (reason : String) :
    Ends table shadow old r path
      [(.createLike r.shadow r.table, none), (.rebuild r, none),
        (.exchange r.table r.shadow path, none), (.drop path, some reason)]
      (.error (.replacementFailed table .drop [old] reason))
  | done :
    Ends table shadow old r path
      [(.createLike r.shadow r.table, none), (.rebuild r, none),
        (.exchange r.table r.shadow path, none), (.drop path, none)]
      (.ok ())

/-- The replacement compiles, and its statements can be sent. -/
def Starts (c : Connection) (s : Session) (columns : List Value) (p : ReplacementPass) : Prop :=
  s.isOpen = true ∧
    ∃ st, (c.target.shadowContent columns c.now (s.replacements + 1) p).result = .ok st

/-- What a replacement rebuilds, under the names made for it. -/
structure Rebuilds (c : Connection) (s : Session) (columns : List Value) (p : ReplacementPass)
    (r : Rebuild) (old : Path) : Prop where
  content : (c.target.shadowContent columns c.now (s.replacements + 1) p).result =
    .ok (.rebuild r)
  table : c.target.tableRef p.tableName = .ok r.table
  shadow : c.target.tableRef (madeName p c s .new) = .ok r.shadow
  old : c.target.tableRef (madeName p c s .old) = .ok old

theorem exists_rebuilds {st : Statement}
    (h : (c.target.shadowContent columns c.now (s.replacements + 1) p).result = .ok st) :
    ∃ r old, Rebuilds c s columns p r old := by
  obtain ⟨_, _, r, rfl, _, table, shadow⟩ := Target.drafted_of_populateShadow (returns_of_result h)
  obtain ⟨old, hold⟩ := Target.tableRef_of_shadowName shadow .old
  exact ⟨r, old, h, table, shadow, hold⟩

/-- The session once a replacement is compiled. -/
def started (c : Connection) (s : Session) (columns : List Value) (p : ReplacementPass) : Session :=
  { s with
    replacements := s.replacements + 1
    logs := s.logs ++ ((c.target.shadowContent columns c.now (s.replacements + 1) p).run.run
      []).2.map (⟨.warning, ·⟩) }

namespace Rebuilds

variable {r : Rebuild} {old : Path} (h : Rebuilds c s columns p r old)
include h

theorem rebuilding : c.target.rebuilding = .ok () :=
  (Target.populateShadow_returns (returns_of_result h.content)).1

theorem writable_table : writable [p.tableName] = .ok () := by
  obtain ⟨i, hi, _⟩ := Target.tableRef_last h.table
  rw [Target.ident_text hi]
  rfl

theorem createShadow : c.target.createShadow p.tableName (madeName p c s .new) =
    .ok (.createLike r.shadow r.table) := by
  simp only [Target.createShadow, h.rebuilding, h.shadow, h.table]
  rfl

theorem exchangeTables :
    c.target.exchangeTables p.tableName (madeName p c s .new) (madeName p c s .old) =
      .ok (.exchange r.table r.shadow old) := by
  simp only [Target.exchangeTables, h.rebuilding, h.shadow, h.table, h.old]
  rfl

theorem dropTable : c.target.dropTable (madeName p c s .old) = .ok (.drop old) := by
  simp only [Target.dropTable, h.old]
  rfl

theorem apart : r.shadow ≠ old := by
  intro same
  have names := Target.tableRef_injective (same ▸ h.shadow) h.old
  exact shadowName_ne _ _ _ (Value.text.inj names)

/-- Once everything is compiled, a replacement is its statements. -/
theorem outcome_replaceTable :
    outcome (replaceTable columns p) c s =
      outcome (do
        execute (.createLike r.shadow r.table)
        replacementStep p.tableName .populate [shadowName p.tableName .new c.now
          (s.replacements + 1)] (execute (.rebuild r))
        replacementStep p.tableName .rename [shadowName p.tableName .new c.now
          (s.replacements + 1)] (execute (.exchange r.table r.shadow old))
        replacementStep p.tableName .drop [shadowName p.tableName .old c.now
          (s.replacements + 1)] (execute (.drop old))) c (started c s columns p) := by
  have content := h.content
  have create := h.createShadow
  have exchange := h.exchangeTables
  have drop := h.dropTable
  simp only [madeName] at create exchange drop
  simp only [Target.shadowContent] at content
  unfold replaceTable
  rw [outcome_bind, outcome_target]
  simp only [outcome_bind, outcome_newShadowNames, h.writable_table, Functor.map, Except.map,
    outcome_compile, content, outcome_lift, create, replacementStep_compiled exchange,
    replacementStep_compiled drop]
  rfl

/-- The statements are sent up to the first one that is refused. -/
theorem ends_of_replaceTable (hopen : s.isOpen = true)
    (hrun : outcome (replaceTable columns p) c s = (res, s')) :
    ∃ history, Sends c s s' history ∧
      Ends p.tableName (shadowName p.tableName .new c.now (s.replacements + 1))
        (shadowName p.tableName .old c.now (s.replacements + 1)) r old history res := by
  rw [h.outcome_replaceTable] at hrun
  set shadow := shadowName p.tableName .new c.now (s.replacements + 1)
  have sent₀ : Sends c s (started c s columns p) [] := .nothing rfl rfl rfl
  rcases cases_of_bind hrun with ⟨e, rfl, hx⟩ | ⟨_, s₁, hx, hrun⟩
  · obtain ⟨word, sent, he⟩ := sends_of_execute (sent₀.isOpen.trans hopen) hx
    cases word <;> cases he
    exact ⟨_, sent₀.trans sent, .create _⟩
  obtain ⟨word, sent₁, he⟩ := sends_of_execute (sent₀.isOpen.trans hopen) hx
  cases word <;> cases he
  replace sent₁ := sent₀.trans sent₁
  rcases cases_of_bind hrun with ⟨e, rfl, hx⟩ | ⟨_, s₂, hx, hrun⟩
  · obtain ⟨word, sent, he⟩ := sends_of_replacementStep (sent₁.isOpen.trans hopen) hx
    cases word <;> cases he
    exact ⟨_, sent₁.trans sent, .populate _⟩
  obtain ⟨word, sent₂, he⟩ := sends_of_replacementStep (sent₁.isOpen.trans hopen) hx
  cases word <;> cases he
  replace sent₂ := sent₁.trans sent₂
  rcases cases_of_bind hrun with ⟨e, rfl, hx⟩ | ⟨_, s₃, hx, hrun⟩
  · obtain ⟨word, sent, he⟩ := sends_of_replacementStep (sent₂.isOpen.trans hopen) hx
    cases word <;> cases he
    exact ⟨_, sent₂.trans sent, .rename _⟩
  obtain ⟨word, sent₃, he⟩ := sends_of_replacementStep (sent₂.isOpen.trans hopen) hx
  cases word <;> cases he
  replace sent₃ := sent₂.trans sent₃
  obtain ⟨word, sent₄, he⟩ := sends_of_replacementStep (sent₃.isOpen.trans hopen) hrun
  cases word with
  | none =>
    cases he
    exact ⟨_, sent₃.trans sent₄, .done⟩
  | some reason =>
    cases he
    exact ⟨_, sent₃.trans sent₄, .drop reason⟩

end Rebuilds

/-- A replacement that does not compile, or cannot send, sends nothing. -/
theorem sends_nothing_of_not_starts (hs : ¬Starts c s columns p)
    (h : outcome (replaceTable columns p) c s = (res, s')) :
    Sends c s s' [] ∧ ∃ e, res = .error e := by
  cases hc : (c.target.shadowContent columns c.now (s.replacements + 1) p).result with
  | ok st =>
    have closed : s.isOpen = false := by
      rw [← Bool.not_eq_true]
      exact fun hopen => hs ⟨hopen, st, hc⟩
    obtain ⟨r, old, hr⟩ := exists_rebuilds hc
    rw [hr.outcome_replaceTable] at h
    have sent : Sends c s (started c s columns p) [] := .nothing rfl rfl rfl
    rcases cases_of_bind h with ⟨e, rfl, hx⟩ | ⟨_, s₁, hx, _⟩
    · obtain ⟨_, rfl⟩ := execute_of_closed (s := started c s columns p) closed hx
      exact ⟨sent, e, rfl⟩
    · cases (execute_of_closed (s := started c s columns p) closed hx).1
  | error e =>
    rcases cases_of_bind (of_target_bind h) with ⟨e', rfl, hn⟩ | ⟨names, s₁, hn, h⟩
    · rw [outcome_newShadowNames, Prod.mk.injEq] at hn
      rw [← hn.2]
      exact ⟨.nothing rfl rfl rfl, e', rfl⟩
    obtain ⟨rfl, _⟩ := statements_of_newShadowNames hn
    rw [outcome_newShadowNames, Prod.mk.injEq] at hn
    rw [outcome_bind, outcome_compile, ← hn.2] at h
    rw [Target.shadowContent] at hc
    rw [hc] at h
    cases h
    exact ⟨.nothing rfl rfl rfl, e, rfl⟩

namespace Ends

variable {R : Rules} {σ σ₁ : Store} {rows : List Row} {table : Value} {shadow old : String}
  {r : Rebuild} {path : Path} {history part : History}

theorem sent_inOrder (h : Ends table shadow old r path history res) :
    history.map Prod.fst <+: r.replacement path := by
  cases h with
  | create => exact ⟨_, rfl⟩
  | populate => exact ⟨_, rfl⟩
  | rename => exact ⟨_, rfl⟩
  | drop => exact List.prefix_rfl
  | done => exact List.prefix_rfl

theorem accepted_inOrder (h : Ends table shadow old r path history res) :
    acceptedOf history <+: r.replacement path := by
  cases h with
  | create => exact List.nil_prefix
  | populate => exact ⟨_, rfl⟩
  | rename => exact ⟨_, rfl⟩
  | drop => exact ⟨_, rfl⟩
  | done => exact List.prefix_rfl

/-- After each of its statements a replacement is at a stage. -/
theorem stage (h : Ends table shadow old r path history res) (fits : r.Fits path σ rows)
    (hp : part <+: history) (hx : Folded (Takes R) σ part σ₁) :
    r.Stage path σ rows (acceptedOf part).length σ₁ :=
  fits.stage_of_executesAll ((acceptedOf_mono hp).trans h.accepted_inOrder)
    (executesAll_acceptedOf.2 hx)

/-- What a rebuild can compute, the statements that were not refused can do. -/
theorem executable (h : Ends table shadow old r path history res) (fits : r.Fits path σ rows)
    {rows' : List Row} (hc : r.Computes R (σ.set r.shadow []) rows rows') :
    ∃ σ₁, Folded (Takes R) σ history σ₁ := by
  obtain ⟨rest, whole⟩ := h.accepted_inOrder
  have all := (Rebuild.executesAll_replacement fits.standing fits.freshShadow fits.freshOld
    fits.apart).2 ⟨rows', rfl, hc⟩
  rw [← whole] at all
  obtain ⟨σ₁, accepted, _⟩ := Folded.append_iff.1 all
  exact ⟨σ₁, executesAll_acceptedOf.1 accepted⟩

end Ends

/-- What a replacement leaves, as its result tells it. -/
def Leaves (t : Target) (table : Value) (path : Path) (rows : List Row) (σ σ' : Store) :
    Except Error Unit → Prop
  | .ok () => ∃ rows', σ' = σ.set path rows'
  | .error (.statementFailed _) => σ' = σ
  | .error (.replacementFailed name step orphans _) => name = table ∧
    σ.added σ' = {left | ∃ orphan ∈ orphans, t.tableRef (.text orphan) = .ok left} ∧
    (step ≠ .drop → σ' path = some rows)
  | .error _ => False

theorem Ends.leaves {R : Rules} {σ σ' : Store} {rows : List Row} {table : Value}
    {shadow old : String} {r : Rebuild} {path : Path} {history : History} {t : Target}
    (h : Ends table shadow old r path history res) (fits : r.Fits path σ rows)
    (hshadow : t.tableRef (.text shadow) = .ok r.shadow)
    (hold : t.tableRef (.text old) = .ok path) (hx : Folded (Takes R) σ history σ') :
    Leaves t table r.table rows σ σ' res := by
  have stage := h.stage fits List.prefix_rfl hx
  have only {name : String} {at' : Path} (hn : t.tableRef (.text name) = .ok at') :
      ({at'} : Set Path) = {left | ∃ orphan ∈ [name], t.tableRef (.text orphan) = .ok left} := by
    ext left
    simp [hn, eq_comm]
  cases h with
  | create reason =>
    cases stage
    rfl
  | populate reason =>
    refine ⟨rfl, ?_, fun _ => fits.rows_of_stage stage (by simp [acceptedOf])⟩
    rw [fits.added_of_shadow stage (.inl rfl), only hshadow]
  | rename reason =>
    refine ⟨rfl, ?_, fun _ => fits.rows_of_stage stage (by simp [acceptedOf])⟩
    rw [fits.added_of_shadow stage (.inr rfl), only hshadow]
  | drop reason =>
    refine ⟨rfl, ?_, fun hd => (hd rfl).elim⟩
    rw [fits.added_of_old stage, only hold]
  | done =>
    cases stage with
    | replaced rows' => exact ⟨rows', rfl⟩

theorem Rebuilds.fits {σ : Store} {rows : List Row} {r : Rebuild} {old : Path}
    (h : Rebuilds c s columns p r old) (hσ : σ r.table = some rows)
    (fresh : ∀ role path, c.target.tableRef (madeName p c s role) = .ok path → σ path = none) :
    r.Fits old σ rows :=
  ⟨hσ, fresh .new _ h.shadow, fresh .old _ h.old, h.apart⟩

/-- A replacement as a protocol with a database that holds the table: what is sent, in which stores
that results, and what the result says about the last of them. -/
structure Follows (R : Rules) (c : Connection) (s s' : Session) (columns : List Value)
    (p : ReplacementPass) (res : Except Error Unit) (table : Path) (σ : Store) (rows : List Row)
    (r : Rebuild) (old : Path) (history : History) : Prop where
  rebuilds : Rebuilds c s columns p r old
  sends : Sends c s s' history
  inOrder : history.map Prod.fst <+: r.replacement old
  ends : Ends p.tableName (shadowName p.tableName .new c.now (s.replacements + 1))
    (shadowName p.tableName .old c.now (s.replacements + 1)) r old history res
  standing : ∀ part σ₁, part <+: history → Folded (Takes R) σ part σ₁ → (σ₁ table).isSome
  leaves : ∀ σ', Folded (Takes R) σ history σ' → Leaves c.target p.tableName table rows σ σ' res
  executable : ∀ rows', r.Computes R (σ.set r.shadow []) rows rows' →
    ∃ σ', Folded (Takes R) σ history σ'

/-- Whatever the database refuses, a replacement follows the protocol, unless it could not be
compiled or sent at all. -/
theorem follows_of_replaceTable {R : Rules} {σ : Store} {rows : List Row} {table : Path}
    (ht : c.target.tableRef p.tableName = .ok table) (hσ : σ table = some rows)
    (fresh : ∀ role path, c.target.tableRef (madeName p c s role) = .ok path → σ path = none)
    (h : outcome (replaceTable columns p) c s = (res, s')) :
    (Starts c s columns p → ∃ r old history,
        Follows R c s s' columns p res table σ rows r old history) ∧
      (¬Starts c s columns p → Sends c s s' [] ∧ ∃ e, res = .error e) := by
  refine ⟨?_, fun hs => sends_nothing_of_not_starts hs h⟩
  rintro ⟨hopen, st, hc⟩
  obtain ⟨r, old, hr⟩ := exists_rebuilds hc
  cases ht.symm.trans hr.table
  obtain ⟨history, sent, ends⟩ := hr.ends_of_replaceTable hopen h
  have fits := hr.fits hσ fresh
  exact ⟨r, old, history, {
    rebuilds := hr
    sends := sent
    inOrder := ends.sent_inOrder
    ends
    standing := fun part σ₁ hp hx => fits.isSome_of_stage (ends.stage fits hp hx)
    leaves := fun σ' hx => ends.leaves fits hr.shadow hr.old hx
    executable := fun rows' hcomputes => ends.executable fits hcomputes }⟩

section RefusedDrop

def swapPass : ReplacementPass where
  tableName := .text "t"
  transformations :=
    [.swap {
      column1 := .text "a", column2 := .text "b"
      probability := ⟨.int 1, Number.inUnit_one⟩ }]
  strict := true

def swapConnection : Connection := { config := { driver := .clickhouse }, now := 1700000000 }

/-- A database that refuses what begins like this. -/
def refusingSession (beginning : String) : Session where
  isOpen := true
  database := { refusals := [{ beginning, reason := "not allowed" }] }

def refusedReplacement (beginning : String) : Except Error Unit × Session :=
  outcome (replaceTable [.text "a", .text "b"] swapPass) swapConnection (refusingSession beginning)

/-- The replacement fails at this step and names these tables. -/
def failsAt (step : ReplacementStep) (orphans : List String) : Except Error Unit → Bool
  | .error (.replacementFailed _ step' names _) => step' = step && names = orphans
  | _ => false

/-- The old table is left, and named. -/
theorem follows_of_refusedDrop : ∃ table r old history,
    swapConnection.target.tableRef (.text "t") = .ok table ∧
      failsAt .drop ["_t_old_1700000000_00000001"] (refusedReplacement "DROP").1 = true ∧
      Follows (.plain .clickhouse) swapConnection (refusingSession "DROP")
        (refusedReplacement "DROP").2 [.text "a", .text "b"] swapPass
        (refusedReplacement "DROP").1 table (Store.set (fun _ => none) table []) [] r old
        history := by
  obtain ⟨table, ht⟩ := except_ok_of_isSome
    (x := swapConnection.target.tableRef (.text "t")) (by decide +kernel)
  have content := except_ok_of_isSome
    (x := (swapConnection.target.shadowContent [.text "a", .text "b"] swapConnection.now
      ((refusingSession "DROP").replacements + 1) swapPass).result) (by decide +kernel)
  have fresh : ∀ role path, swapConnection.target.tableRef
      (madeName swapPass swapConnection (refusingSession "DROP") role) = .ok path →
        Store.set (fun _ => none) table [] path = none := by
    intro role path hp
    refine Store.set_other ?_
    rintro rfl
    have same := Value.text.inj (Target.tableRef_injective ht hp)
    cases role <;> revert same <;> decide +kernel
  have failed : failsAt .drop ["_t_old_1700000000_00000001"]
      (refusedReplacement "DROP").1 = true := by
    decide +kernel
  rcases hk : refusedReplacement "DROP" with ⟨res, s'⟩
  rw [hk] at failed
  obtain ⟨r, old, history, follows⟩ :=
    (follows_of_replaceTable (R := .plain .clickhouse) ht Store.set_same fresh hk).1
      ⟨rfl, content⟩
  exact ⟨table, r, old, history, ht, failed, follows⟩

end RefusedDrop

end SyntheticRows.Run
