import SyntheticRows.Proofs.Meaning.Replacement
import SyntheticRows.Proofs.Run.TransformationOrder

/-!
# What a run of actions sends

A replacement that ends well has sent its four statements, for a rebuild that was compiled for its
transformations, under two names made for it.
-/
namespace SyntheticRows
open Sql

theorem shadowName_ne (table : Value) (now : Int) (tag : ℕ) :
    shadowName table .new now tag ≠ shadowName table .old now tag := by
  intro h
  simp only [shadowName, ShadowRole.name, String.append_assoc] at h
  have tails := (String.append_right_inj _).1 ((String.append_right_inj _).1
    ((String.append_right_inj _).1 h))
  have chars := congrArg String.toList tails
  simp at chars

namespace Target

variable {t : Target} {shadow : Value} {scope : Scope} {trs : List Transformation} {st : Statement}

theorem drafted_of_populateShadow (h : Returns (t.populateShadow shadow scope trs) st) :
    ∃ start draft r, st = .rebuild r ∧ r.Drafted t scope trs start draft ∧
      t.tableRef scope.table = .ok r.table ∧ t.tableRef shadow = .ok r.shadow := by
  obtain ⟨_, start, draft, values, path, columns, table, hs, hd, hv, hp, hc, ht, rfl⟩ :=
    populateShadow_returns h
  have rebuilt : t.RebuildsAll scope { expressions := start } trs.zipIdx draft :=
    hd.imp fun _ _ _ => rebuildStep_returns
  exact ⟨start, draft, _, rfl, ⟨hs, rebuilt, hv, hc, rfl, rfl⟩, ht, hp⟩

theorem createShadow_ok {table : Value} (h : t.createShadow table shadow = .ok st) :
    ∃ path path', t.tableRef table = .ok path ∧ t.tableRef shadow = .ok path' ∧
      st = .createLike path' path := by
  obtain ⟨_, _, h⟩ := except_ok_of_bind h
  obtain ⟨path', hs, h⟩ := except_ok_of_bind h
  obtain ⟨path, ht, h⟩ := except_ok_of_bind h
  cases h
  exact ⟨path, path', ht, hs, rfl⟩

theorem createShadow_eq {table : Value} {path path' : Path} (ht : t.tableRef table = .ok path)
    (hs : t.tableRef shadow = .ok path') (h : t.createShadow table shadow = .ok st) :
    st = .createLike path' path := by
  obtain ⟨_, _, ht', hs', rfl⟩ := createShadow_ok h
  cases hs.symm.trans hs'
  cases ht.symm.trans ht'
  rfl

theorem exchangeTables_ok {table old : Value} (h : t.exchangeTables table shadow old = .ok st) :
    ∃ path path' path'', t.tableRef table = .ok path ∧ t.tableRef shadow = .ok path' ∧
      t.tableRef old = .ok path'' ∧ st = .exchange path path' path'' := by
  obtain ⟨_, _, h⟩ := except_ok_of_bind h
  obtain ⟨path, ht, h⟩ := except_ok_of_bind h
  obtain ⟨path'', ho, h⟩ := except_ok_of_bind h
  obtain ⟨path', hs, h⟩ := except_ok_of_bind h
  cases h
  exact ⟨path, path', path'', ht, hs, ho, rfl⟩

theorem exchangeTables_eq {table old : Value} {path path' : Path}
    (ht : t.tableRef table = .ok path) (hs : t.tableRef shadow = .ok path')
    (h : t.exchangeTables table shadow old = .ok st) :
    ∃ path'', t.tableRef old = .ok path'' ∧ st = .exchange path path' path'' := by
  obtain ⟨_, _, path'', ht', hs', ho, rfl⟩ := exchangeTables_ok h
  cases hs.symm.trans hs'
  cases ht.symm.trans ht'
  exact ⟨path'', ho, rfl⟩

theorem dropTable_ok {table : Value} (h : t.dropTable table = .ok st) :
    ∃ path, t.tableRef table = .ok path ∧ st = .drop path := by
  obtain ⟨path, ht, h⟩ := except_ok_of_bind h
  cases h
  exact ⟨path, ht, rfl⟩

theorem dropTable_eq {table : Value} {path : Path} (ht : t.tableRef table = .ok path)
    (h : t.dropTable table = .ok st) : st = .drop path := by
  obtain ⟨_, ht', rfl⟩ := dropTable_ok h
  cases ht.symm.trans ht'
  rfl

end Target

namespace Run

variable {c : Connection} {s s' : Session} {columns : List Value} {p : ReplacementPass}

theorem ok_of_replacementStep {table : Value} {step : ReplacementStep} {orphans : List String}
    {action : Run Unit}
    (h : outcome (replacementStep table step orphans action) c s = (.ok (), s')) :
    outcome action c s = (.ok (), s') := by
  rw [replacementStep, outcome_tryCatch] at h
  rcases hr : outcome action c s with ⟨e | _, s₁⟩
  · rw [hr] at h
    cases e <;> cases h
  · rwa [hr] at h

theorem statements_of_compiled {st : Except Error Statement}
    (h : outcome (do execute (← st)) c s = (.ok (), s')) :
    ∃ st', st = .ok st' ∧ s'.statements = s.statements ++ [st'] := by
  obtain ⟨st', hst, h⟩ := ok_of_lift_bind h
  exact ⟨st', hst, statements_of_execute h⟩

/-- A name that a replacement makes up. -/
def madeName (p : ReplacementPass) (c : Connection) (s : Session) (role : ShadowRole) : Value :=
  .text (shadowName p.tableName role c.now (s.replacements + 1))

/-- A replacement that ends well has sent its four statements. -/
theorem statements_of_replaceTable (h : outcome (replaceTable columns p) c s = (.ok (), s')) :
    ∃ start draft, ∃ r : Rebuild, ∃ old,
      r.Drafted c.target ⟨p.tableName, columns, p.strict⟩ p.transformations start draft ∧
      c.target.tableRef p.tableName = .ok r.table ∧
      c.target.tableRef (madeName p c s .new) = .ok r.shadow ∧
      c.target.tableRef (madeName p c s .old) = .ok old ∧
      s'.statements = s.statements ++ r.replacement old := by
  obtain ⟨names, s₁, hn, h₂⟩ := ok_of_bind (of_target_bind h)
  obtain ⟨rfl, sent₁⟩ := statements_of_newShadowNames hn
  obtain ⟨populate, logs, hpopulate, h₃⟩ := ok_of_compile_bind h₂
  obtain ⟨start, draft, r, rfl, hr, table, shadow⟩ :=
    Target.drafted_of_populateShadow (returns_of_result hpopulate)
  obtain ⟨create, hcreate, h₄⟩ := ok_of_lift_bind h₃
  obtain ⟨_, s₄, hx, h₅⟩ := ok_of_bind h₄
  have sent₄ := statements_of_execute hx
  obtain ⟨_, s₅, hfill, h₆⟩ := ok_of_bind h₅
  have sent₅ := statements_of_execute (ok_of_replacementStep hfill)
  obtain ⟨_, s₆, hrename, h₇⟩ := ok_of_bind h₆
  obtain ⟨exchange, hexchange, sent₆⟩ := statements_of_compiled (ok_of_replacementStep hrename)
  obtain ⟨drop, hdrop, sent₇⟩ := statements_of_compiled (ok_of_replacementStep h₇)
  obtain ⟨old, hold, rfl⟩ := Target.exchangeTables_eq table shadow hexchange
  rw [Target.createShadow_eq table shadow hcreate] at sent₄
  rw [Target.dropTable_eq hold hdrop] at sent₇
  refine ⟨start, draft, r, old, hr, table, shadow, hold, ?_⟩
  have before : s₁.statements = s.statements := sent₁
  rw [sent₇, sent₆, sent₅, sent₄]
  show (((s₁.statements ++ _) ++ _) ++ _) ++ _ = _
  rw [before]
  simp [Rebuild.replacement]

section Actions

variable {result result' : TransformResult}

/-- Statements of a batch are sent one after the other. -/
theorem statements_of_runActions {sts : List Statement}
    (h : outcome (runActions columns result (sts.map .run)) c s = (.ok result', s')) :
    s'.statements = s.statements ++ sts := by
  induction sts generalizing s result with
  | nil =>
    cases h
    exact (List.append_nil _).symm
  | cons st sts ih =>
    obtain ⟨_, s₁, hx, h⟩ := ok_of_bind h
    rw [ih h, statements_of_execute hx, List.append_assoc]
    rfl

theorem ok_of_runActions_replace {rest : List Action}
    (h : outcome (runActions columns result (.replace p :: rest)) c s = (.ok result', s')) :
    ∃ s₁ result₁, outcome (replaceTable columns p) c s = (.ok (), s₁) ∧
      outcome (runActions columns result₁ rest) c s₁ = (.ok result', s') := by
  obtain ⟨_, s₁, hx, h⟩ := ok_of_bind h
  exact ⟨s₁, _, hx, h⟩

end Actions
end Run
end SyntheticRows
