import SyntheticRows.Proofs.Run.AcceptedBatches
import SyntheticRows.Proofs.Run.ReplacementProtocol

/-!
# Assignments that a rebuild carries

A rebuild collects the expressions of all columns that are assigned, and then writes those of the
table's own columns. So an assignment is written exactly if its column is one of these; any other
is left out, and the rebuild goes on without it.
-/
namespace SyntheticRows
open Sql Target

/-- The expression that is kept for a column. -/
def Target.RebuildDraft.entry (d : RebuildDraft) (n : String) : Option Expr :=
  (d.expressions.find? ((Value.text n).same ·.1)).map Prod.snd

/-- The transformation at the place `index` of a rebuild assigns the column, and this is the
expression that it gives it. -/
def Target.Rewrites (t : Target) (scope : Scope) (index : ℕ) (tr : Transformation) (n : String)
    (x : Expr) : Prop :=
  n ∈ tr.assigned ∧ ∃ d d', t.Rebuilds scope index d tr d' ∧ d'.entry n = some x

/-- The rebuild writes a column that is assigned exactly if the table has it, and then as its
transformation says. -/
def Sql.Rebuild.Carries (t : Target) (scope : Scope) (trs : List Transformation) (r : Rebuild) :
    Prop :=
  ∀ (i : ℕ) tr, trs[i]? = some tr → ∀ n ∈ tr.assigned, ∃ x, t.Rewrites scope i tr n x ∧
    (n ∈ r.columns.map Ident.name ↔ .text n ∈ scope.columns) ∧
    ∀ k : ℕ, (r.columns.map Ident.name)[k]? = some n → r.values[k]? = some x

namespace Target

variable {t : Target} {scope : Scope} {d d' draft : RebuildDraft} {n : String}
  {l : List (Transformation × ℕ)} {tr : Transformation} {index : ℕ}

/-- A step gives an expression to each column that it assigns, and leaves the others. -/
theorem entry_of_rebuilds (h : t.Rebuilds scope index d tr d') :
    (n ∈ tr.assigned → ∃ x, d'.entry n = some x) ∧ (n ∉ tr.assigned → d'.entry n = d.entry n) := by
  cases h <;>
    simp only [RebuildDraft.entry, Value.find_insertEntry, Transformation.assigned,
      Transformation.assignedColumns, Transformation.mem_names, List.mem_cons, List.not_mem_nil,
      or_false] <;>
    grind [Value.text_same]

/-- What the steps do not assign stays as it was before them. -/
theorem entry_of_unassigned (h : t.RebuildsAll scope d l draft)
    (hn : n ∉ (l.map Prod.fst).flatMap Transformation.assigned) : draft.entry n = d.entry n := by
  induction h with
  | nil => rfl
  | cons ha _ ih =>
    rw [List.map_cons, List.flatMap_cons, List.mem_append, not_or] at hn
    rw [ih hn.2, (entry_of_rebuilds ha).2 hn.1]

/-- If no column is assigned twice, each step's expressions are there at the end. -/
theorem rewrites_of_rebuildsAll (h : t.RebuildsAll scope d l draft)
    (hn : ((l.map Prod.fst).flatMap Transformation.assigned).Nodup) :
    ∀ a ∈ l, ∀ n ∈ a.1.assigned, ∃ x, t.Rewrites scope a.2 a.1 n x ∧ draft.entry n = some x := by
  induction h with
  | nil => nofun
  | @cons a l d d₁ draft ha hrest ih =>
    rw [List.map_cons, List.flatMap_cons, List.nodup_append'] at hn
    obtain ⟨-, later, apart⟩ := hn
    intro a' ha' n hna
    rcases List.mem_cons.1 ha' with rfl | ha'
    · obtain ⟨x, hx⟩ := (entry_of_rebuilds ha).1 hna
      refine ⟨x, ⟨hna, _, _, ha, hx⟩, ?_⟩
      rw [entry_of_unassigned hrest (apart hna), hx]
    · exact ih later a' ha' n hna

end Target

namespace Sql.Rebuild

variable {t : Target} {scope : Scope} {trs : List Transformation} {r : Rebuild} {n : String}
  {start : List (Value × Expr)} {draft : RebuildDraft}

theorem Drafted.mem_columns (h : r.Drafted t scope trs start draft) :
    n ∈ r.columns.map Ident.name ↔ .text n ∈ scope.columns := by
  constructor
  · intro hn
    obtain ⟨i, hi, rfl⟩ := List.mem_map.1 hn
    obtain ⟨v, hv, hvi⟩ := partner_left h.columns hi
    rwa [← ident_text hvi]
  · intro hn
    obtain ⟨i, hi, hni⟩ := partner_right h.columns hn
    have same := Value.text.inj (ident_text hni)
    exact List.mem_map.2 ⟨i, hi, same.symm⟩

/-- At each of its places a column gets what was kept for it. -/
theorem Drafted.value_at (h : r.Drafted t scope trs start draft) {k : ℕ}
    (hk : (r.columns.map Ident.name)[k]? = some n) : r.values[k]? = draft.entry n := by
  rw [List.getElem?_map, Option.map_eq_some_iff] at hk
  obtain ⟨i, hi, rfl⟩ := hk
  obtain ⟨v, hv, hvi⟩ := partner_at h.columns.flip hi
  obtain ⟨x, hx, entry⟩ := partner_at h.values hv
  rw [ident_text hvi] at entry
  exact hx.trans entry.symm

/-- A rebuild that is compiled for transformations without a repeated column carries them. -/
theorem Drafted.carries (h : r.Drafted t scope trs start draft)
    (hn : (trs.flatMap Transformation.assigned).Nodup) : r.Carries t scope trs := by
  intro i tr htr n hna
  have there : (tr, i) ∈ trs.zipIdx := List.mk_mem_zipIdx_iff_getElem?.2 htr
  obtain ⟨x, hx, entry⟩ := rewrites_of_rebuildsAll h.rebuilt
    (by rwa [List.zipIdx_map_fst]) _ there n hna
  exact ⟨x, hx, h.mem_columns, fun k hk => (h.value_at hk).trans entry⟩

end Sql.Rebuild

/-- A batch of which something is rebuilt becomes a replacement, and then updates. -/
theorem Target.replace_of_clickhouseActions {t : Target} {scope : Scope} {b : Batch}
    {actions : List Action} (hr : rebuiltPart scope b ≠ [])
    (h : Returns (t.clickhouseActions scope b) actions) :
    ∃ sts : List Statement,
      actions = .replace ⟨scope.table, rebuiltPart scope b, scope.strict⟩ :: sts.map .run ∧
      ∀ st ∈ sts, ∃ u, st = .update u := by
  obtain ⟨_, assignments, _, passes, hpasses, hactions⟩ := clickhouseActions_returns h
  obtain ⟨none, _⟩ | ⟨_, rfl⟩ := hpasses
  · exact (hr none).elim
  rcases hactions with ⟨_, rfl⟩ | ⟨_, table, _, rfl⟩
  · exact ⟨[], rfl, nofun⟩
  · exact ⟨[.update { table, assignments }], rfl, by simp⟩

namespace Run

variable {c : Connection} {s s' : Session} {columns : List Value} {result : TransformResult}
  {res : Except Error TransformResult} {p : ReplacementPass} {sts : List Statement}

/-- From one session to the other a rebuild was started, and no other one. If this ended well, the
rebuild was sent, and the batch is reported as applied by it. -/
structure RebuildsBatch (result : TransformResult) (s s' : Session)
    (res : Except Error TransformResult) (r : Rebuild) : Prop where
  started : .createLike r.shadow r.table ∈ s'.statements.drop s.statements.length
  only : ∀ q, .rebuild q ∈ s'.statements.drop s.statements.length → q = r
  reported : ∀ result', res = .ok result' →
    .rebuild r ∈ s'.statements.drop s.statements.length ∧
      result'.batchesApplied = result.batchesApplied + 1 ∧
      result'.replacementPasses = result.replacementPasses + 1

theorem result_of_updates {result' : TransformResult}
    (h : outcome (runActions columns result (sts.map .run)) c s = (.ok result', s')) :
    result' = { result with batchesApplied := result.batchesApplied + 1 } := by
  induction sts generalizing s with
  | nil =>
    cases h
    rfl
  | cons st sts ih =>
    obtain ⟨_, _, _, h⟩ := ok_of_bind h
    exact ih h

/-- What a replacement sends first is the shadow, and what it rebuilds is one thing. -/
theorem Ends.started {table : Value} {shadow old : String} {r : Rebuild} {path : Path}
    {history : History} {end' : Except Error Unit}
    (h : Ends table shadow old r path history end') :
    .createLike r.shadow r.table ∈ history.map Prod.fst ∧
      (∀ q, .rebuild q ∈ history.map Prod.fst → q = r) ∧
      (end' = .ok () → .rebuild r ∈ history.map Prod.fst) := by
  cases h <;> simp

theorem rebuildsBatch_of_runActions (hsts : ∀ st ∈ sts, ∃ u, st = .update u)
    (h : outcome (runActions columns result (.replace p :: sts.map .run)) c s = (res, s')) :
    (∃ e, res = .error e ∧ s'.statements = s.statements) ∨
      ∃ r old, Rebuilds c s columns p r old ∧ RebuildsBatch result s s' res r := by
  by_cases starts : Starts c s columns p
  · right
    obtain ⟨hopen, st, content⟩ := starts
    obtain ⟨r, old, hr⟩ := exists_rebuilds content
    refine ⟨r, old, hr, ?_⟩
    rcases cases_of_bind h with ⟨e, rfl, hx⟩ | ⟨_, s₁, hx, h⟩
    · obtain ⟨history, sends, ends⟩ := hr.ends_of_replaceTable hopen hx
      obtain ⟨first, only, _⟩ := ends.started
      refine ⟨?_, ?_, nofun⟩ <;> simpa only [sends.statements, List.drop_left]
    · obtain ⟨history, sends, ends⟩ := hr.ends_of_replaceTable hopen hx
      obtain ⟨first, only, done⟩ := ends.started
      obtain ⟨sent, hs, pre, _⟩ := sent_of_runActions h
      rw [sends.statements, List.append_assoc] at hs
      have added : s'.statements.drop s.statements.length = history.map Prod.fst ++ sent := by
        rw [hs, List.drop_left]
      refine ⟨?_, fun q hq => ?_, fun result' hres => ?_⟩
      · rw [added]
        exact List.mem_append_left _ first
      · rw [added] at hq
        rcases List.mem_append.1 hq with hq | hq
        · exact only q hq
        · obtain ⟨u, hu⟩ := hsts _ (pre.subset hq)
          cases hu
      · rw [added]
        refine ⟨List.mem_append_left _ (done rfl), ?_⟩
        subst hres
        rw [result_of_updates h]
        exact ⟨rfl, rfl⟩
  · left
    rcases cases_of_bind h with ⟨e, rfl, hx⟩ | ⟨_, s₁, hx, _⟩
    · obtain ⟨sends, _⟩ := sends_nothing_of_not_starts starts hx
      exact ⟨e, rfl, by simpa using sends.statements⟩
    · obtain ⟨_, _, fails⟩ := sends_nothing_of_not_starts starts hx
      cases fails

/-- On ClickHouse a batch either fails before anything is sent, or starts one rebuild. Of the
transformations that it is made for, the rebuild carries exactly the assignments of columns that
the table has. -/
theorem carries_of_applyBatches {strict : Bool} {b : Batch} (hd : c.config.driver = .clickhouse)
    (hb : b.checkAssignments result.tableName = .ok ())
    (hr : rebuiltPart ⟨result.tableName, columns, strict⟩ b ≠ [])
    (h : outcome (applyBatches strict columns result [b]) c s = (res, s')) :
    (∃ e, res = .error e ∧ s'.statements = s.statements) ∨
      ∃ r : Rebuild, RebuildsBatch result s s' res r ∧
        r.Carries c.target ⟨result.tableName, columns, strict⟩
          (rebuiltPart ⟨result.tableName, columns, strict⟩ b) := by
  rcases cases_of_applyBatches h with unsent | ⟨actions, logs, compiled, h⟩
  · exact .inl unsent
  have clickhouse : c.target.dialect = .of .clickhouse := congrArg Dialect.of hd
  simp only [batchActions, clickhouse] at compiled
  simp only [applyBatches, bind_pure] at h
  obtain ⟨sts, rfl, hsts⟩ := replace_of_clickhouseActions hr compiled
  refine (rebuildsBatch_of_runActions hsts h).imp_right ?_
  rintro ⟨r, old, rebuilds, sent⟩
  have shadow := returns_of_result rebuilds.content
  obtain ⟨start, draft, r', same, drafted, _⟩ := drafted_of_populateShadow shadow
  cases same
  exact ⟨r, ⟨sent.started, sent.only, sent.reported⟩,
    drafted.carries (nodup_of_parts (Batch.assigned_nodup hb)).1⟩

/-- A lookup that assigns the column `ghost`. -/
def ghostBatch : Batch where
  transformations :=
    [.lookup {
      column := .text "ghost", fromTable := .text "manors", fromColumn := .text "haunt"
      targetColumn := .text "lodger", lookupColumn := .text "guest" }]

def ghostConnection : Connection := { config := { driver := .clickhouse }, now := 0 }

/-- The only column of the table is `lodger`. -/
def ghostSession : Session where
  isOpen := true
  database := { results := [{ rows := [[.text "lodger"]] }] }

/-- The columns of a rebuild and their expressions, as they are written. -/
def copiedColumns : Statement → Option (List String × List String)
  | .rebuild r => some (r.columns.map Ident.name, r.values.map (Expr.render .clickhouse))
  | _ => none

def ghostRun : Except Error TransformResult × Session :=
  outcome (applyTransformations false (.text "manor") [ghostBatch]) ghostConnection ghostSession

/-- The batch is accepted and reported as applied by a rebuild, but all that the rebuild writes is
the column as it is. -/
theorem dropped_ghost : ghostBatch.checkAssignments (.text "manor") = .ok () ∧
    ghostRun.1.toOption.map (fun result => (result.batchesApplied, result.replacementPasses)) =
      some (1, 1) ∧
    ghostRun.2.statements.filterMap copiedColumns = [(["lodger"], ["_src.\x60lodger\x60"])] :=
  ⟨rfl, by decide +kernel, by decide +kernel⟩

def ghostRebuild : Except Error TransformResult × Session :=
  outcome (applyBatches false [.text "lodger"] { tableName := .text "manor" } [ghostBatch])
    ghostConnection ghostSession

/-- The rebuild for the lookup: it does not carry the column `ghost`, which the table lacks. -/
theorem carries_of_ghostBatch : ∃ r : Rebuild,
    RebuildsBatch { tableName := .text "manor" } ghostSession ghostRebuild.2 ghostRebuild.1 r ∧
      r.Carries ghostConnection.target ⟨.text "manor", [.text "lodger"], false⟩
        ghostBatch.transformations := by
  have applied : ghostRebuild.1.toOption.isSome = true := by decide +kernel
  have ran : outcome (applyBatches false [.text "lodger"] { tableName := .text "manor" }
      [ghostBatch]) ghostConnection ghostSession = (ghostRebuild.1, ghostRebuild.2) := rfl
  have needed : rebuiltPart ⟨.text "manor", [.text "lodger"], false⟩ ghostBatch ≠ [] :=
    List.cons_ne_nil _ _
  have carried := carries_of_applyBatches rfl rfl needed ran
  rcases carried with ⟨e, he, _⟩ | carried
  · rw [he] at applied
    cases applied
  · exact carried

end Run
end SyntheticRows
