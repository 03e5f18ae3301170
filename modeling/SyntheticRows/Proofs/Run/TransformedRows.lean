import SyntheticRows.Proofs.Meaning.Effect
import SyntheticRows.Proofs.Run.Replacement

/-!
# What transformations send

Transformations that end well have sent updates, and on ClickHouse replacements as well. So they
leave every table with as many rows as it had, and drop nothing but what was put aside before under
a name made for it.
-/
namespace SyntheticRows
open Sql

namespace Target

variable {t : Target} {scope : Scope} {b : Batch} {actions : List Action}

/-- What Trino updates by a statement of its own is a swap. -/
theorem trinoPart_update {table : Path} {index : ℕ} {tr : Transformation} {st : Statement}
    (h : Returns (t.trinoPart scope table index tr) (.inr st)) : ∃ u, st = .update u := by
  obtain ⟨s, rfl⟩ := swap_of_trinoPart h
  obtain ⟨_, _, _, _, _, same, _⟩ := trinoPart_swap h
  cases same
  exact ⟨_, rfl⟩

/-- A batch is updated, or on ClickHouse rebuilt. -/
theorem cases_of_batchActions (h : Returns (t.batchActions scope b) actions) :
    ∀ a ∈ actions, (∃ u, a = .run (.update u)) ∨
      t.dialect = .of .clickhouse ∧ ∃ p, a = .replace p := by
  have shared (h : Returns (t.sharedUpdate scope b) actions) :
      ∀ a ∈ actions, ∃ u, a = .run (.update u) := by
    obtain ⟨_, _, _, h⟩ := sharedUpdate_returns h
    rcases h with ⟨_, rfl⟩ | ⟨_, _, _, _, _, _, _, rfl⟩ <;> simp
  unfold batchActions at h
  split at h
  · obtain ⟨table, parts, _, hparts, first, rfl, hfirst⟩ := trinoUpdates_returns h
    intro a ha
    obtain ⟨st, hst, rfl⟩ := List.mem_map.1 ha
    rcases List.mem_append.1 hst with hst | hst
    · rcases hfirst with ⟨_, rfl⟩ | ⟨_, _, _, rfl⟩
      · cases hst
      · rw [List.mem_singleton.1 hst]
        exact .inl ⟨_, rfl⟩
    · obtain ⟨part, hpart, right⟩ := List.mem_filterMap.1 hst
      cases part with
      | inl given => cases right
      | inr st' =>
        cases right
        obtain ⟨_, _, compiled⟩ := partner_left hparts hpart
        obtain ⟨u, rfl⟩ := trinoPart_update compiled
        exact .inl ⟨u, rfl⟩
  · next hd =>
    obtain ⟨_, _, _, passes, hpasses, hactions⟩ := clickhouseActions_returns h
    have rebuilt : ∀ a ∈ passes, ∃ p, a = .replace p := by
      rcases hpasses with ⟨_, rfl⟩ | ⟨_, rfl⟩ <;> simp
    intro a ha
    rcases hactions with ⟨_, rfl⟩ | ⟨_, _, _, rfl⟩
    · exact .inr ⟨hd, rebuilt a ha⟩
    · rcases List.mem_append.1 ha with ha | ha
      · exact .inr ⟨hd, rebuilt a ha⟩
      · rw [List.mem_singleton.1 ha]
        exact .inl ⟨_, rfl⟩
  · exact fun a ha => .inl (shared h a ha)

end Target

/-- The tables that are dropped. -/
def dropped (sts : List Statement) : List Path :=
  sts.filterMap fun
    | .drop path => some path
    | _ => none

/-- The names under which tables are put aside. -/
def putAside (sts : List Statement) : List Path :=
  sts.filterMap fun
    | .exchange _ _ old => some old
    | _ => none

/-- The table that rows are written into. -/
def Sql.Statement.filled? : Statement → Option Path
  | .insert i => some i.table
  | .rebuild r => some r.shadow
  | _ => none

namespace Run

variable {c : Connection} {s s' : Session}

/-- A name that a replacement on ClickHouse makes up. -/
def MadeUp (c : Connection) (role : ShadowRole) (path : Path) : Prop :=
  c.config.driver = .clickhouse ∧
    ∃ table n, c.target.tableRef (.text (shadowName table role c.now n)) = .ok path

/-- What one action sends. -/
inductive ActionSends (c : Connection) : List Statement → Prop
  | update (u : Update) : ActionSends c [.update u]
  | replacement {r : Rebuild} {old : Path} : MadeUp c .new r.shadow → MadeUp c .old old →
    ActionSends c (r.replacement old)

/-- What transformations send, action by action. -/
def Transformed (c : Connection) (sts : List Statement) : Prop :=
  ∃ parts : List (List Statement), sts = parts.flatten ∧ ∀ p ∈ parts, ActionSends c p

section Sent

variable {sts more : List Statement}

theorem Transformed.nil : Transformed c [] := ⟨[], rfl, nofun⟩

theorem Transformed.append (h : Transformed c sts) (h' : Transformed c more) :
    Transformed c (sts ++ more) := by
  obtain ⟨parts, rfl, hparts⟩ := h
  obtain ⟨parts', rfl, hparts'⟩ := h'
  refine ⟨parts ++ parts', by rw [List.flatten_append], fun p hp => ?_⟩
  exact (List.mem_append.1 hp).elim (hparts p) (hparts' p)

theorem ActionSends.transformed (h : ActionSends c sts) : Transformed c sts :=
  ⟨[sts], by simp, by simpa⟩

/-- Only what was put aside is dropped. -/
theorem Transformed.dropped_eq (h : Transformed c sts) : dropped sts = putAside sts := by
  obtain ⟨parts, rfl, h⟩ := h
  rw [dropped, putAside, List.filterMap_flatten, List.filterMap_flatten]
  refine congrArg List.flatten (List.map_congr_left fun p hp => ?_)
  cases h p hp <;> rfl

theorem Transformed.madeUp_of_putAside (h : Transformed c sts) :
    ∀ path ∈ putAside sts, MadeUp c .old path := by
  obtain ⟨parts, rfl, h⟩ := h
  intro path hpath
  obtain ⟨st, hst, aside⟩ := List.mem_filterMap.1 hpath
  obtain ⟨p, hp, hst⟩ := List.mem_flatten.1 hst
  cases h p hp with
  | update u => simp_all
  | replacement _ made =>
    simp only [Rebuild.replacement, List.mem_cons, List.not_mem_nil, or_false] at hst
    rcases hst with rfl | rfl | rfl | rfl <;> cases aside
    exact made

theorem Transformed.madeUp_of_filled (h : Transformed c sts) :
    ∀ st ∈ sts, ∀ path, st.filled? = some path → MadeUp c .new path := by
  obtain ⟨parts, rfl, h⟩ := h
  intro st hst path filled
  obtain ⟨p, hp, hst⟩ := List.mem_flatten.1 hst
  cases h p hp with
  | update u =>
    rw [List.mem_singleton.1 hst] at filled
    cases filled
  | replacement made _ =>
    simp only [Rebuild.replacement, List.mem_cons, List.not_mem_nil, or_false] at hst
    rcases hst with rfl | rfl | rfl | rfl <;> cases filled
    exact made

theorem Transformed.size {R : Rules} {convert : Conversion} {σ σ' : Store}
    (h : Transformed c sts) (hx : PerformsAll R convert σ sts σ') : σ'.size = σ.size := by
  obtain ⟨parts, rfl, h⟩ := h
  refine size_of_transforming (fun p hp => ?_) hx
  cases h p hp with
  | update u => exact .update u
  | replacement _ _ => exact .replacement _ _

end Sent

section Runs

theorem transformed_of_runActions {columns : List Value} {result result' : TransformResult}
    {actions : List Action}
    (known : ∀ a ∈ actions, (∃ u, a = .run (.update u)) ∨
      c.target.dialect = .of .clickhouse ∧ ∃ p, a = .replace p)
    (h : outcome (runActions columns result actions) c s = (.ok result', s')) :
    ∃ sts, s'.statements = s.statements ++ sts ∧ Transformed c sts := by
  induction actions generalizing s result with
  | nil =>
    cases h
    exact ⟨[], (List.append_nil _).symm, .nil⟩
  | cons a rest ih =>
    have others := fun a ha => known a (List.mem_cons_of_mem _ ha)
    rcases known a List.mem_cons_self with ⟨u, rfl⟩ | ⟨hd, p, rfl⟩
    · obtain ⟨_, s₁, hx, h⟩ := ok_of_bind h
      obtain ⟨sts, sent, transformed⟩ := ih others h
      refine ⟨[.update u] ++ sts, ?_, (ActionSends.update u).transformed.append transformed⟩
      rw [sent, statements_of_execute hx, List.append_assoc]
    · obtain ⟨s₁, result₁, hreplace, h⟩ := ok_of_runActions_replace h
      obtain ⟨_, _, r, old, _, _, shadow, hold, sent₁⟩ := statements_of_replaceTable hreplace
      obtain ⟨sts, sent, transformed⟩ := ih others h
      have clickhouse : c.config.driver = .clickhouse := Dialect.of.inj hd
      have made : ActionSends c (r.replacement old) :=
        .replacement ⟨clickhouse, _, _, shadow⟩ ⟨clickhouse, _, _, hold⟩
      refine ⟨r.replacement old ++ sts, ?_, made.transformed.append transformed⟩
      rw [sent, sent₁, List.append_assoc]

theorem transformed_of_applyBatches {strict : Bool} {columns : List Value}
    {result result' : TransformResult} {batches : List Batch}
    (h : outcome (applyBatches strict columns result batches) c s = (.ok result', s')) :
    ∃ sts, s'.statements = s.statements ++ sts ∧ Transformed c sts := by
  induction batches generalizing s result with
  | nil =>
    cases h
    exact ⟨[], (List.append_nil _).symm, .nil⟩
  | cons b rest ih =>
    obtain ⟨actions, logs, result₁, s₁, hactions, hrun, later⟩ := ok_of_firstBatch h
    obtain ⟨first, sent₁, transformed₁⟩ :=
      transformed_of_runActions (Target.cases_of_batchActions (returns_of_result hactions)) hrun
    obtain ⟨sts, sent, transformed⟩ := ih later
    refine ⟨first ++ sts, ?_, transformed₁.append transformed⟩
    rw [sent, sent₁, List.append_assoc]
    rfl

/-- Transformations that end well have sent updates and replacements. -/
theorem transformed_of_applyTransformations {strict : Bool} {table : Value}
    {batches : List Batch} {result : TransformResult}
    (h : outcome (applyTransformations strict table batches) c s = (.ok result, s')) :
    ∃ sts, s'.statements = s.statements ++ sts ∧ Transformed c sts := by
  unfold applyTransformations at h
  generalize batches.filter (!·.transformations.isEmpty) = kept at h
  by_cases hk : kept.isEmpty = true
  · simp only [hk, if_true] at h
    cases h
    exact ⟨[], (List.append_nil _).symm, .nil⟩
  · simp only [hk] at h
    obtain ⟨_, s₁, hchecked, h⟩ := ok_of_bind h
    obtain ⟨_, hr, _⟩ := outcome_checkAll table kept c s
    cases hr.symm.trans hchecked
    obtain ⟨columns, s₂, hcolumns, h⟩ := ok_of_bind h
    rw [← (columnNames_ok hcolumns).2.1]
    exact transformed_of_applyBatches h

end Runs
end Run
end SyntheticRows
