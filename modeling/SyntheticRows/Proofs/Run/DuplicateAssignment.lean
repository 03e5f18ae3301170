import Mathlib.Data.List.Duplicate
import SyntheticRows.Proofs.Compile.Avoidance
import SyntheticRows.Proofs.Run.AcceptedBatches

/-!
# Columns assigned twice

A batch that assigns a column twice is refused before anything is sent, whichever of the batches it
is, and nothing else is refused for that reason. What is sent otherwise sets each column once.
-/
namespace SyntheticRows
open Sql
open scoped List

theorem duplicate_append {α : Type} {x : α} {l l' : List α} :
    List.Duplicate x (l ++ l') ↔
      List.Duplicate x l ∨ List.Duplicate x l' ∨ x ∈ l ∧ x ∈ l' := by
  classical
  simp only [List.duplicate_iff_two_le_count, List.count_append, ← List.count_pos_iff]
  omega

namespace Batch

/-- Two active transformations of the batch assign the column, or one assigns it twice. -/
def AssignsTwice (b : Batch) (n : String) : Prop :=
  (∃ tr tr', [tr, tr'] <+ b.active ∧ n ∈ tr.assigned ∧ n ∈ tr'.assigned) ∨
    ∃ tr ∈ b.active, List.Duplicate n tr.assigned

/-- The active transformations name the columns that they assign by texts. -/
def NamesColumns (b : Batch) : Prop :=
  ∀ tr ∈ b.active, tr.assignedColumns = tr.assigned.map .text

theorem duplicate_flatMap {n : String} {trs : List Transformation} :
    List.Duplicate n (trs.flatMap Transformation.assigned) ↔
      (∃ tr tr', [tr, tr'] <+ trs ∧ n ∈ tr.assigned ∧ n ∈ tr'.assigned) ∨
        ∃ tr ∈ trs, List.Duplicate n tr.assigned := by
  induction trs with
  | nil => simp
  | cons a trs ih =>
    have pairs : (∃ tr tr', [tr, tr'] <+ a :: trs ∧ n ∈ tr.assigned ∧ n ∈ tr'.assigned) ↔
        (∃ tr tr', [tr, tr'] <+ trs ∧ n ∈ tr.assigned ∧ n ∈ tr'.assigned) ∨
          n ∈ a.assigned ∧ n ∈ trs.flatMap Transformation.assigned := by
      constructor
      · rintro ⟨tr, tr', place, h, h'⟩
        rcases List.sublist_cons_iff.1 place with later | ⟨_, same, later⟩
        · exact .inl ⟨tr, tr', later, h, h'⟩
        · cases same
          exact .inr ⟨h, List.mem_flatMap.2 ⟨tr', List.singleton_sublist.1 later, h'⟩⟩
      · rintro (⟨tr, tr', later, h⟩ | ⟨h, h'⟩)
        · exact ⟨tr, tr', later.cons a, h⟩
        · obtain ⟨tr', there, h'⟩ := List.mem_flatMap.1 h'
          exact ⟨a, tr', (List.singleton_sublist.2 there).cons_cons a, h, h'⟩
    rw [List.flatMap_cons, duplicate_append, ih, pairs, List.exists_mem_cons_iff]
    constructor
    · rintro (first | (rest | rest) | both)
      · exact .inr (.inl first)
      · exact .inl (.inl rest)
      · exact .inr (.inr rest)
      · exact .inl (.inr both)
    · rintro ((rest | both) | first | rest)
      · exact .inr (.inl (.inl rest))
      · exact .inr (.inr both)
      · exact .inl first
      · exact .inr (.inl (.inr rest))

theorem duplicate_iff_assignsTwice {b : Batch} {n : String} :
    List.Duplicate n (b.active.flatMap Transformation.assigned) ↔ b.AssignsTwice n :=
  duplicate_flatMap

theorem nodup_iff_not_assignsTwice {b : Batch} :
    (b.active.flatMap Transformation.assigned).Nodup ↔ ¬∃ n, b.AssignsTwice n := by
  simp only [← duplicate_iff_assignsTwice, List.exists_duplicate_iff_not_nodup, not_not]

section Assign

variable {table description : Value}

/-- The first column that repeats one before it is refused. -/
theorem assign_texts (ht : table.isWritable = true) (hd : description.isWritable = true)
    (seen columns : List String) :
    (∃ r, assign table description (seen.map .text) (columns.map .text) = .ok r) ∨
      ∃ n, (n ∈ seen ∧ n ∈ columns ∨ List.Duplicate n columns) ∧
        assign table description (seen.map .text) (columns.map .text) =
          .error (.configuration (.assignedTwice table (.text n) description)) := by
  induction columns generalizing seen with
  | nil => exact .inl ⟨_, rfl⟩
  | cons n columns ih =>
    have member : (Value.text n).memberOf (seen.map .text) = true ↔ n ∈ seen := by
      simp [Value.memberOf_text]
    by_cases hn : n ∈ seen
    · refine .inr ⟨n, .inl ⟨hn, List.mem_cons_self⟩, ?_⟩
      have shown : writable (Cause.assignedTwice table (.text n) description).shown = .ok () := by
        simp [writable, Cause.shown, ht, hd, Value.isWritable]
      rw [List.map_cons, assign, if_neg (by simp [Value.isKey, Value.changeableKind?]),
        if_pos (member.2 hn), refuse, shown]
      rfl
    · have next : assign table description (seen.map .text) ((n :: columns).map .text) =
          assign table description ((n :: seen).map .text) (columns.map .text) := by
        rw [List.map_cons, assign, if_neg (by simp [Value.isKey, Value.changeableKind?]),
          if_neg (mt member.1 hn)]
        rfl
      rw [next]
      refine (ih (n :: seen)).imp_right ?_
      rintro ⟨n', repeated, he⟩
      refine ⟨n', ?_, he⟩
      rw [List.duplicate_cons_iff]
      rcases repeated with ⟨before, later⟩ | later
      · rcases List.mem_cons.1 before with rfl | before
        · exact .inr (.inl ⟨rfl, later⟩)
        · exact .inl ⟨before, List.mem_cons_of_mem _ later⟩
      · exact .inr (.inr later)

/-- A batch is refused for a column that it assigns twice, or it assigns none twice. -/
theorem checkAssignments_cases {b : Batch} (ht : table.isWritable = true)
    (hd : b.description.isWritable = true) (hb : b.NamesColumns) :
    (b.checkAssignments table = .ok () ∧ ¬∃ n, b.AssignsTwice n) ∨
      ∃ n, b.AssignsTwice n ∧ b.checkAssignments table =
        .error (.configuration (.assignedTwice table (.text n) b.description)) := by
  have texts : b.active.flatMap Transformation.assignedColumns =
      (b.active.flatMap Transformation.assigned).map .text := by
    rw [List.map_flatMap]
    exact List.flatMap_congr hb
  have check : b.checkAssignments table = (fun _ => ()) <$> assign table b.description
      (([] : List String).map .text) ((b.active.flatMap Transformation.assigned).map .text) := by
    rw [checkAssignments, texts]
    rfl
  rcases assign_texts ht hd [] (b.active.flatMap Transformation.assigned) with ⟨r, hr⟩ | ⟨n, hn, he⟩
  · rw [hr] at check
    exact .inl ⟨check, nodup_iff_not_assignsTwice.1 (assigned_nodup check)⟩
  · rw [he] at check
    refine .inr ⟨n, duplicate_iff_assignsTwice.1 ?_, check⟩
    exact hn.resolve_left fun h => List.not_mem_nil h.1

end Assign
end Batch

namespace Run

section Avoids

variable {α : Type}

theorem isRepeat_of_not_configuration {e : Error} (h : e.isConfiguration = false) :
    e.isRepeat = false := by
  cases e with
  | configuration cause => cases h
  | _ => rfl

theorem avoids_of_neverRefuses {x : Run α} (h : NeverRefuses x) : Avoids x := by
  rintro e ⟨c, s, s', run⟩
  exact isRepeat_of_not_configuration (h c s e s' run)

theorem avoids_lift {x : Except Error α} (h : Avoids x) : Avoids (liftM x : Run α) := by
  rintro e ⟨c, s, s', run⟩
  cases run
  exact h e rfl

theorem avoids_target : Avoids target := by
  rintro e ⟨c, s, s', ⟨⟩⟩

theorem avoids_compile {x : Warned α} (h : Avoids x) : Avoids (compile x) := by
  rintro e ⟨c, s, s', run⟩
  change outcome (compile x) c s = _ at run
  rw [outcome_compile, Prod.mk.injEq] at run
  exact h e ⟨[], _, Prod.ext run.1 rfl⟩

theorem avoids_execute (st : Statement) : Avoids (execute st) :=
  avoids_of_neverRefuses (neverRefuses_execute st)

theorem avoids_compiled {x : Except Error Statement} (h : Avoids x) :
    Avoids (do execute (← x) : Run Unit) := (avoids_lift h).bind avoids_execute

theorem avoids_replacementStep (table : Value) (step : ReplacementStep) (orphans : List String)
    {action : Run Unit} (h : Avoids action) :
    Avoids (replacementStep table step orphans action) := by
  rintro e ⟨c, s, s', run⟩
  change outcome (replacementStep table step orphans action) c s = _ at run
  rw [replacementStep, outcome_tryCatch] at run
  rcases hr : outcome action c s with ⟨e' | _, s₁⟩
  · rw [hr] at run
    have own := h e' ⟨c, s, s₁, hr⟩
    cases e' with
    | statementFailed reason =>
      cases run
      rfl
    | _ =>
      cases run
      exact own
  · rw [hr] at run
    cases run

theorem avoids_replaceTable (columns : List Value) (p : ReplacementPass) :
    Avoids (replaceTable columns p) := by
  refine avoids_target.bind fun t => ?_
  refine (avoids_of_neverRefuses (neverRefuses_newShadowNames _)).bind fun names => ?_
  refine (avoids_compile (t.avoids_populateShadow _ _ _)).bind fun populate => ?_
  refine (avoids_lift (t.avoids_createShadow _ _)).bind fun create => ?_
  refine (avoids_execute create).bind fun _ => ?_
  refine (avoids_replacementStep _ _ _ (avoids_execute _)).bind fun _ => ?_
  refine (avoids_replacementStep _ _ _ (avoids_compiled (t.avoids_exchangeTables _ _ _))).bind
    fun _ => ?_
  refine avoids_replacementStep _ _ _ (avoids_compiled ?_)
  exact (t.avoids_tableRef _).bind fun _ => .pure _

theorem avoids_runActions (columns : List Value) (result : TransformResult)
    (actions : List Action) : Avoids (runActions columns result actions) := by
  induction actions generalizing result with
  | nil => exact .pure _
  | cons a rest ih =>
    cases a with
    | run st => exact (avoids_execute st).bind fun _ => ih _
    | replace p => exact (avoids_replaceTable columns p).bind fun _ => ih _

theorem avoids_applyBatches (strict : Bool) (columns : List Value) (result : TransformResult)
    (batches : List Batch) : Avoids (applyBatches strict columns result batches) := by
  induction batches generalizing result with
  | nil => exact .pure _
  | cons b rest ih =>
    refine (avoids_lift (avoids_writable _)).bind fun _ => avoids_target.bind fun t => ?_
    refine (avoids_compile (t.avoids_batchActions _ b)).bind fun actions => ?_
    exact (avoids_runActions columns result actions).bind fun _ => ih _

theorem avoids_columnsQuery (t : Target) : Avoids t.columnsQuery := by
  refine (t.dialect.avoids_engine rfl).bind fun e => ?_
  cases e with
  | trino =>
    exact Avoids.bind ((t.avoids_ident _).bind fun _ => .pure _) fun _ => .pure _
  | _ => exact .pure _

theorem avoids_columnNames (table : Value) : Avoids (columnNames table) := by
  refine avoids_target.bind fun t => (avoids_lift (avoids_columnsQuery t)).bind fun q => ?_
  exact (avoids_of_neverRefuses (neverRefuses_query _)).bind fun _ => .pure _

end Avoids

section Apply

variable {strict : Bool} {table : Value} {batches : List Batch} {c : Connection} {s s' : Session}
  {res : Except Error TransformResult}

/-- The batches that are applied. -/
def nonempty (batches : List Batch) : List Batch := batches.filter (!·.transformations.isEmpty)

theorem applyTransformations_eq : applyTransformations strict table batches =
    if (nonempty batches).isEmpty then pure { tableName := table }
    else (do
      (nonempty batches).forM fun b => liftM (b.checkAssignments table)
      let columns ← columnNames table
      applyBatches strict columns { tableName := table } (nonempty batches)) := rfl

/-- The check fails as that of one of the batches, and sends nothing. -/
theorem error_of_checkAll {e : Error}
    (h : outcome (batches.forM fun b => liftM (b.checkAssignments table)) c s = (.error e, s')) :
    s' = s ∧ ∃ b ∈ batches, b.checkAssignments table = .error e := by
  induction batches generalizing s with
  | nil => cases h
  | cons b rest ih =>
    rcases error_of_lift_bind h with ⟨fails, rfl⟩ | ⟨_, _, h⟩
    · exact ⟨rfl, b, List.mem_cons_self, fails⟩
    · obtain ⟨same, b', there, fails⟩ := ih h
      exact ⟨same, b', List.mem_cons_of_mem _ there, fails⟩

/-- The query for the columns is no statement. -/
theorem adds_columnNames {P : Statement → Prop} (table : Value) :
    Keeps (Adds P) (columnNames table) := by
  have queried (q : CatalogQuery) :
      Keeps (Adds P) (send (.queried q) q.text "Query execution failed") := by
    intro c s
    refine .nothing ?_
    rw [outcome_send]
    split
    · split <;> simp [Session.statements, Event.statement?]
    · rfl
  refine .bind .trans (fun _ s => .nothing rfl) fun t => .bind .trans (adds_lift _) fun q => ?_
  refine .bind .trans (.bind .trans (queried _) fun _ _ s => .nothing rfl) fun _ => ?_
  exact .pure (fun _ => .nothing rfl) _

/-- How transformations deal with columns that are assigned twice. -/
structure ChecksFirst (table : Value) (batches : List Batch) (c : Connection) (s s' : Session)
    (res : Except Error TransformResult) : Prop where
  /-- The error is raised exactly if a batch that is applied assigns a column twice. -/
  raised : (∃ e, res = .error e ∧ e.isRepeat = true) ↔
    ∃ b ∈ nonempty batches, ∃ n, b.AssignsTwice n
  /-- It names such a column, with its table and the description of its batch. -/
  named : ∀ e, res = .error e → e.isRepeat = true → ∃ b ∈ nonempty batches, ∃ n,
    b.AssignsTwice n ∧ e = .configuration (.assignedTwice table (.text n) b.description)
  /-- Nothing was sent before. -/
  unsent : (∃ b ∈ nonempty batches, ∃ n, b.AssignsTwice n) → s' = s
  /-- What is sent otherwise sets no column twice, and each transformation's columns by one
  statement of its batch, unless the engine rebuilds tables. -/
  sent : (¬∃ b ∈ nonempty batches, ∃ n, b.AssignsTwice n) → ∃ sent,
    s'.statements = s.statements ++ sent ∧ (∀ st ∈ sent, SetsOnce st) ∧
      (c.config.driver ≠ .clickhouse → Divided (nonempty batches) res sent)

theorem sent_of_accepted (hn : ∀ b ∈ batches, (b.active.flatMap Transformation.assigned).Nodup)
    {columns : List Value} {result : TransformResult}
    (h : outcome (applyBatches strict columns result batches) c s = (res, s')) :
    ∃ sent, s'.statements = s.statements ++ sent ∧ (∀ st ∈ sent, SetsOnce st) ∧
      (c.config.driver ≠ .clickhouse → Divided batches res sent) := by
  obtain ⟨sent, hs, once⟩ := (adds_applyBatches strict columns result hn).outcome h
  refine ⟨sent, hs, once, fun hd => ?_⟩
  obtain ⟨sent', hs', divided⟩ :=
    divided_of_applyBatches (fun hc => hd (Dialect.of.inj hc)) hn h
  rwa [List.append_cancel_left (hs.symm.trans hs')]

theorem ChecksFirst.of_refused {b : Batch} {n : String} (hb : b ∈ nonempty batches)
    (hn : b.AssignsTwice n)
    (he : res = .error (.configuration (.assignedTwice table (.text n) b.description)))
    (hs : s' = s) : ChecksFirst table batches c s s' res where
  raised := ⟨fun _ => ⟨b, hb, n, hn⟩, fun _ => ⟨_, he, rfl⟩⟩
  named := by
    rintro e h -
    cases he.symm.trans h
    exact ⟨b, hb, n, hn, rfl⟩
  unsent _ := hs
  sent h := (h ⟨b, hb, n, hn⟩).elim

theorem ChecksFirst.of_accepted (hn : ¬∃ b ∈ nonempty batches, ∃ n, b.AssignsTwice n)
    (he : ∀ e, res = .error e → e.isRepeat = false)
    (hs : ∃ sent, s'.statements = s.statements ++ sent ∧ (∀ st ∈ sent, SetsOnce st) ∧
      (c.config.driver ≠ .clickhouse → Divided (nonempty batches) res sent)) :
    ChecksFirst table batches c s s' res where
  raised := by
    refine ⟨?_, fun h => (hn h).elim⟩
    rintro ⟨e, h, repeated⟩
    cases (he e h).symm.trans repeated
  named e h repeated := by cases (he e h).symm.trans repeated
  unsent h := (hn h).elim
  sent _ := hs

/-- Transformations refuse a column that a batch assigns twice, exactly then and before anything is
sent; all that they send otherwise sets each column once. -/
theorem checksFirst_of_applyTransformations (ht : table.isWritable = true)
    (hb : ∀ b ∈ batches, b.description.isWritable = true ∧ b.NamesColumns)
    (h : outcome (applyTransformations strict table batches) c s = (res, s')) :
    ChecksFirst table batches c s s' res := by
  have check {b : Batch} (there : b ∈ nonempty batches) :=
    have given := hb b (List.mem_of_mem_filter there)
    b.checkAssignments_cases ht given.1 given.2
  rw [applyTransformations_eq] at h
  by_cases hk : nonempty batches = []
  · simp only [hk, List.isEmpty_nil, if_true] at h
    cases h
    refine .of_accepted (by simp [hk]) nofun ⟨[], (List.append_nil _).symm, nofun, fun _ => ?_⟩
    rw [hk]
    exact ⟨[], [], [], rfl, .nil, List.prefix_rfl, fun _ _ => ⟨rfl, rfl⟩⟩
  simp only [List.isEmpty_iff, hk, if_false] at h
  rcases cases_of_bind h with ⟨e, rfl, hc⟩ | ⟨_, s₁, hc, h⟩
  · obtain ⟨same, b, there, fails⟩ := error_of_checkAll hc
    rcases check there with ⟨passes, _⟩ | ⟨n, twice, refused⟩
    · cases passes.symm.trans fails
    · cases refused.symm.trans fails
      exact .of_refused there twice rfl same
  obtain ⟨r, hr, all⟩ := outcome_checkAll table (nonempty batches) c s
  rw [hr, Prod.mk.injEq] at hc
  obtain ⟨rfl, rfl⟩ := hc
  have once {b : Batch} (there : b ∈ nonempty batches) : ¬∃ n, b.AssignsTwice n := by
    rcases check there with ⟨_, once⟩ | ⟨n, _, refused⟩
    · exact once
    · cases (all.1 rfl b there).symm.trans refused
  have none : ¬∃ b ∈ nonempty batches, ∃ n, b.AssignsTwice n :=
    fun ⟨b, there, twice⟩ => once there twice
  have distinct : ∀ b ∈ nonempty batches, (b.active.flatMap Transformation.assigned).Nodup :=
    fun b there => Batch.nodup_iff_not_assignsTwice.2 (once there)
  rcases cases_of_bind h with ⟨e, rfl, hq⟩ | ⟨columns, s₂, hq, h⟩
  · refine .of_accepted none (fun e' he => ?_) ?_
    · cases he
      exact avoids_columnNames table e ⟨c, s, s', hq⟩
    · obtain ⟨sent, hs, nothing⟩ := (adds_columnNames (P := fun _ => False) table).outcome hq
      cases List.eq_nil_iff_forall_not_mem.2 nothing
      exact ⟨[], hs, nofun, fun _ => .nothing⟩
  · obtain ⟨_, same, _⟩ := columnNames_ok hq
    refine .of_accepted none (fun e he => ?_) (same ▸ sent_of_accepted distinct h)
    exact avoids_applyBatches strict columns _ _ e ⟨c, s₂, s', he ▸ h⟩

end Apply

/-- Two batches that assign the column `a` once, and one that assigns it twice. -/
def crowdedBatches : List Batch :=
  templateBatches "p" "q" ++
    [{ transformations := (templateBatches "p" "q").flatMap Batch.transformations
       description := .text "crowded" }]

def crowdedConnection : Connection := { config := { driver := .trino }, now := 0 }

/-- Only the last batch is bad, and nothing is sent. -/
theorem checksFirst_of_crowdedBatches :
    ChecksFirst (.text "t") crowdedBatches crowdedConnection { isOpen := true } { isOpen := true }
      (.error (.configuration (.assignedTwice (.text "t") (.text "a") (.text "crowded")))) := by
  have ran : outcome (applyTransformations false (.text "t") crowdedBatches) crowdedConnection
      { isOpen := true } = (.error (.configuration (.assignedTwice (.text "t") (.text "a")
        (.text "crowded"))), { isOpen := true }) := rfl
  refine checksFirst_of_applyTransformations rfl ?_ ran
  simp [crowdedBatches, templateBatches, Batch.NamesColumns, Batch.active,
    Transformation.isActive, Transformation.assignedColumns, Transformation.assigned,
    Transformation.names, Value.isWritable]

end Run
end SyntheticRows
