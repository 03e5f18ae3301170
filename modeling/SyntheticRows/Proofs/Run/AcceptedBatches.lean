import SyntheticRows.Proofs.Run.SetColumns

/-!
# What accepted batches send

Batches that assign no column twice send no statement that sets a column twice. On the engines that
rebuild nothing the batches send one list of updates each, one after the other, up to the first
statement that is refused or the first batch that does not compile.
-/
namespace SyntheticRows
open Sql

namespace Run

variable {α β : Type}

section Adds

variable {P : Statement → Prop}

theorem adds_lift (x : Except Error α) : Keeps (Adds P) (liftM x : Run α) :=
  .lift (fun _ => .nothing rfl) x

/-- What follows a compilation need only be looked at for what was compiled. -/
theorem adds_lift_bind {x : Except Error α} {f : α → Run β}
    (h : ∀ a, x = .ok a → Keeps (Adds P) (f a)) : Keeps (Adds P) (liftM x >>= f) := by
  cases x with
  | ok a => exact h a rfl
  | error e => exact fun _ s => .nothing rfl

theorem adds_compile_bind {x : Warned α} {f : α → Run β}
    (h : ∀ a, Returns x a → Keeps (Adds P) (f a)) : Keeps (Adds P) (compile x >>= f) := by
  intro c s
  rw [outcome_bind, outcome_compile]
  cases hx : x.result with
  | error e => exact .nothing rfl
  | ok a =>
    have before : Adds P s { s with logs := s.logs ++ (x.run.run []).2.map (⟨.warning, ·⟩) } :=
      .nothing rfl
    exact before.trans (h a (returns_of_result hx) c _)

/-- A statement is on record once it is sent, also if it is refused. -/
theorem sent_of_execute {st : Statement} {c : Connection} {s s' : Session}
    {r : Except Error Unit} (h : outcome (execute st) c s = (r, s')) :
    ∃ sent, s'.statements = s.statements ++ sent ∧ sent <+: [st] ∧ (r = .ok () → sent = [st]) := by
  have recorded : (s.after (.executed st) (st.render c.target.writer)).statements =
      s.statements ++ [st] := by
    simp [Session.statements, Event.statement?]
  rw [outcome_execute, outcome_send] at h
  split at h
  · split at h <;> cases h <;> exact ⟨[st], recorded, List.prefix_rfl, fun _ => rfl⟩
  · cases h
    refine ⟨[], (List.append_nil _).symm, List.nil_prefix, fun ended => ?_⟩
    cases ended

theorem adds_execute {st : Statement} (h : P st) : Keeps (Adds P) (execute st) := by
  intro c s
  obtain ⟨sent, hs, pre, _⟩ := sent_of_execute (show outcome (execute st) c s = _ from rfl)
  refine ⟨sent, hs, fun st' hst => ?_⟩
  rwa [List.mem_singleton.1 (pre.subset hst)]

theorem adds_compiled {x : Except Error Statement} (h : ∀ st, x = .ok st → P st) :
    Keeps (Adds P) (do execute (← x)) :=
  adds_lift_bind fun st hst => adds_execute (h st hst)

/-- A replacement sends statements of four kinds. -/
theorem adds_replaceTable (columns : List Value) (p : ReplacementPass)
    (create : ∀ shadow model, P (.createLike shadow model)) (rebuild : ∀ r, P (.rebuild r))
    (exchange : ∀ table shadow old, P (.exchange table shadow old))
    (drop : ∀ table, P (.drop table)) :
    Keeps (Adds P) (replaceTable columns p) := by
  have names (s : Session) (c : Connection) :
      Adds P s (outcome (newShadowNames p.tableName) c s).2 := by
    rw [outcome_newShadowNames]
    exact .nothing rfl
  unfold replaceTable
  refine .bind .trans (fun _ s => .nothing rfl) fun t => ?_
  refine .bind .trans (fun c s => names s c) fun names => ?_
  refine adds_compile_bind fun populate hpopulate => adds_lift_bind fun st hst => ?_
  refine .bind .trans (adds_execute ?_) fun _ => ?_
  · obtain ⟨_, _, _, _, rfl⟩ := Target.createShadow_ok hst
    exact create _ _
  refine .bind .trans (keeps_replacementStep id _ _ _ (adds_execute ?_)) fun _ => ?_
  · obtain ⟨_, _, r, rfl, _⟩ := Target.drafted_of_populateShadow hpopulate
    exact rebuild r
  refine .bind .trans (keeps_replacementStep id _ _ _ (adds_compiled fun st hst => ?_)) fun _ =>
    keeps_replacementStep id _ _ _ (adds_compiled fun st hst => ?_)
  · obtain ⟨_, _, _, _, _, _, rfl⟩ := Target.exchangeTables_ok hst
    exact exchange _ _ _
  · obtain ⟨_, _, rfl⟩ := Target.dropTable_ok hst
    exact drop _

end Adds

/-- The statement sets no column twice. -/
def SetsOnce (st : Statement) : Prop := st.setColumns.Nodup

theorem adds_runActions (columns : List Value) (result : TransformResult) {actions : List Action}
    (h : ∀ st, .run st ∈ actions → SetsOnce st) :
    Keeps (Adds SetsOnce) (runActions columns result actions) := by
  induction actions generalizing result with
  | nil => exact .pure (fun _ => .nothing rfl) _
  | cons a rest ih =>
    have later (result : TransformResult) :
        Keeps (Adds SetsOnce) (runActions columns result rest) :=
      ih result fun st hst => h st (List.mem_cons_of_mem _ hst)
    cases a with
    | run st => exact .bind .trans (adds_execute (h st List.mem_cons_self)) fun _ => later _
    | replace p =>
      refine .bind .trans (adds_replaceTable columns p ?_ ?_ ?_ ?_) fun _ => later _
      all_goals
        intros
        exact List.nodup_nil

/-- Batches without a repeated column send no statement that sets a column twice. -/
theorem adds_applyBatches (strict : Bool) (columns : List Value) (result : TransformResult)
    {batches : List Batch}
    (hn : ∀ b ∈ batches, (b.active.flatMap Transformation.assigned).Nodup) :
    Keeps (Adds SetsOnce) (applyBatches strict columns result batches) := by
  induction batches generalizing result with
  | nil => exact .pure (fun _ => .nothing rfl) _
  | cons b rest ih =>
    refine .bind .trans (adds_lift _) fun _ => .bind .trans (fun _ s => .nothing rfl) fun t => ?_
    refine adds_compile_bind fun actions hactions => ?_
    refine .bind .trans (adds_runActions columns result fun st hst => ?_) fun result' => ?_
    · exact Target.nodup_setColumns_of_batchActions (hn b List.mem_cons_self) hactions hst
    · exact ih result' fun b hb => hn b (List.mem_cons_of_mem _ hb)

section Divided

variable {c : Connection} {s s' : Session} {columns : List Value} {result : TransformResult}

/-- The batches up to one of them were compiled to statements that set what the batch assigns, and
the statements that were sent are the first of these, or all if the run ended well. -/
def Divided (batches : List Batch) (r : Except Error α) (sent : List Statement) : Prop :=
  ∃ done rest stss, batches = done ++ rest ∧ List.Forall₂ Batch.SetBy done stss ∧
    sent <+: stss.flatten ∧ ∀ a, r = .ok a → rest = [] ∧ sent = stss.flatten

theorem Divided.nothing {batches : List Batch} {e : Error} :
    Divided batches (.error e : Except Error α) [] :=
  ⟨[], batches, [], rfl, .nil, List.nil_prefix, nofun⟩

theorem Divided.cons {b : Batch} {batches : List Batch} {sts sent : List Statement}
    {r : Except Error α} (hb : b.SetBy sts) (h : Divided batches r sent) :
    Divided (b :: batches) r (sts ++ sent) := by
  obtain ⟨done, rest, stss, rfl, sets, pre, whole⟩ := h
  refine ⟨b :: done, rest, sts :: stss, rfl, .cons hb sets,
    (List.prefix_append_right_inj _).2 pre, fun a ha => ?_⟩
  obtain ⟨none, same⟩ := whole a ha
  exact ⟨none, by rw [same, List.flatten_cons]⟩

theorem sent_of_runActions {sts : List Statement} {r : Except Error TransformResult}
    (h : outcome (runActions columns result (sts.map .run)) c s = (r, s')) :
    ∃ sent, s'.statements = s.statements ++ sent ∧ sent <+: sts ∧
      ∀ a, r = .ok a → sent = sts := by
  induction sts generalizing s result with
  | nil =>
    cases h
    exact ⟨[], (List.append_nil _).symm, List.prefix_rfl, fun _ _ => rfl⟩
  | cons st sts ih =>
    rcases cases_of_bind h with ⟨e, rfl, hx⟩ | ⟨_, s₁, hx, h⟩
    · obtain ⟨sent, hs, pre, _⟩ := sent_of_execute hx
      exact ⟨sent, hs, pre.trans (List.prefix_append [st] sts), nofun⟩
    · obtain ⟨first, hfirst, _, one⟩ := sent_of_execute hx
      obtain ⟨sent, hs, pre, all⟩ := ih h
      rw [one rfl] at hfirst
      refine ⟨st :: sent, ?_, (List.prefix_cons_inj st).2 pre, fun a ha => by rw [all a ha]⟩
      rw [hs, hfirst, List.append_assoc, List.singleton_append]

/-- A batch that does not compile sends nothing, and one that does is run before the other batches
are applied. -/
theorem cases_of_applyBatches {strict : Bool} {b : Batch} {rest : List Batch}
    {r : Except Error TransformResult}
    (h : outcome (applyBatches strict columns result (b :: rest)) c s = (r, s')) :
    (∃ e, r = .error e ∧ s'.statements = s.statements) ∨ ∃ actions logs,
      Returns (c.target.batchActions ⟨result.tableName, columns, strict⟩ b) actions ∧
      outcome (runActions columns result actions >>= fun result' =>
        applyBatches strict columns result' rest) c { s with logs } = (r, s') := by
  obtain ⟨logs, ⟨e, refused, rfl, _⟩ | ⟨actions, compiled, h⟩⟩ := cases_of_firstBatch h
  · exact .inl ⟨e, refused, rfl⟩
  · exact .inr ⟨actions, logs, returns_of_result compiled, h⟩

/-- Batches send the statements of one after those of the other. -/
theorem divided_of_applyBatches {strict : Bool} {batches : List Batch}
    {r : Except Error TransformResult} (hd : c.target.dialect ≠ .of .clickhouse)
    (hn : ∀ b ∈ batches, (b.active.flatMap Transformation.assigned).Nodup)
    (h : outcome (applyBatches strict columns result batches) c s = (r, s')) :
    ∃ sent, s'.statements = s.statements ++ sent ∧ Divided batches r sent := by
  induction batches generalizing result s with
  | nil =>
    cases h
    exact ⟨[], (List.append_nil _).symm, [], [], [], rfl, .nil, List.prefix_rfl,
      fun _ _ => ⟨rfl, rfl⟩⟩
  | cons b rest ih =>
    rcases cases_of_applyBatches h with ⟨e, rfl, hs⟩ | ⟨actions, logs, compiled, h⟩
    · exact ⟨[], by rw [hs, List.append_nil], .nothing⟩
    obtain ⟨sts, rfl, set⟩ := Target.setBy_of_batchActions hd (hn b List.mem_cons_self) compiled
    rcases cases_of_bind h with ⟨e, rfl, hx⟩ | ⟨result', s₂, hx, h⟩
    · obtain ⟨sent, hs, pre, _⟩ := sent_of_runActions hx
      exact ⟨sent, hs, [b], rest, [sts], rfl, .cons set .nil, by simpa using pre, nofun⟩
    · obtain ⟨first, hfirst, _, all⟩ := sent_of_runActions hx
      rw [all _ rfl] at hfirst
      obtain ⟨sent, hs, divided⟩ := ih (fun b hb => hn b (List.mem_cons_of_mem _ hb)) h
      refine ⟨sts ++ sent, ?_, divided.cons set⟩
      rw [hs, hfirst, List.append_assoc]
      rfl

end Divided
end Run
end SyntheticRows
