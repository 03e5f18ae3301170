import SyntheticRows.Proofs.Compile.Batch
import SyntheticRows.Proofs.Compile.Rebuild
import SyntheticRows.Proofs.Run.Outcome
import SyntheticRows.Run.Transformation

/-!
# Configuration errors while rows are transformed

All batches are checked for columns assigned twice before anything is sent, but each is compiled
right before its own statements are executed. So a configuration error finds the database as it was
only if the first batch that does something is itself the one that does not compile.
-/
namespace SyntheticRows
open Sql

namespace Run

variable {α β : Type}

theorem outcome_tryCatch (x : Run α) (f : Error → Run α) (c : Connection) (s : Session) :
    outcome (tryCatch x f) c s =
      match outcome x c s with
      | (.ok a, s') => (.ok a, s')
      | (.error e, s') => outcome (f e) c s' := by
  show ExceptT.tryCatch (x c) (fun e => f e c) s = _
  simp only [outcome, ReaderT.run, ExceptT.run, StateT.run, ExceptT.tryCatch, ExceptT.mk, bind,
    StateT.bind]
  rcases x c s with ⟨_ | _, _⟩ <;> rfl

theorem outcome_logAll (warnings : List String) (c : Connection) (s : Session) :
    outcome (warnings.forM (log .warning)) c s =
      (.ok (), { s with logs := s.logs ++ warnings.map (⟨.warning, ·⟩) }) := by
  induction warnings generalizing s with
  | nil =>
    show (_, s) = _
    simp
  | cons w rest ih =>
    show outcome (log .warning w >>= fun _ => rest.forM (log .warning)) c s = _
    rw [outcome_bind, outcome_log]
    refine (ih _).trans ?_
    simp

/-- A compilation only leaves its warnings behind. -/
theorem outcome_compile (x : Warned α) (c : Connection) (s : Session) :
    outcome (compile x) c s =
      (x.result, { s with logs := s.logs ++ (x.run.run []).2.map (⟨.warning, ·⟩) }) := by
  show outcome ((x.run.run []).2.forM (log .warning) >>= fun _ => liftM (x.run.run []).1) c s = _
  rw [outcome_bind, outcome_logAll]
  rfl

/-- A compilation that fails ends the run, and one that does not is what the run goes on with. -/
theorem cases_of_compile_bind {x : Warned α} {f : α → Run β} {c : Connection} {s s' : Session}
    {r : Except Error β} (h : outcome (compile x >>= f) c s = (r, s')) :
    ∃ logs, (∃ e, r = .error e ∧ x.result = .error e ∧ s' = { s with logs }) ∨
      ∃ a, x.result = .ok a ∧ outcome (f a) c { s with logs } = (r, s') := by
  rw [outcome_bind, outcome_compile] at h
  refine ⟨s.logs ++ (x.run.run []).2.map (⟨.warning, ·⟩), ?_⟩
  cases hx : x.result with
  | error e =>
    rw [hx] at h
    cases h
    exact .inl ⟨e, rfl, rfl, rfl⟩
  | ok a =>
    rw [hx] at h
    exact .inr ⟨a, rfl, h⟩

theorem ok_of_compile_bind {x : Warned α} {f : α → Run β} {c : Connection} {s s' : Session} {b : β}
    (h : outcome (compile x >>= f) c s = (.ok b, s')) :
    ∃ a logs, x.result = .ok a ∧ outcome (f a) c { s with logs } = (.ok b, s') := by
  obtain ⟨logs, ⟨_, he, _⟩ | ⟨a, hx, h⟩⟩ := cases_of_compile_bind h
  · cases he
  · exact ⟨a, logs, hx, h⟩

/-- What was sent before the run was sent. -/
def Grows (s s' : Session) : Prop := s.statements <+: s'.statements

theorem Grows.refl (s : Session) : Grows s s := List.prefix_refl _

theorem Grows.trans {a b d : Session} (h : Grows a b) (h' : Grows b d) : Grows a d :=
  List.IsPrefix.trans h h'

theorem Grows.of_events {s s' : Session} (h : s.events <+: s'.events) : Grows s s' :=
  h.filterMap _

/-- A run put together from runs that only send more only sends more. -/
theorem grows_bind {x : Run α} {f : α → Run β} : Keeps Grows x → (∀ a, Keeps Grows (f a)) →
    Keeps Grows (x >>= f) := .bind .trans

theorem grows_lift (x : Except Error α) : Keeps Grows (liftM x : Run α) := .lift .refl x

theorem grows_send (event : Event) (text title : String) : Keeps Grows (send event text title) := by
  intro c s
  rw [outcome_send]
  split
  · split
    · exact .of_events (List.prefix_append _ _)
    · exact .of_events (List.prefix_append _ _)
  · exact .refl s

theorem grows_execute (st : Statement) : Keeps Grows (execute st) := by
  intro c s
  rw [outcome_execute]
  exact grows_send _ _ _ c s

theorem grows_compile (x : Warned α) : Keeps Grows (compile x) := by
  intro c s
  rw [outcome_compile]
  exact .refl _

/-- A step that fails leaves the session as its action left it, but for the log. -/
theorem keeps_replacementStep {R : Session → Session → Prop}
    (hl : ∀ {a b logs}, R a b → R a { b with logs }) (table : Value) (step : ReplacementStep)
    (orphans : List String) {action : Run Unit} (h : Keeps R action) :
    Keeps R (replacementStep table step orphans action) := by
  intro c s
  have ha := h c s
  rw [replacementStep, outcome_tryCatch]
  rcases hr : outcome action c s with ⟨e | _, s₁⟩
  · rw [hr] at ha
    cases e with
    | statementFailed reason => exact hl ha
    | _ => exact ha
  · rwa [hr] at ha

theorem grows_newShadowNames (table : Value) : Keeps Grows (newShadowNames table) := by
  unfold newShadowNames
  refine grows_bind (fun _ s => .refl s) fun _ => ?_
  refine grows_bind (fun _ s => .refl s) fun _ => ?_
  refine grows_bind (fun _ s => .refl s) fun _ => ?_
  exact grows_bind (grows_lift _) fun _ => .pure .refl _

/-- The steps of a replacement that leave tables behind if they fail. -/
def finishReplacement (t : Target) (table : Value) (shadow old : String) (populate : Statement) :
    Run Unit := do
  replacementStep table .populate [shadow] (execute populate)
  replacementStep table .rename [shadow] do
    execute (← t.exchangeTables table (.text shadow) (.text old))
  replacementStep table .drop [old] do
    execute (← t.dropTable (.text old))

theorem grows_finishReplacement (t : Target) (table : Value) (shadow old : String)
    (populate : Statement) : Keeps Grows (finishReplacement t table shadow old populate) := by
  have executed (st : Except Error Statement) : Keeps Grows (do execute (← st)) :=
    grows_bind (grows_lift _) grows_execute
  refine grows_bind (keeps_replacementStep id _ _ _ (grows_execute _)) fun _ => ?_
  exact grows_bind (keeps_replacementStep id _ _ _ (executed _)) fun _ =>
    keeps_replacementStep id _ _ _ (executed _)

theorem grows_replaceTable (columns : List Value) (p : ReplacementPass) :
    Keeps Grows (replaceTable columns p) := by
  have target : Keeps Grows target := fun _ s => .refl s
  unfold replaceTable
  refine grows_bind target fun t => ?_
  refine grows_bind (grows_newShadowNames _) fun names => ?_
  refine grows_bind (grows_compile _) fun populate => ?_
  refine grows_bind (grows_lift _) fun create => ?_
  exact grows_bind (grows_execute _) fun _ => grows_finishReplacement _ _ _ _ _

theorem grows_runActions (columns : List Value) (result : TransformResult)
    (actions : List Action) : Keeps Grows (runActions columns result actions) := by
  induction actions generalizing result with
  | nil => exact .pure .refl _
  | cons a rest ih =>
    cases a with
    | run st => exact grows_bind (grows_execute st) fun _ => ih _
    | replace p => exact grows_bind (grows_replaceTable columns p) fun _ => ih _

theorem grows_applyBatches (strict : Bool) (columns : List Value) (result : TransformResult)
    (batches : List Batch) : Keeps Grows (applyBatches strict columns result batches) := by
  induction batches generalizing result with
  | nil => exact .pure .refl _
  | cons b rest ih =>
    refine grows_bind (grows_lift _) fun _ => ?_
    refine grows_bind (fun _ s => .refl s) fun _ => ?_
    refine grows_bind (grows_compile _) fun actions => ?_
    exact grows_bind (grows_runActions columns result actions) fun _ => ih _

end Run

/-- The content of the shadow, which a replacement compiles before it sends anything. -/
def Target.shadowContent (t : Target) (columns : List Value) (now : Int) (tag : Nat)
    (p : ReplacementPass) : Warned Statement :=
  t.populateShadow (.text (shadowName p.tableName .new now tag)) ⟨p.tableName, columns, p.strict⟩
    p.transformations

/-- The action compiles as far as its first statement; `tag` numbers its replacement. -/
def Action.Opens (t : Target) (columns : List Value) (now : Int) (tag : Nat) : Action → Prop
  | .run _ => True
  | .replace p => ∃ st, (t.shadowContent columns now tag p).result = .ok st

/-- The batch compiles as far as the first statement that it sends. -/
def Batch.Opens (t : Target) (scope : Target.Scope) (now : Int) (tag : Nat) (b : Batch) : Prop :=
  ∃ actions, (t.batchActions scope b).result = .ok actions ∧
    ∀ a ∈ actions.head?, a.Opens t scope.columns now tag

/-- The first of the batches that does something. -/
def firstActive (batches : List Batch) : Option Batch := batches.find? (!·.active.isEmpty)

theorem firstActive_of_active {b : Batch} (hb : b.active ≠ []) (rest : List Batch) :
    firstActive (b :: rest) = some b :=
  List.find?_cons_of_pos (by simpa using hb)

theorem firstActive_of_inactive {b : Batch} (hb : b.active = []) (rest : List Batch) :
    firstActive (b :: rest) = firstActive rest :=
  List.find?_cons_of_neg (by simp [hb])

namespace Target

/-- A batch in which nothing is active can only fail for the name of the table, and then every
batch does. -/
theorem not_returns_of_inactive {t : Target} {scope : Scope} {b b' : Batch} {e : Error}
    {actions : List Action} (hb : b.active = []) (h : (t.batchActions scope b).result = .error e)
    (h' : Returns (t.batchActions scope b') actions) : False := by
  unfold batchActions at h h'
  cases hd : t.dialect with
  | core =>
    simp only [hd, sharedUpdate, hb] at h
    cases h
  | of engine =>
    cases engine with
    | trino =>
      simp only [hd] at h h'
      obtain ⟨table, _, ht, _⟩ := trinoUpdates_returns h'
      simp only [trinoUpdates, hb, ht] at h
      cases h
    | clickhouse =>
      simp only [hd, clickhouseActions, hb] at h
      cases h
    | _ =>
      simp only [hd, sharedUpdate, hb] at h
      cases h

end Target

namespace Run

theorem outcome_newShadowNames (table : Value) (c : Connection) (s : Session) :
    outcome (newShadowNames table) c s =
      ((fun _ => (shadowName table .new c.now (s.replacements + 1),
          shadowName table .old c.now (s.replacements + 1))) <$> writable [table],
        { s with replacements := s.replacements + 1 }) := by
  unfold newShadowNames
  simp only [outcome_bind, outcome_read, outcome_get, outcome_modify, outcome_lift]
  cases writable [table] <;> rfl

/-- The run does not end with an error of another kind than a configuration error. -/
def Regular (r : Except Error α) : Prop := ∀ e, r = .error e → e.isConfiguration = true

theorem statements_of_newShadowNames {table : Value} {c : Connection} {s s' : Session}
    {names : String × String} (h : outcome (newShadowNames table) c s = (.ok names, s')) :
    names = (shadowName table .new c.now (s.replacements + 1),
      shadowName table .old c.now (s.replacements + 1)) ∧ s'.statements = s.statements := by
  rw [outcome_newShadowNames] at h
  cases hw : writable [table] with
  | error e => simp [hw, Functor.map, Except.map] at h
  | ok _ =>
    simp only [hw, Functor.map, Except.map, Prod.mk.injEq, Except.ok.injEq] at h
    obtain ⟨rfl, rfl⟩ := h
    exact ⟨rfl, rfl⟩

theorem neverRefuses_newShadowNames (table : Value) : NeverRefuses (newShadowNames table) := by
  intro c s e s' h
  rw [outcome_newShadowNames] at h
  cases hw : writable [table] with
  | error e' =>
    simp only [hw, Functor.map, Except.map, Prod.mk.injEq, Except.error.injEq] at h
    rw [← h.1]
    exact writable_error hw
  | ok _ => simp [hw, Functor.map, Except.map] at h

/-- A replacement whose content does not compile sends nothing. -/
theorem replaceTable_of_error {columns : List Value} {p : ReplacementPass} {c : Connection}
    {s : Session} {e : Error}
    (hp : (c.target.shadowContent columns c.now (s.replacements + 1) p).result = .error e) :
    ∃ e' s', outcome (replaceTable columns p) c s = (.error e', s') ∧
      s'.statements = s.statements := by
  rcases h : outcome (replaceTable columns p) c s with ⟨r, s'⟩
  replace h := of_target_bind h
  rcases cases_of_bind h with ⟨e', rfl, hn⟩ | ⟨names, s₁, hn, h⟩
  · rw [outcome_newShadowNames, Prod.mk.injEq] at hn
    exact ⟨e', s', rfl, by rw [← hn.2]; rfl⟩
  obtain ⟨rfl, hs₁⟩ := statements_of_newShadowNames hn
  rw [← hs₁]
  obtain ⟨logs, ⟨e', rfl, _, rfl⟩ | ⟨populate, hc, _⟩⟩ := cases_of_compile_bind h
  · exact ⟨e', _, rfl, rfl⟩
  · cases hp.symm.trans hc

/-- A replacement whose content compiles creates the shadow. -/
theorem replaceTable_of_ok {columns : List Value} {p : ReplacementPass} {c : Connection}
    {s s' : Session} {st : Statement} {r : Except Error Unit}
    (hp : (c.target.shadowContent columns c.now (s.replacements + 1) p).result = .ok st)
    (hr : Regular r) (h : outcome (replaceTable columns p) c s = (r, s')) :
    s.statements.length < s'.statements.length := by
  replace h := of_target_bind h
  rcases cases_of_bind h with ⟨e, he, hn⟩ | ⟨names, s₁, hn, h⟩
  · cases (neverRefuses_newShadowNames _ c s e s' hn).symm.trans (hr e he)
  obtain ⟨rfl, hs₁⟩ := statements_of_newShadowNames hn
  rw [← hs₁]
  obtain ⟨logs, ⟨_, _, hc, _⟩ | ⟨populate, hc, h⟩⟩ := cases_of_compile_bind h
  · cases hp.symm.trans hc
  obtain ⟨create, hcreate⟩ := Target.createShadow_of_populateShadow (returns_of_result hc)
  rcases cases_of_lift_bind h with ⟨_, _, refused, _⟩ | ⟨_, compiled, h⟩
  · cases hcreate.symm.trans refused
  cases hcreate.symm.trans compiled
  rcases cases_of_bind h with ⟨e, he, hx⟩ | ⟨_, s₂, hx, h⟩
  · cases (neverRefuses_execute create c _ e s' hx).symm.trans (hr e he)
  have rest := ((grows_finishReplacement _ _ _ _ _).outcome h).length_le
  rw [statements_of_execute hx, List.length_append] at rest
  exact rest

/-- Actions whose first one does not compile as far as a statement send nothing. -/
theorem runActions_of_not_opens {columns : List Value} {result : TransformResult} {a : Action}
    {rest : List Action} {c : Connection} {s : Session}
    (ha : ¬ a.Opens c.target columns c.now (s.replacements + 1)) :
    ∃ e s', outcome (runActions columns result (a :: rest)) c s = (.error e, s') ∧
      s'.statements = s.statements := by
  cases a with
  | run st => exact (ha trivial).elim
  | replace p =>
    cases hp : (c.target.shadowContent columns c.now (s.replacements + 1) p).result with
    | ok st => exact (ha ⟨st, hp⟩).elim
    | error e =>
      obtain ⟨e', s', h, hs⟩ := replaceTable_of_error hp
      exact ⟨e', s', by simp only [runActions, outcome_bind, h], hs⟩

theorem runActions_of_opens {columns : List Value} {result : TransformResult} {a : Action}
    {rest : List Action} {c : Connection} {s s' : Session} {r : Except Error TransformResult}
    (ha : a.Opens c.target columns c.now (s.replacements + 1)) (hr : Regular r)
    (h : outcome (runActions columns result (a :: rest)) c s = (r, s')) :
    s.statements.length < s'.statements.length := by
  cases a with
  | run st =>
    rcases cases_of_bind h with ⟨e, he, hx⟩ | ⟨_, s₁, hx, h⟩
    · cases (neverRefuses_execute st c _ e s' hx).symm.trans (hr e he)
    · have rest := ((grows_runActions _ _ _).outcome h).length_le
      rw [statements_of_execute hx, List.length_append] at rest
      exact rest
  | replace p =>
    obtain ⟨st, hp⟩ := ha
    rcases cases_of_bind h with ⟨e, he, hx⟩ | ⟨_, s₁, hx, h⟩
    · exact replaceTable_of_ok (r := .error e) hp (by rintro _ ⟨⟩; exact hr e he) hx
    · have first := replaceTable_of_ok (r := .ok _) hp (by rintro _ ⟨⟩) hx
      have rest := ((grows_runActions _ _ _).outcome h).length_le
      omega

/-- Actions that end with a configuration error, in themselves or in what is run after them, have
sent nothing exactly if the first one does not open. -/
theorem statements_of_runActions_refused {columns : List Value} {result : TransformResult}
    {a : Action} {rest : List Action} {f : TransformResult → Run β} {c : Connection}
    {s s' : Session} {e : Error} (hf : ∀ result', Keeps Grows (f result'))
    (he : e.isConfiguration = true)
    (h : outcome (runActions columns result (a :: rest) >>= f) c s = (.error e, s')) :
    s'.statements = s.statements ↔ ¬a.Opens c.target columns c.now (s.replacements + 1) := by
  constructor
  · intro same ha
    have sent : s.statements.length < s'.statements.length := by
      rcases error_of_bind h with hr | ⟨result', s₁, hr, h⟩
      · exact runActions_of_opens (r := .error e) ha (by rintro _ ⟨⟩; exact he) hr
      · have first := runActions_of_opens (r := .ok result') ha (by rintro _ ⟨⟩) hr
        have later := ((hf result').outcome h).length_le
        omega
    rw [same] at sent
    omega
  · intro ha
    obtain ⟨e', s₁, hr, hs⟩ := runActions_of_not_opens ha
    rw [outcome_bind, hr] at h
    cases h
    exact hs

/-- A batch is compiled, then its actions run, and then the other batches are applied. A
configuration error before the actions is one of the compilation. -/
theorem cases_of_firstBatch {strict : Bool} {columns : List Value} {result : TransformResult}
    {b : Batch} {rest : List Batch} {c : Connection} {s s' : Session}
    {r : Except Error TransformResult}
    (h : outcome (applyBatches strict columns result (b :: rest)) c s = (r, s')) :
    ∃ logs, (∃ e, r = .error e ∧ s' = { s with logs } ∧ (e.isConfiguration = true →
        (c.target.batchActions ⟨result.tableName, columns, strict⟩ b).result = .error e)) ∨
      ∃ actions,
        (c.target.batchActions ⟨result.tableName, columns, strict⟩ b).result = .ok actions ∧
        outcome (runActions columns result actions >>= fun result' =>
          applyBatches strict columns result' rest) c { s with logs } = (r, s') := by
  rcases cases_of_lift_bind h with ⟨e, rfl, hw, rfl⟩ | ⟨_, _, h⟩
  · refine ⟨s'.logs, .inl ⟨e, rfl, rfl, fun he => ?_⟩⟩
    cases (writable_error hw).symm.trans he
  obtain ⟨logs, ⟨e, rfl, hc, rfl⟩ | ⟨actions, hc, h⟩⟩ := cases_of_compile_bind (of_target_bind h)
  · exact ⟨logs, .inl ⟨e, rfl, rfl, fun _ => hc⟩⟩
  · exact ⟨logs, .inr ⟨actions, hc, h⟩⟩

theorem ok_of_firstBatch {strict : Bool} {columns : List Value} {result result' : TransformResult}
    {b : Batch} {rest : List Batch} {c : Connection} {s s' : Session}
    (h : outcome (applyBatches strict columns result (b :: rest)) c s = (.ok result', s')) :
    ∃ actions logs result₁ s₁,
      (c.target.batchActions ⟨result.tableName, columns, strict⟩ b).result = .ok actions ∧
      outcome (runActions columns result actions) c { s with logs } = (.ok result₁, s₁) ∧
      outcome (applyBatches strict columns result₁ rest) c s₁ = (.ok result', s') := by
  obtain ⟨logs, ⟨_, he, _⟩ | ⟨actions, compiled, h⟩⟩ := cases_of_firstBatch h
  · cases he
  obtain ⟨result₁, s₁, hrun, later⟩ := ok_of_bind h
  exact ⟨actions, logs, result₁, s₁, compiled, hrun, later⟩

/-- Batches that end with a configuration error have sent something exactly if the first one that
does something opens. -/
theorem applyBatches_configuration {strict : Bool} {columns : List Value}
    {result : TransformResult} {batches : List Batch} {c : Connection} {s s' : Session}
    {e : Error} (he : e.isConfiguration = true)
    (h : outcome (applyBatches strict columns result batches) c s = (.error e, s')) :
    s.statements.length ≤ s'.statements.length ∧
      (s'.statements = s.statements ↔ ¬∃ b, firstActive batches = some b ∧
        b.Opens c.target ⟨result.tableName, columns, strict⟩ c.now (s.replacements + 1)) := by
  refine ⟨((grows_applyBatches _ _ _ _).outcome h).length_le, ?_⟩
  induction batches generalizing result s with
  | nil => cases h
  | cons b rest ih =>
    obtain ⟨logs, ⟨_, ⟨⟩, rfl, refused⟩ | ⟨actions, hc, h⟩⟩ := cases_of_firstBatch h
    · refine ⟨fun _ => ?_, fun _ => rfl⟩
      rintro ⟨b', hf, actions, hb', _⟩
      by_cases hb : b.active = []
      · exact Target.not_returns_of_inactive hb (refused he) (returns_of_result hb')
      · rw [firstActive_of_active hb, Option.some.injEq] at hf
        subst hf
        cases (refused he).symm.trans hb'
    have empty := Target.batchActions_eq_nil (returns_of_result hc)
    by_cases hb : b.active = []
    · -- Nothing is done for this batch, so the rest decides.
      rw [empty.2 hb] at h
      rw [firstActive_of_inactive hb]
      have tail := ih h
      exact tail
    rw [firstActive_of_active hb]
    cases actions with
    | nil => exact (hb (empty.1 rfl)).elim
    | cons a tail =>
      refine (statements_of_runActions_refused (grows_applyBatches _ _ · _) he h).trans
        (not_congr ⟨fun ha => ⟨b, rfl, a :: tail, hc, ?_⟩, ?_⟩)
      · rintro _ ⟨⟩
        exact ha
      · rintro ⟨_, ⟨⟩, actions, hb', opens⟩
        cases hc.symm.trans hb'
        exact opens a rfl

/-- The check of all batches sends nothing. -/
theorem outcome_checkAll (table : Value) (batches : List Batch) (c : Connection) (s : Session) :
    ∃ r, outcome (batches.forM fun b => liftM (b.checkAssignments table)) c s = (r, s) ∧
      (r = .ok () ↔ ∀ b ∈ batches, b.checkAssignments table = .ok ()) := by
  induction batches with
  | nil => exact ⟨.ok (), rfl, by simp⟩
  | cons b rest ih =>
    obtain ⟨r, hr, all⟩ := ih
    cases hb : b.checkAssignments table with
    | error e =>
      refine ⟨.error e, ?_, by simp [hb]⟩
      show outcome (liftM (b.checkAssignments table) >>= fun _ => _) c s = _
      rw [outcome_bind, outcome_lift, hb]
    | ok u =>
      refine ⟨r, ?_, by simp [hb, all]⟩
      show outcome (liftM (b.checkAssignments table) >>= fun _ => _) c s = _
      rw [outcome_bind, outcome_lift, hb]
      exact hr

/-- The query for the columns is refused only on Trino, for a name that every table has. -/
theorem columnsQuery_error {t : Target} {e : Error} {engine : Engine} (ht : t.dialect = .of engine)
    (h : t.columnsQuery = .error e) (table : Value) :
    t.dialect = .of .trino ∧ t.tableRef table = .error e := by
  unfold Target.columnsQuery at h
  cases engine with
  | trino =>
    have trino : t.isTrino = true := by simp [Target.isTrino, ht]
    simp only [ht, Dialect.engine] at h
    rcases except_error_of_bind h with h | ⟨_, hx, h⟩
    · cases h
    cases hx
    rcases except_error_of_bind h with h | ⟨_, _, h⟩
    · rcases except_error_of_bind h with h | ⟨_, _, h⟩
      · refine ⟨ht, ?_⟩
        simp only [Target.tableRef, Target.qualifiers, trino, h]
        rfl
      · cases h
    · cases h
  | _ =>
    simp only [ht, Dialect.engine] at h
    cases h

theorem columnNames_configuration {table : Value} {c : Connection} {s s' : Session} {e : Error}
    (he : e.isConfiguration = true) (h : outcome (columnNames table) c s = (.error e, s')) :
    s' = s ∧ c.target.columnsQuery = .error e := by
  rcases error_of_lift_bind (of_target_bind h) with ⟨refused, rfl⟩ | ⟨q, _, h⟩
  · exact ⟨rfl, refused⟩
  rcases error_of_bind h with h | ⟨_, _, _, h⟩
  · cases (neverRefuses_query _ c s e s' h).symm.trans he
  · cases h

/-- The columns are the first answer to come. -/
theorem columnNames_ok {table : Value} {c : Connection} {s s' : Session} {columns : List Value}
    (h : outcome (columnNames table) c s = (.ok columns, s')) :
    columns = firstFields s.database.answer.1 ∧ s'.statements = s.statements ∧
      s'.replacements = s.replacements := by
  obtain ⟨q, -, h⟩ := ok_of_lift_bind (of_target_bind h)
  obtain ⟨r, s₂, hr, h⟩ := ok_of_bind h
  obtain ⟨_, s₃, hs, hr⟩ := ok_of_bind hr
  rw [outcome_send] at hs
  split at hs
  · split at hs <;> cases hs
    rw [outcome_nextResult] at hr
    cases hr
    cases h
    refine ⟨?_, ?_, rfl⟩
    · simp only [Database.answer, Session.after_results]
      cases s.database.results <;> rfl
    · simp [Session.statements, Event.statement?]
  · cases hs

theorem checkAssignments_of_empty {b : Batch} (table : Value) (hb : b.transformations = []) :
    b.checkAssignments table = .ok () := by
  simp only [Batch.checkAssignments, Batch.active, hb]
  rfl

/-- A transformation that is refused has sent a statement exactly if no batch assigns a column
twice and the first batch that does something compiles as far as its first statement: then it is a
later batch, or a later part of that one, that is refused. -/
theorem statements_of_applyTransformations_refused {strict : Bool} {table : Value}
    {batches : List Batch} {c : Connection} {s s' : Session} {e : Error}
    (h : outcome (applyTransformations strict table batches) c s = (.error e, s'))
    (he : e.isConfiguration = true) :
    s'.statements ≠ s.statements ↔ (∀ b ∈ batches, b.checkAssignments table = .ok ()) ∧
      ∃ b, firstActive batches = some b ∧ b.Opens c.target
        ⟨table, firstFields s.database.answer.1, strict⟩ c.now (s.replacements + 1) := by
  have checked : (∀ b ∈ batches.filter (!·.transformations.isEmpty),
      b.checkAssignments table = .ok ()) ↔ ∀ b ∈ batches, b.checkAssignments table = .ok () := by
    refine ⟨fun hc b hb => ?_, fun hc b hb => hc b (List.mem_of_mem_filter hb)⟩
    by_cases hn : b.transformations = []
    · exact checkAssignments_of_empty table hn
    · exact hc b (List.mem_filter.2 ⟨hb, by simpa using hn⟩)
  have first : firstActive (batches.filter (!·.transformations.isEmpty)) = firstActive batches := by
    rw [firstActive, firstActive, List.find?_filter]
    congr 1
    funext b
    rw [Bool.eq_iff_iff]
    by_cases hn : b.transformations = []
    · simp [Batch.active, hn]
    · simp [hn]
  rw [← checked, ← first]
  unfold applyTransformations at h
  generalize batches.filter (!·.transformations.isEmpty) = kept at h ⊢
  by_cases hk : kept.isEmpty = true
  · simp only [hk, if_true] at h
    cases h
  simp only [hk] at h
  obtain ⟨r, hr, all⟩ := outcome_checkAll table kept c s
  rcases error_of_bind h with h | ⟨_, _, hc, h⟩
  · rw [hr, Prod.mk.injEq] at h
    obtain ⟨rfl, rfl⟩ := h
    simp [← all]
  rw [hr, Prod.mk.injEq] at hc
  obtain ⟨rfl, rfl⟩ := hc
  refine Iff.trans ?_ (and_iff_right (all.1 rfl)).symm
  rcases error_of_bind h with h | ⟨columns, s₁, hcolumns, h⟩
  · obtain ⟨rfl, hq⟩ := columnNames_configuration he h
    obtain ⟨hd, ht⟩ := columnsQuery_error rfl hq table
    refine ⟨fun hs => (hs rfl).elim, ?_⟩
    rintro ⟨b, _, actions, hb, _⟩
    replace hb := returns_of_result hb
    unfold Target.batchActions at hb
    rw [hd] at hb
    obtain ⟨path, _, hp, _⟩ := Target.trinoUpdates_returns hb
    cases ht.symm.trans hp
  · obtain ⟨rfl, hs, hn⟩ := columnNames_ok hcolumns
    have sent := applyBatches_configuration he h
    rw [hs, hn] at sent
    rw [ne_eq, sent.2, not_not]

/-- Two batches of one template each for the column `a` of a table. -/
def templateBatches (first second : String) : List Batch :=
  [{ transformations := [.template { column := .text "a", template := .text first }] },
    { transformations := [.template { column := .text "a", template := .text second }] }]

/-- Strict templates on a table with the columns `a` and `b`; the second names a column `c`. -/
def strictTransformation : Except Error TransformResult × Session :=
  outcome (applyTransformations true (.text "t") (templateBatches "\x7bb\x7d" "\x7bc\x7d"))
    { config := { driver := .sqlite }, now := 0 }
    { isOpen := true, database := { results := [{ rows := [[.text "a"], [.text "b"]] }] } }

theorem strictTransformation_refused : ∃ e s', strictTransformation = (.error e, s') ∧
    e.isConfiguration = true ∧ s'.statements.length = 1 := by
  have h : (failure? strictTransformation.1).any Error.isConfiguration = true ∧
      strictTransformation.2.statements.length = 1 := by decide +kernel
  rcases hu : strictTransformation with ⟨e | r, s'⟩
  · rw [hu] at h
    exact ⟨e, s', rfl, by simpa [failure?] using h.1, h.2⟩
  · rw [hu] at h
    simp [failure?] at h

theorem statements_of_strictTransformation : ∃ e s', strictTransformation = (.error e, s') ∧
    e.isConfiguration = true ∧ (s'.statements ≠ [] ↔
      (∀ b ∈ templateBatches "\x7bb\x7d" "\x7bc\x7d", b.checkAssignments (.text "t") = .ok ()) ∧
        ∃ b, firstActive (templateBatches "\x7bb\x7d" "\x7bc\x7d") = some b ∧
          b.Opens { dialect := .of .sqlite } ⟨.text "t", [.text "a", .text "b"], true⟩ 0 1) := by
  obtain ⟨e, s', h, he, _⟩ := strictTransformation_refused
  exact ⟨e, s', h, he, statements_of_applyTransformations_refused h he⟩

/-- The first batch is executed before the second one is refused. -/
theorem executed_before_refusal : ∃ e s', strictTransformation = (.error e, s') ∧
    e.isConfiguration = true ∧ s'.statements ≠ [] := by
  obtain ⟨e, s', h, he, hs⟩ := strictTransformation_refused
  refine ⟨e, s', h, he, fun hn => ?_⟩
  rw [hn] at hs
  cases hs

end Run
end SyntheticRows
