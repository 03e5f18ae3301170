import SyntheticRows.Proofs.Run.GeneratedRows
import SyntheticRows.Proofs.Run.TransformedRows
import SyntheticRows.Run.Scenario

/-!
# The course of a scenario

What the steps of a scenario send and report, one after the other, if tables are created where they
are not there. The tables that were generated before are all that a step knows of the others.
-/
namespace SyntheticRows
open Sql

/-- How many rows a step writes into a table. -/
def Step.rowsInto? (name : String) : Step → Option ℕ
  | .generate g => if (Value.text name).same g.table.name then some g.rowCount else none
  | .transform _ => none

/-- The rows that the steps write into a table, step by step. -/
def rowsInto (name : String) (steps : List Step) : List ℕ := steps.filterMap (Step.rowsInto? name)

/-- The tables that were generated once the step is done. -/
def Step.generatedAfter (generated : List Value) : Step → List Value
  | .generate g => g.table.name :: generated
  | .transform _ => generated

/-- The progress once a step has reported. -/
def Progress.reported (p : Progress) (step : Step) (r : StepResult) : Progress where
  result := { p.result with
    steps := p.result.steps ++ [r]
    totalRows := p.result.totalRows + (r.generate.map (·.rowsInserted)).getD 0 }
  generated := step.generatedAfter p.generated
  touched := if step.tableName.memberOf p.touched then p.touched
    else p.touched ++ [step.tableName]

namespace Run

variable {c : Connection} {s s' : Session} {settings : GenerationSettings}
  {generated : List Value} {step : Step} {steps : List Step} {sent : List Statement}
  {p p' : Progress}

/-- What a step sends and reports, given the tables that were generated before. -/
inductive Proceeds (c : Connection) (settings : GenerationSettings) (generated : List Value) :
    Step → List Statement → StepResult → Prop
  | generate {g : GenerateStep} {path : Path} {before : List Statement} {origin : ℤ}
    {sizes : List ℕ} {inserts : List Insert} {changes : List Statement} {r : GenerateResult}
    {transform : Option TransformResult} :
    c.target.tableRef g.table.name = .ok path →
    Prepares settings path (settings.dropFirst && !g.table.name.memberOf generated) before →
    Divides g.rowCount settings.batchSize sizes →
    List.Forall₂ (fun b i => c.target.insertRows c.now g.table (b.2 : ℕ) b.1 = .ok (.insert i))
      (blocks origin sizes) inserts →
    Transformed c changes → (g.batches = [] → changes = []) → r.rowsInserted = g.rowCount →
    Proceeds c settings generated (.generate g) (before ++ inserts.map .insert ++ changes)
      { tableName := g.table.name, generate := some r, transform }
  | transform {g : TransformStep} {changes : List Statement} {r : TransformResult} :
    Transformed c changes →
    Proceeds c settings generated (.transform g) changes
      { tableName := g.tableName, transform := some r }

/-- What the steps of a scenario send and report. -/
inductive Course (c : Connection) (settings : GenerationSettings) :
    List Value → List Step → List Statement → List StepResult → Prop
  | nil {generated : List Value} : Course c settings generated [] [] []
  | cons {generated : List Value} {step : Step} {steps : List Step}
    {first rest : List Statement} {r : StepResult} {rs : List StepResult} :
    Proceeds c settings generated step first r →
    Course c settings (step.generatedAfter generated) steps rest rs →
    Course c settings generated (step :: steps) (first ++ rest) (r :: rs)

/-- The runs of a step that end well, and what they report. Only a generation depends on the tables
that were generated before. -/
inductive StepRun (c : Connection) (settings : GenerationSettings) (generated : List Value)
    (s : Session) : Step → StepResult → Session → Prop
  | generate {g : GenerateStep} {r : GenerateResult} {s' : Session} :
    outcome (generateRows settings g.table g.rowCount
      (settings.dropFirst && !g.table.name.memberOf generated) false) c s = (.ok r, s') →
    g.batches.isEmpty = true →
    StepRun c settings generated s (.generate g)
      { tableName := g.table.name, generate := some r } s'
  | generateAndTransform {g : GenerateStep} {r : GenerateResult} {t : TransformResult}
    {s₁ s' : Session} :
    outcome (generateRows settings g.table g.rowCount
      (settings.dropFirst && !g.table.name.memberOf generated) false) c s = (.ok r, s₁) →
    g.batches.isEmpty = false →
    outcome (applyTransformations settings.strictTemplates g.table.name g.batches) c s₁ =
      (.ok t, s') →
    StepRun c settings generated s (.generate g)
      { tableName := g.table.name, generate := some r, transform := some t } s'
  | transform {g : TransformStep} {t : TransformResult} {s' : Session} :
    outcome (applyTransformations settings.strictTemplates g.tableName g.batches) c s =
      (.ok t, s') →
    StepRun c settings generated s (.transform g)
      { tableName := g.tableName, transform := some t } s'

section Runs

theorem stepRun_of_runStep (h : outcome (runStep settings p step) c s = (.ok p', s')) :
    ∃ r, StepRun c settings p.generated s step r s' ∧ p' = p.reported step r := by
  unfold runStep at h
  obtain ⟨_, _, h⟩ := ok_of_lift_bind h
  cases step with
  | generate g =>
    obtain ⟨_, _, h⟩ := ok_of_lift_bind h
    by_cases key : g.table.name.isKey = true
    · simp only [Step.tableName, key, Bool.not_true, Bool.false_eq_true, if_false] at h
      obtain ⟨r, s₁, hrows, h⟩ := ok_of_bind h
      by_cases none : g.batches.isEmpty = true
      · rw [if_pos none] at h
        cases h
        exact ⟨_, .generate hrows none, rfl⟩
      · rw [if_neg none] at h
        obtain ⟨transform, s₂, htransform, h⟩ := ok_of_bind h
        obtain ⟨t, _, hrun, htransform⟩ := ok_of_bind htransform
        cases htransform
        cases h
        exact ⟨_, .generateAndTransform hrows (Bool.eq_false_iff.2 none) hrun, rfl⟩
    · simp only [Step.tableName, key, Bool.not_false, if_true] at h
      cases h
  | transform g =>
    obtain ⟨t, s₁, hrun, h⟩ := ok_of_bind h
    cases h
    exact ⟨_, .transform hrun, by simp [Progress.reported, Step.tableName, Step.generatedAfter]⟩

/-- What a generation sends, with the changes that may come after it. -/
theorem proceeds_of_generateRows (creates : settings.createTable = true) {g : GenerateStep}
    {r : GenerateResult}
    (h : outcome (generateRows settings g.table g.rowCount
      (settings.dropFirst && !g.table.name.memberOf generated) false) c s = (.ok r, s')) :
    ∃ first, s'.statements = s.statements ++ first ∧
      ∀ (changes : List Statement) (transform : Option TransformResult),
        Transformed c changes → (g.batches = [] → changes = []) →
        Proceeds c settings generated (.generate g) (first ++ changes)
          { tableName := g.table.name, generate := some r, transform } := by
  obtain ⟨before, origin, sizes, inserts, after, written⟩ := written_of_ok h
  obtain ⟨path, ht⟩ := tableRef_of_preparations creates written.prepared
  have prepares := prepares_of_preparations ht creates written.prepared
  have counted : r.rowsInserted = g.rowCount := congrArg GenerateResult.rowsInserted written.result
  -- maintenance waits for the end of the scenario
  obtain rfl : [] = after := Except.ok.inj written.maintained
  refine ⟨before ++ inserts.map .insert, by simpa using written.sent, ?_⟩
  intro changes transform transformed unchanged
  exact .generate ht prepares written.divides written.compiled transformed unchanged counted

theorem proceeds_of_stepRun (creates : settings.createTable = true) {r : StepResult}
    (h : StepRun c settings generated s step r s') :
    ∃ sent, s'.statements = s.statements ++ sent ∧ Proceeds c settings generated step sent r := by
  cases h with
  | generate hrows _ =>
    obtain ⟨first, sent, proceeds⟩ := proceeds_of_generateRows creates hrows
    exact ⟨first ++ [], by rw [sent, List.append_nil], proceeds [] none .nil fun _ => rfl⟩
  | generateAndTransform hrows some hrun =>
    obtain ⟨first, sent, proceeds⟩ := proceeds_of_generateRows creates hrows
    obtain ⟨changes, more, transformed⟩ := transformed_of_applyTransformations hrun
    refine ⟨first ++ changes, by rw [more, sent, List.append_assoc],
      proceeds changes _ transformed fun empty => ?_⟩
    rw [empty] at some
    cases some
  | transform hrun =>
    obtain ⟨changes, sent, transformed⟩ := transformed_of_applyTransformations hrun
    exact ⟨changes, sent, .transform transformed⟩

theorem course_of_foldlM (creates : settings.createTable = true)
    (h : outcome (steps.foldlM (runStep settings) p) c s = (.ok p', s')) :
    ∃ sent rs, s'.statements = s.statements ++ sent ∧
      Course c settings p.generated steps sent rs ∧ p'.result.steps = p.result.steps ++ rs := by
  induction steps generalizing p s with
  | nil =>
    cases h
    exact ⟨[], [], (List.append_nil _).symm, .nil, (List.append_nil _).symm⟩
  | cons step steps ih =>
    rw [List.foldlM_cons] at h
    obtain ⟨p₁, s₁, hstep, h⟩ := ok_of_bind h
    obtain ⟨r, run, rfl⟩ := stepRun_of_runStep hstep
    obtain ⟨first, sent₁, proceeds⟩ := proceeds_of_stepRun creates run
    obtain ⟨rest, rs, sent, course, reported⟩ := ih h
    refine ⟨first ++ rest, r :: rs, ?_, .cons proceeds course, ?_⟩
    · rw [sent, sent₁, List.append_assoc]
    · rw [reported]
      exact List.append_assoc ..

/-- The maintenance at the end of a scenario. -/
theorem maintenance_of_optimizes {tables : List Value}
    (h : outcome (tables.forM optimize) c s = (.ok (), s')) :
    ∃ after, s'.statements = s.statements ++ after ∧ ∀ st ∈ after, ∃ m, st = .maintain m := by
  induction tables generalizing s with
  | nil =>
    cases h
    exact ⟨[], (List.append_nil _).symm, nofun⟩
  | cons table tables ih =>
    obtain ⟨_, s₁, hone, h⟩ := ok_of_bind h
    obtain ⟨sts, hsts, hone⟩ := ok_of_optimize hone
    obtain ⟨after, sent, maintains⟩ := ih h
    refine ⟨sts ++ after, ?_, fun st hst => ?_⟩
    · rw [sent, statements_of_runAll hone, List.append_assoc]
    · exact (List.mem_append.1 hst).elim (Target.maintenance_eq hsts st) (maintains st)

/-- A scenario that returns has run its steps, and then the maintenance of the tables it lists. -/
theorem parts_of_runScenario {scenario : Scenario} {result : ScenarioResult}
    (h : outcome (runScenario settings scenario) c s = (.ok result, s')) :
    ∃ p s₁, outcome (scenario.steps.foldlM (runStep settings)
        { result := { name := scenario.name } }) c s = (.ok p, s₁) ∧
      result = { p.result with optimizedTables := if settings.optimize then p.touched else [] } ∧
      outcome (result.optimizedTables.forM optimize) c s₁ = (.ok (), s') := by
  unfold runScenario at h
  obtain ⟨_, _, h⟩ := ok_of_lift_bind h
  obtain ⟨p, s₁, hsteps, h⟩ := ok_of_bind h
  refine ⟨p, s₁, hsteps, ?_⟩
  by_cases optimizes : settings.optimize = true
  · simp only [optimizes, if_true] at h ⊢
    obtain ⟨_, _, hafter, h⟩ := ok_of_bind h
    obtain ⟨_, _, h⟩ := ok_of_lift_bind h
    cases h
    exact ⟨rfl, hafter⟩
  · simp only [optimizes] at h ⊢
    obtain ⟨_, _, h⟩ := ok_of_lift_bind h
    cases h
    exact ⟨rfl, rfl⟩

/-- A scenario that returns has sent what its steps send, and then maintenance. -/
theorem course_of_runScenario {scenario : Scenario} {result : ScenarioResult}
    (creates : settings.createTable = true)
    (h : outcome (runScenario settings scenario) c s = (.ok result, s')) :
    ∃ sent after, s'.statements = s.statements ++ (sent ++ after) ∧
      Course c settings [] scenario.steps sent result.steps ∧
      ∀ st ∈ after, ∃ m, st = .maintain m := by
  obtain ⟨p, s₁, hsteps, same, hafter⟩ := parts_of_runScenario h
  obtain ⟨sent, rs, sent₁, course, reported⟩ := course_of_foldlM creates hsteps
  obtain ⟨after, sent₂, maintains⟩ := maintenance_of_optimizes hafter
  refine ⟨sent, after, by rw [sent₂, sent₁, List.append_assoc], ?_, maintains⟩
  rw [List.nil_append] at reported
  rwa [same, reported]

end Runs

section Performed

/-- The steps only generate rows. -/
def OnlyGenerates (steps : List Step) : Prop :=
  ∀ step ∈ steps, ∃ g, step = .generate g ∧ g.batches = []

variable (R : Rules) (convert : Conversion)

theorem Proceeds.exists_performed {g : GenerateStep} {r : StepResult}
    (h : Proceeds c settings generated (.generate g) sent r) (plain : g.batches = []) (σ : Store) :
    ∃ σ', PerformsAll R convert σ sent σ' := by
  cases h with
  | generate ht prepares _ compiled _ unchanged _ =>
    rw [unchanged plain, List.append_nil]
    obtain ⟨σ₁, hbefore⟩ := prepares.exists_performed R convert σ
    obtain rfl := prepares.store hbefore
    obtain ⟨added, hinserts⟩ := exists_inserted ht R convert compiled Store.set_same
    exact ⟨_, Folded.append_iff.2 ⟨_, hbefore, hinserts⟩⟩

/-- What a scenario sends can be performed on any database if it only generates rows. -/
theorem Course.exists_performed {rs : List StepResult}
    (h : Course c settings generated steps sent rs) (plain : OnlyGenerates steps) (σ : Store) :
    ∃ σ', PerformsAll R convert σ sent σ' := by
  induction h generalizing σ with
  | nil => exact ⟨σ, .nil σ⟩
  | cons proceeds _ ih =>
    obtain ⟨g, rfl, none⟩ := plain _ List.mem_cons_self
    obtain ⟨σ₁, hfirst⟩ := proceeds.exists_performed R convert none σ
    obtain ⟨σ', hrest⟩ := ih (fun step hstep => plain step (List.mem_cons_of_mem _ hstep)) σ₁
    exact ⟨σ', Folded.append_iff.2 ⟨σ₁, hfirst, hrest⟩⟩

theorem exists_performed_of_runScenario {scenario : Scenario} {result : ScenarioResult}
    (creates : settings.createTable = true) (plain : OnlyGenerates scenario.steps)
    (h : outcome (runScenario settings scenario) c s = (.ok result, s'))
    (hsent : s'.statements = s.statements ++ sent) (σ : Store) :
    ∃ σ', PerformsAll R convert σ sent σ' := by
  obtain ⟨made, after, same, course, maintains⟩ := course_of_runScenario creates h
  rw [hsent, List.append_right_inj] at same
  subst same
  obtain ⟨σ', hx⟩ := course.exists_performed R convert plain σ
  exact ⟨σ', Folded.append_iff.2 ⟨σ', hx, (performsAll_maintenance maintains).2 rfl⟩⟩

end Performed
end Run
end SyntheticRows
