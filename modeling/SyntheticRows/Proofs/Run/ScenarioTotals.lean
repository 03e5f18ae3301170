import SyntheticRows.Proofs.Run.RepeatedGeneration

/-!
# Totals of a scenario

Four things are kept up to date while the steps run: what each step did, the rows of all of them,
the tables touched, and later the totals of each table, which are computed from the steps. Here
they are compared with the steps that were asked for. Maintenance comes after the last step, once
for each table.
-/
namespace SyntheticRows
open Sql

section Asked

namespace Step

/-- The rows that a step is to write. -/
def rows : Step → ℕ
  | generate g => g.rowCount
  | transform _ => 0

def batches : Step → List Batch
  | generate g => g.batches
  | transform g => g.batches

/-- How many batches of a step have something in them. -/
def batchCount (step : Step) : ℕ := step.batches.countP (!·.transformations.isEmpty)

/-- What a step reports. A generation without batches reports no transformation. -/
inductive Reports : Step → StepResult → Prop
  | generate {g : GenerateStep} {r : GenerateResult} {transform : Option TransformResult} :
    r.tableName = g.table.name → r.rowsInserted = g.rowCount →
    transform.isNone = g.batches.isEmpty →
    (∀ t ∈ transform, t.tableName = g.table.name ∧ t.batchesApplied = batchCount (.generate g)) →
    Reports (.generate g) { tableName := g.table.name, generate := some r, transform }
  | transform {g : TransformStep} {r : TransformResult} :
    r.tableName = g.tableName → r.batchesApplied = batchCount (.transform g) →
    Reports (.transform g) { tableName := g.tableName, transform := some r }

end Step

/-- The steps on the table of that name. -/
def stepsOn (name : String) (steps : List Step) : List Step :=
  steps.filter ((Value.text name).same ·.tableName)

/-- What the steps are to do to the table of that name, added up. -/
def totals (steps : List Step) (name : String) : TableStats :=
  { rowsInserted := (((stepsOn name steps).map Step.rows).sum : ℕ)
    batchesApplied := ((stepsOn name steps).map Step.batchCount).sum }

variable {step : Step} {steps : List Step} {r : StepResult} {rs : List StepResult} {name : String}

theorem stepsOn_cons_of_same (own : step.tableName = .text name) :
    stepsOn name (step :: steps) = step :: stepsOn name steps :=
  List.filter_cons_of_pos (Value.text_same.2 own.symm)

theorem stepsOn_cons_of_other (other : step.tableName ≠ .text name) :
    stepsOn name (step :: steps) = stepsOn name steps :=
  List.filter_cons_of_neg fun same => other (Value.text_same.1 same).symm

theorem Step.Reports.tableName (h : step.Reports r) : r.tableName = step.tableName := by
  cases h <;> rfl

theorem Step.Reports.rows (h : step.Reports r) :
    (r.generate.map (·.rowsInserted)).getD 0 = step.rows := by
  cases h with
  | generate _ counted _ _ => exact counted
  | transform _ _ => rfl

theorem Step.Reports.batchCount (h : step.Reports r) :
    (r.transform.map (·.batchesApplied)).getD 0 = step.batchCount := by
  cases h with
  | @generate g _ transform _ _ none applied =>
    cases transform with
    | none =>
      have empty : g.batches = [] := List.isEmpty_iff.1 none.symm
      simp [Step.batchCount, Step.batches, empty]
    | some t => exact (applied t rfl).2
  | transform _ applied => exact applied

theorem Step.Reports.add (h : step.Reports r) (t : TableStats) : t.add r =
    { rowsInserted := t.rowsInserted + step.rows
      batchesApplied := t.batchesApplied + step.batchCount } := by
  rw [TableStats.add, h.rows, h.batchCount]

end Asked

section FirstTouches

variable {seen names : List String} {name : String}

/-- A name is new the first time that it comes up. -/
theorem eraseDups_concat : (seen ++ [name]).eraseDups =
    if name ∈ seen then seen.eraseDups else seen.eraseDups ++ [name] := by
  rw [List.eraseDups_append]
  by_cases known : name ∈ seen
  · simp [List.removeAll, known]
  · simp [List.removeAll, known, List.eraseDups_cons]

theorem nodup_eraseDups : seen.eraseDups.Nodup := by
  induction seen using List.reverseRecOn with
  | nil => exact .nil
  | append_singleton seen name ih =>
    rw [eraseDups_concat]
    split
    · exact ih
    · next new =>
      refine List.nodup_append.2 ⟨ih, List.nodup_singleton name, ?_⟩
      intro other hother same hsame
      rw [List.mem_singleton] at hsame
      rintro rfl
      exact new (hsame ▸ List.mem_eraseDups.1 hother)

end FirstTouches

section Stats

variable {names seen : List String} {name : String} {total : String → TableStats}
  {step : Step} {steps : List Step} {r : StepResult} {rs : List StepResult}

theorem text_same_text (name other : String) :
    (Value.text name).same (.text other) = (name == other) := by
  simp [Value.same]

/-- The stats of tables in that order. -/
def statsOver (names : List String) (total : String → TableStats) : List (Value × TableStats) :=
  names.map fun name => (.text name, total name)

theorem find_statsOver : ((statsOver names total).find? ((Value.text name).same ·.1)).map Prod.snd =
    if name ∈ names then some (total name) else none := by
  induction names with
  | nil => rfl
  | cons first names ih =>
    rw [statsOver, List.map_cons, List.find?_cons, text_same_text]
    by_cases same : name = first
    · simp [same]
    · simpa only [statsOver, beq_false_of_ne same, List.mem_cons, same, false_or] using ih

theorem insertEntry_statsOver {t : TableStats} (distinct : names.Nodup) :
    Value.insertEntry (.text name) t (statsOver names total) =
      statsOver (if name ∈ names then names else names ++ [name])
        (Function.update total name t) := by
  induction names with
  | nil => simp [statsOver, Value.insertEntry]
  | cons first names ih =>
    obtain ⟨apart, distinct⟩ := List.nodup_cons.1 distinct
    have others : ∀ l : List String, name ∉ l →
        statsOver l (Function.update total name t) = statsOver l total := by
      intro l new
      refine List.map_congr_left fun other hother => ?_
      rw [Function.update_of_ne (ne_of_mem_of_not_mem hother new)]
    by_cases same : name = first
    · subst same
      have rest := others names apart
      simp only [statsOver] at rest
      simp [statsOver, Value.insertEntry, Value.same, rest]
    · have kept : Function.update total name t first = total first :=
        Function.update_of_ne (Ne.symm same) t total
      have later := ih distinct
      simp only [statsOver] at later
      by_cases known : name ∈ names <;>
        simp_all [statsOver, Value.insertEntry, Value.same, Ne.symm same]

/-- The totals with a step counted in. -/
theorem countStep_statsOver (named : r.tableName = .text name)
    (new : ∀ other ∉ seen, total other = {}) :
    countStep (statsOver seen.eraseDups total) r =
      statsOver (seen ++ [name]).eraseDups
        (Function.update total name ((total name).add r)) := by
  have before : ((((statsOver seen.eraseDups total).find? (r.tableName.same ·.1)).map
      Prod.snd).getD {}) = total name := by
    rw [named, find_statsOver]
    by_cases known : name ∈ seen
    · simp [known]
    · simp [known, new name known]
  rw [countStep, before, named, insertEntry_statsOver nodup_eraseDups, eraseDups_concat]
  simp only [List.mem_eraseDups]

/-- The totals of a table after more steps. -/
def addAll (steps : List Step) (name : String) (t : TableStats) : TableStats :=
  { rowsInserted := t.rowsInserted + (totals steps name).rowsInserted
    batchesApplied := t.batchesApplied + (totals steps name).batchesApplied }

@[simp] theorem addAll_nil (t : TableStats) : addAll [] name t = t := by
  simp [addAll, totals, stepsOn]

@[simp] theorem addAll_empty : addAll steps name {} = totals steps name := by simp [addAll]

theorem addAll_cons_of_same (own : step.tableName = .text name) (h : step.Reports r)
    (t : TableStats) : addAll (step :: steps) name t = addAll steps name (t.add r) := by
  simp only [addAll, totals, stepsOn_cons_of_same own, List.map_cons, List.sum_cons, h.add,
    TableStats.mk.injEq]
  constructor
  · push_cast
    ring
  · ring

theorem addAll_cons_of_other (other : step.tableName ≠ .text name) (t : TableStats) :
    addAll (step :: steps) name t = addAll steps name t := by
  simp only [addAll, totals, stepsOn_cons_of_other other]

theorem foldl_countStep (reported : List.Forall₂ Step.Reports steps rs)
    (named : steps.map Step.tableName = names.map .text)
    (new : ∀ other ∉ seen, total other = {}) :
    rs.foldl countStep (statsOver seen.eraseDups total) =
      statsOver (seen ++ names).eraseDups fun name => addAll steps name (total name) := by
  induction reported generalizing names seen total with
  | nil =>
    obtain rfl : names = [] := List.map_eq_nil_iff.1 named.symm
    simp
  | @cons step r steps rs first _ ih =>
    obtain ⟨name, names, rfl, own, named⟩ := List.map_eq_cons_iff.1 named.symm
    have known := countStep_statsOver (r := r) (first.tableName.trans own.symm) new
    have later : ∀ other ∉ seen ++ [name],
        Function.update total name ((total name).add r) other = {} := by
      intro other hother
      simp only [List.mem_append, List.mem_singleton, not_or] at hother
      rw [Function.update_of_ne hother.2, new other hother.1]
    rw [List.foldl_cons, known, ih named.symm later, List.append_assoc, List.singleton_append]
    congr 1
    funext other
    by_cases same : other = name
    · subst same
      rw [Function.update_self, addAll_cons_of_same own.symm first]
    · have apart : step.tableName ≠ .text other := by
        rw [← own]
        simpa using Ne.symm same
      rw [Function.update_of_ne same, addAll_cons_of_other apart]

/-- The stats of the touched tables, in the order in which they were touched first. -/
theorem tableStats_of_reports {result : ScenarioResult}
    (reported : List.Forall₂ Step.Reports steps result.steps)
    (named : steps.map Step.tableName = names.map .text) :
    result.tableStats = .ok (statsOver names.eraseDups (totals steps)) := by
  have keys : ∀ r ∈ result.steps, r.tableName.isKey = true := by
    intro r hr
    obtain ⟨step, hstep, reports⟩ := partner_left reported hr
    have known : step.tableName ∈ names.map Value.text := named ▸ List.mem_map_of_mem hstep
    obtain ⟨name, _, same⟩ := List.mem_map.1 known
    rw [reports.tableName, ← same]
    rfl
  have start : ∀ name ∉ ([] : List String), ({} : TableStats) = {} := fun _ _ => rfl
  have counted := foldl_countStep reported named start
  rw [ScenarioResult.tableStats_eq keys]
  simpa [statsOver] using counted

theorem totals_cons (own : step.tableName = .text name) (other : String) :
    (totals (step :: steps) other).rowsInserted =
      (if other = name then (step.rows : ℤ) else 0) + (totals steps other).rowsInserted := by
  by_cases same : other = name
  · subst same
    simp [totals, stepsOn_cons_of_same own]
  · have apart : step.tableName ≠ .text other := by
      rw [own]
      simpa using Ne.symm same
    simp [totals, stepsOn_cons_of_other apart, same]

/-- Every step is counted for one table. -/
theorem sum_totals {tables : List String} (distinct : tables.Nodup)
    (named : steps.map Step.tableName = names.map .text) (all : ∀ name ∈ names, name ∈ tables) :
    (tables.map fun name => (totals steps name).rowsInserted).sum =
      ((steps.map Step.rows).sum : ℕ) := by
  rw [← List.sum_toFinset _ distinct]
  induction steps generalizing names with
  | nil => simp [totals, stepsOn]
  | cons step steps ih =>
    obtain ⟨name, names, rfl, own, named⟩ := List.map_eq_cons_iff.1 named.symm
    have first : name ∈ tables := all name List.mem_cons_self
    have rest := ih named.symm fun other hother => all other (List.mem_cons_of_mem _ hother)
    simp only [totals_cons own.symm, Finset.sum_add_distrib, rest, Finset.sum_ite_eq',
      List.mem_toFinset, first, if_true]
    simp

end Stats

namespace Run

variable {c : Connection} {s s' : Session} {settings : GenerationSettings} {strict : Bool}
  {step : Step} {steps : List Step} {r : StepResult} {generated : List Value} {p p' : Progress}
  {scenario : Scenario} {result : ScenarioResult}

section Batches

theorem counted_of_runActions {columns : List Value} {before r : TransformResult}
    {actions : List Action} (h : outcome (runActions columns before actions) c s = (.ok r, s')) :
    r.tableName = before.tableName ∧ r.batchesApplied = before.batchesApplied + 1 := by
  induction actions generalizing before s with
  | nil =>
    cases h
    exact ⟨rfl, rfl⟩
  | cons a rest ih =>
    cases a with
    | run st =>
      obtain ⟨_, _, _, later⟩ := ok_of_bind h
      exact ih later
    | replace pass =>
      obtain ⟨_, _, _, later⟩ := ok_of_bind h
      have counted := ih later
      exact counted

theorem counted_of_applyBatches {columns : List Value} {before r : TransformResult}
    {batches : List Batch}
    (h : outcome (applyBatches strict columns before batches) c s = (.ok r, s')) :
    r.tableName = before.tableName ∧
      r.batchesApplied = before.batchesApplied + batches.length := by
  induction batches generalizing before s with
  | nil =>
    cases h
    exact ⟨rfl, rfl⟩
  | cons b rest ih =>
    obtain ⟨_, _, one, _, _, hone, later⟩ := ok_of_firstBatch h
    obtain ⟨sameName, first⟩ := counted_of_runActions hone
    obtain ⟨name, rest⟩ := ih later
    refine ⟨name.trans sameName, ?_⟩
    rw [rest, first, List.length_cons]
    omega

/-- Batches with nothing in them are not counted. -/
theorem counted_of_applyTransformations {table : Value} {batches : List Batch}
    {r : TransformResult}
    (h : outcome (applyTransformations strict table batches) c s = (.ok r, s')) :
    r.tableName = table ∧ r.batchesApplied = batches.countP (!·.transformations.isEmpty) := by
  rw [List.countP_eq_length_filter]
  unfold applyTransformations at h
  generalize batches.filter (!·.transformations.isEmpty) = kept at h ⊢
  by_cases none : kept.isEmpty = true
  · rw [if_pos none] at h
    cases h
    rw [List.isEmpty_iff.1 none]
    exact ⟨rfl, rfl⟩
  · simp only [none] at h
    obtain ⟨_, _, _, h⟩ := ok_of_bind h
    obtain ⟨_, _, _, h⟩ := ok_of_bind h
    obtain ⟨name, applied⟩ := counted_of_applyBatches h
    exact ⟨name, by rw [applied, Nat.zero_add]⟩

end Batches

section Steps

/-- Transformations only change rows. -/
theorem isMaintenance_of_transformed {sts : List Statement} (h : Transformed c sts) :
    ∀ st ∈ sts, st.isMaintenance = false := by
  obtain ⟨parts, rfl, sends⟩ := h
  intro st hst
  obtain ⟨part, hpart, hst⟩ := List.mem_flatten.1 hst
  cases sends part hpart with
  | update u =>
    rw [List.mem_singleton.1 hst]
    rfl
  | replacement _ _ =>
    simp only [Rebuild.replacement, List.mem_cons, List.not_mem_nil, or_false] at hst
    rcases hst with rfl | rfl | rfl | rfl <;> rfl

theorem adds_of_written {table : Table} {rows : ℕ} {dropFirst : Bool} {r : GenerateResult}
    {before after : List Statement} {origin : ℤ} {sizes : List ℕ} {inserts : List Insert}
    (h : Written c s s' settings table rows dropFirst false r before origin sizes inserts after) :
    Adds (·.isMaintenance = false) s s' := by
  -- maintenance is put off
  obtain rfl : [] = after := Except.ok.inj h.maintained
  refine ⟨before ++ inserts.map .insert, by simpa using h.sent, fun st hst => ?_⟩
  rcases List.mem_append.1 hst with prepared | inserted
  · have compiled : .ok st ∈ preparations c.target settings table dropFirst :=
      h.prepared ▸ List.mem_map_of_mem prepared
    exact isMaintenance_of_mem_preparations compiled
  · obtain ⟨i, _, rfl⟩ := List.mem_map.1 inserted
    rfl

theorem adds_of_applyTransformations {table : Value} {batches : List Batch} {t : TransformResult}
    (h : outcome (applyTransformations strict table batches) c s = (.ok t, s')) :
    Adds (·.isMaintenance = false) s s' := by
  obtain ⟨sent, same, transformed⟩ := transformed_of_applyTransformations h
  exact ⟨sent, same, isMaintenance_of_transformed transformed⟩

/-- A step sends no maintenance. -/
theorem adds_of_stepRun (h : StepRun c settings generated s step r s') :
    Adds (·.isMaintenance = false) s s' := by
  cases h with
  | generate hrows _ =>
    obtain ⟨_, _, _, _, _, written⟩ := written_of_ok hrows
    exact adds_of_written written
  | generateAndTransform hrows _ hrun =>
    obtain ⟨_, _, _, _, _, written⟩ := written_of_ok hrows
    exact (adds_of_written written).trans (adds_of_applyTransformations hrun)
  | transform hrun => exact adds_of_applyTransformations hrun

theorem reports_of_stepRun (h : StepRun c settings generated s step r s') : step.Reports r := by
  cases h with
  | generate hrows none =>
    obtain ⟨_, _, _, _, _, written⟩ := written_of_ok hrows
    have counted : _ = _ := written.result
    exact .generate (by rw [counted]) (by rw [counted]) none.symm nofun
  | generateAndTransform hrows some hrun =>
    obtain ⟨_, _, _, _, _, written⟩ := written_of_ok hrows
    have counted : _ = _ := written.result
    refine .generate (by rw [counted]) (by rw [counted]) some.symm ?_
    rintro _ ⟨⟩
    exact counted_of_applyTransformations hrun
  | transform hrun =>
    obtain ⟨name, applied⟩ := counted_of_applyTransformations hrun
    exact .transform name applied

/-- What all steps add to the progress, and what they send. -/
theorem advances_of_foldlM {names seen : List String}
    (named : steps.map Step.tableName = names.map .text)
    (h : outcome (steps.foldlM (runStep settings) p) c s = (.ok p', s'))
    (before : p.touched = seen.eraseDups.map .text) :
    ∃ rs, List.Forall₂ Step.Reports steps rs ∧
      p'.result = { p.result with
        steps := p.result.steps ++ rs
        totalRows := p.result.totalRows + ((steps.map Step.rows).sum : ℕ) } ∧
      p'.touched = (seen ++ names).eraseDups.map .text ∧
      Adds (·.isMaintenance = false) s s' := by
  induction steps generalizing names seen p s with
  | nil =>
    obtain rfl : names = [] := List.map_eq_nil_iff.1 named.symm
    cases h
    exact ⟨[], .nil, by simp, by simpa using before, .nothing rfl⟩
  | cons step steps ih =>
    obtain ⟨name, names, rfl, own, named⟩ := List.map_eq_cons_iff.1 named.symm
    rw [List.foldlM_cons] at h
    obtain ⟨p₁, s₁, hstep, h⟩ := ok_of_bind h
    obtain ⟨r, run, rfl⟩ := stepRun_of_runStep hstep
    have reported := reports_of_stepRun run
    have touched : (p.reported step r).touched = (seen ++ [name]).eraseDups.map .text := by
      rw [Progress.reported, ← own, before, eraseDups_concat]
      by_cases known : name ∈ seen <;> simp [Value.memberOf_text, known]
    obtain ⟨rs, reports, result, later, quiet⟩ := ih named.symm h touched
    refine ⟨r :: rs, .cons reported reports, ?_, ?_, (adds_of_stepRun run).trans quiet⟩
    · rw [result]
      simp [Progress.reported, reported.rows, add_assoc]
    · rw [later, List.append_assoc, List.singleton_append]

end Steps

section Maintenance

theorem events_of_execute {st : Statement} (h : outcome (execute st) c s = (.ok (), s')) :
    s'.events = s.events ++ [.executed st] := by
  rw [outcome_execute, outcome_send] at h
  split at h
  · split at h <;> cases h
    rfl
  · cases h

theorem events_of_runAll {sts : List Statement} (h : outcome (runAll sts) c s = (.ok (), s')) :
    s'.events = s.events ++ sts.map .executed := by
  induction sts generalizing s with
  | nil =>
    cases h
    simp
  | cons st sts ih =>
    obtain ⟨_, s₁, hst, h⟩ := ok_of_bind h
    rw [ih h, events_of_execute hst, List.append_assoc]
    rfl

/-- Maintenance is sent table by table, and nothing else. -/
theorem events_of_optimizes {tables : List Value}
    (h : outcome (tables.forM optimize) c s = (.ok (), s')) :
    ∃ after, List.Forall₂ (fun table sts => c.target.maintenance table = .ok sts) tables after ∧
      s'.events = s.events ++ after.flatten.map .executed := by
  induction tables generalizing s with
  | nil =>
    cases h
    exact ⟨[], .nil, by simp⟩
  | cons table tables ih =>
    obtain ⟨_, s₁, hone, h⟩ := ok_of_bind h
    obtain ⟨sts, hsts, hone⟩ := ok_of_optimize hone
    obtain ⟨after, compiled, sent⟩ := ih h
    refine ⟨sts :: after, .cons hsts compiled, ?_⟩
    rw [sent, events_of_runAll hone, List.append_assoc, List.flatten_cons, List.map_append]

/-- Maintenance comes last: what was sent before it is none, and it is sent once for each of the
tables. -/
structure MaintainsLast (c : Connection) (s s' : Session) (tables : List Value) : Prop where
  once : tables.Pairwise fun v w => v.same w = false
  last : ∃ (done : Session) (sent : List Statement) (after : List (List Statement)),
    done.statements = s.statements ++ sent ∧ (∀ st ∈ sent, st.isMaintenance = false) ∧
    List.Forall₂ (fun table sts => c.target.maintenance table = .ok sts) tables after ∧
    (∀ sts ∈ after, ∀ st ∈ sts, st.isMaintenance = true) ∧
    s'.events = done.events ++ after.flatten.map .executed

theorem maintainsLast_of_compiled {names : List String} {done : Session} {sent : List Statement}
    {after : List (List Statement)} (same : done.statements = s.statements ++ sent)
    (quiet : ∀ st ∈ sent, st.isMaintenance = false)
    (compiled : List.Forall₂ (fun table sts => c.target.maintenance table = .ok sts)
      (names.eraseDups.map .text) after)
    (last : s'.events = done.events ++ after.flatten.map .executed) :
    MaintainsLast c s s' (names.eraseDups.map .text) := by
  refine ⟨?_, done, sent, after, same, quiet, compiled, fun sts hsts st hst => ?_, last⟩
  · rw [List.pairwise_map]
    refine nodup_eraseDups.imp fun {a b} apart => ?_
    rw [text_same_text]
    exact beq_false_of_ne apart
  · obtain ⟨table, _, hm⟩ := partner_left compiled hsts
    obtain ⟨m, rfl⟩ := Target.maintenance_eq hm st hst
    rfl

end Maintenance

/-- A scenario that returns reports each step, in order. All rows of its generate steps are counted
once, in the total and over the tables. The stats are those of the tables, in the order in which
they were touched first, and these are also the tables that are maintained, if any are. -/
theorem totals_of_runScenario {names : List String}
    (named : scenario.steps.map Step.tableName = names.map .text)
    (h : outcome (runScenario settings scenario) c s = (.ok result, s')) :
    List.Forall₂ Step.Reports scenario.steps result.steps ∧
      result.totalRows = ((scenario.steps.map Step.rows).sum : ℕ) ∧
      (∃ stats, result.tableStats = .ok stats ∧
        stats = names.eraseDups.map (fun name => (.text name, totals scenario.steps name)) ∧
        result.totalRows = (stats.map (·.2.rowsInserted)).sum) ∧
      result.optimizedTables = (if settings.optimize then names.eraseDups.map .text else []) ∧
      MaintainsLast c s s' result.optimizedTables := by
  unfold runScenario at h
  obtain ⟨_, _, h⟩ := ok_of_lift_bind h
  obtain ⟨p, s₁, hsteps, h⟩ := ok_of_bind h
  have untouched : ([] : List Value) = ([] : List String).eraseDups.map .text := rfl
  obtain ⟨rs, reports, progress, touched, sent, same, quiet⟩ :=
    advances_of_foldlM named hsteps untouched
  rw [List.nil_append] at touched
  have totalled : ∀ result : ScenarioResult, result.steps = rs →
      result.totalRows = ((scenario.steps.map Step.rows).sum : ℕ) →
      ∃ stats, result.tableStats = .ok stats ∧
        stats = names.eraseDups.map (fun name => (.text name, totals scenario.steps name)) ∧
        result.totalRows = (stats.map (·.2.rowsInserted)).sum := by
    rintro result rfl all
    refine ⟨_, tableStats_of_reports reports named, rfl, ?_⟩
    rw [all, statsOver, List.map_map]
    exact (sum_totals nodup_eraseDups named fun name => List.mem_eraseDups.2).symm
  have listed : p.result.steps = rs := by rw [progress]; rfl
  have counted : p.result.totalRows = ((scenario.steps.map Step.rows).sum : ℕ) := by
    rw [progress]
    simp
  by_cases optimizes : settings.optimize = true
  · simp only [optimizes, if_true] at h ⊢
    obtain ⟨_, s₂, hafter, h⟩ := ok_of_bind h
    obtain ⟨_, _, h⟩ := ok_of_lift_bind h
    cases h
    obtain ⟨after, compiled, last⟩ := events_of_optimizes hafter
    rw [touched] at compiled ⊢
    exact ⟨listed ▸ reports, counted, totalled _ listed counted, rfl,
      maintainsLast_of_compiled same quiet compiled last⟩
  · simp only [optimizes] at h ⊢
    obtain ⟨_, _, h⟩ := ok_of_lift_bind h
    cases h
    have none : List.Forall₂ (fun table sts => c.target.maintenance table = .ok sts)
      (([] : List String).eraseDups.map .text) [] := .nil
    exact ⟨listed ▸ reports, counted, totalled _ listed counted, rfl,
      maintainsLast_of_compiled same quiet none (by simp)⟩

/-- One table is filled, nothing is done to another, and the first one is filled further and changed
by two of three batches. -/
def returningScenario : Scenario :=
  { name := .text "returning"
    steps := [.generate { table := sequenceTable, rowCount := 3 },
      .transform { tableName := .text "others", batches := [{}] },
      .generate {
        table := sequenceTable
        rowCount := 2
        batches := {} :: templateBatches "x" "y" }] }

/-- The columns are asked for once. -/
def askedSession : Session :=
  { database := { results := [{ rows := [[.text "a"]] }] }, isOpen := true }

/-- Five rows in all, which went into the table that was touched first. -/
theorem totals_of_returning : ∃ result s' stats,
    returningScenario.steps.map Step.tableName = ["numbers", "others", "numbers"].map .text ∧
      outcome (runScenario fiveSettings returningScenario) liteConnection askedSession =
        (.ok result, s') ∧
      result.totalRows = 5 ∧ result.tableStats = .ok stats ∧
      stats = [(.text "numbers", { rowsInserted := 5, batchesApplied := 2 }),
        (.text "others", {})] ∧
      result.optimizedTables = [.text "numbers", .text "others"] ∧
      MaintainsLast liteConnection askedSession s' result.optimizedTables := by
  have named : returningScenario.steps.map Step.tableName =
      ["numbers", "others", "numbers"].map .text := rfl
  obtain ⟨result, s', h⟩ := ok_of_isSome (c := liteConnection) (s := askedSession)
    (x := runScenario fiveSettings returningScenario) (by decide +kernel)
  obtain ⟨_, total, ⟨stats, computed, same, _⟩, optimized, maintains⟩ :=
    totals_of_runScenario named h
  have order : ["numbers", "others", "numbers"].eraseDups = ["numbers", "others"] := by decide
  rw [order] at same optimized
  exact ⟨result, s', stats, named, h, total, computed, same, optimized, maintains⟩

end Run
end SyntheticRows
