import SyntheticRows.Proofs.Run.ScenarioRows
import SyntheticRows.Proofs.Run.BatchInTurn
import SyntheticRows.Proofs.Run.SharedOrdinals

/-!
# Scenarios that generate a table more than once

With drops, a table is dropped once, before anything is written into it, and then holds the rows of
all steps. With emptying, it holds the rows of the last step alone, although the result reports
those of all.
-/
namespace SyntheticRows
open Sql

/-- If all names can be keys, the stats of the result count all rows written into the table. -/
def Scenario.Reports (scenario : Scenario) (name : String) (result : ScenarioResult) : Prop :=
  (∀ step ∈ scenario.steps, step.tableName.isKey = true) →
    ∃ stats, result.tableStats = .ok stats ∧
      (statsOf name stats).map (·.rowsInserted) = some ((rowsInto name scenario.steps).sum : ℤ)

theorem maintenance_drops {after : List Statement} (h : ∀ st ∈ after, ∃ m, st = .maintain m) :
    dropped after = [] ∧ putAside after = [] := by
  constructor
  · refine List.filterMap_eq_nil_iff.2 fun st hst => ?_
    obtain ⟨m, rfl⟩ := h st hst
    rfl
  · refine List.filterMap_eq_nil_iff.2 fun st hst => ?_
    obtain ⟨m, rfl⟩ := h st hst
    rfl

namespace Run

variable {c : Connection} {s s' : Session} {settings : GenerationSettings}
  {generated : List Value} {steps : List Step} {sent : List Statement} {rs : List StepResult}
  {scenario : Scenario} {result : ScenarioResult}

/-- A table is dropped once, before anything is written into it. A table of that name may besides
be put aside and dropped, or filled as a shadow, if the name is one that replacements make up. -/
structure DropsOnce (c : Connection) (sent : List Statement) (path : Path) : Prop where
  once : (dropped sent).count path = 1 + (putAside sent).count path
  before : ∃ pre post, sent = pre ++ .drop path :: post ∧
    ∀ st ∈ pre, st.filled? = some path → MadeUp c .new path

theorem Course.madeUp_of_putAside (h : Course c settings generated steps sent rs) :
    ∀ path ∈ putAside sent, MadeUp c .old path := by
  induction h with
  | nil => exact nofun
  | cons proceeds _ ih =>
    intro path hpath
    rw [putAside_append] at hpath
    rcases List.mem_append.1 hpath with hpath | hpath
    · cases proceeds with
      | generate _ prepares _ _ transformed _ _ =>
        rw [putAside_append, putAside_append, (dropped_of_prepares prepares).2, putAside_inserts,
          List.nil_append, List.nil_append] at hpath
        exact transformed.madeUp_of_putAside path hpath
      | transform transformed => exact transformed.madeUp_of_putAside path hpath
    · exact ih path hpath

theorem Course.tableRef (h : Course c settings generated steps sent rs) {g : GenerateStep}
    (hg : .generate g ∈ steps) : ∃ name path, g.table.name = .text name ∧
      c.target.tableRef (.text name) = .ok path := by
  induction h with
  | nil => cases hg
  | cons proceeds _ ih =>
    rcases List.mem_cons.1 hg with rfl | hg
    · obtain ⟨path, ht⟩ := proceeds.tableRef
      obtain ⟨ident, hident, _⟩ := Target.tableRef_last ht
      have named := Target.ident_text hident
      exact ⟨ident.name, path, named, named ▸ ht⟩
    · exact ih hg

section Dropping

/-- A scenario that drops tables first, and does not empty them, drops each table that it generates
once, before anything is written into it, and no others, except that ClickHouse drops what its
replacements put aside under names made for it. In the end each table holds the rows of all steps
that generated it, as the result reports. -/
theorem rows_of_droppingScenario (creates : settings.createTable = true)
    (drops : settings.dropFirst = true) (keeps : settings.truncateFirst = false)
    (h : outcome (runScenario settings scenario) c s = (.ok result, s')) :
    ∃ sent, s'.statements = s.statements ++ sent ∧
      (∀ path, (∀ g, .generate g ∈ scenario.steps → c.target.tableRef g.table.name ≠ .ok path) →
        (dropped sent).count path = (putAside sent).count path) ∧
      (∀ path ∈ putAside sent, MadeUp c .old path) ∧
      ∀ g, .generate g ∈ scenario.steps → ∃ name path, g.table.name = .text name ∧
        c.target.tableRef (.text name) = .ok path ∧ DropsOnce c sent path ∧
        scenario.Reports name result ∧
        ∀ (R : Rules) (convert : Conversion) (σ σ' : Store), R.engine = c.config.driver →
          PerformsAll R convert σ sent σ' →
          (∀ n ∈ rowsInto name scenario.steps, settings.Counts c.config.driver n) →
          σ'.size path = some (rowsInto name scenario.steps).sum := by
  obtain ⟨sent, after, hsent, course, maintains⟩ := course_of_runScenario creates h
  obtain ⟨noDrops, noneAside⟩ := maintenance_drops maintains
  refine ⟨sent ++ after, hsent, fun path others => ?_, fun path hpath => ?_, fun g hg => ?_⟩
  · rw [dropped_append, putAside_append, noDrops, noneAside, List.append_nil, List.append_nil]
    exact course.count_dropped_of_known fun g hg ht => (others g hg ht).elim
  · rw [putAside_append, noneAside, List.append_nil] at hpath
    exact course.madeUp_of_putAside path hpath
  · obtain ⟨name, path, same, ht⟩ := course.tableRef hg
    have writes := rowsInto_ne_nil hg same
    have new : Value.text name ∉ [] := List.not_mem_nil
    refine ⟨name, path, same, ht, ⟨?_, ?_⟩, fun keys => course.reported keys hg same, ?_⟩
    · rw [dropped_append, putAside_append, noDrops, noneAside, List.append_nil, List.append_nil]
      exact course.count_dropped_of_new ht drops new writes
    · obtain ⟨pre, post, split, unfilled⟩ := course.dropped_before_filled ht drops new writes
      exact ⟨pre, post ++ after, by rw [split, List.append_assoc, List.cons_append], unfilled⟩
    · intro R convert σ σ' hR hx counts
      obtain ⟨σ₁, hx, hafter⟩ := Folded.append_iff.1 hx
      obtain rfl := (performsAll_maintenance maintains).1 hafter
      exact course.size_of_dropped ht hR drops keeps new writes counts hx

/-- A scenario that generates one table twice. -/
def twiceScenario (first second : ℕ) : Scenario :=
  { name := .text "twice"
    steps := [.generate { table := sequenceTable, rowCount := first },
      .generate { table := sequenceTable, rowCount := second }] }

def droppingSettings : GenerationSettings :=
  { fiveSettings with dropFirst := true, resumeSequences := true }

/-- The table is empty at first, and later its greatest number is that one. -/
def twiceSession (greatest : Value) : Session :=
  { database := { results := [{ rows := [[.null]] }, { rows := [[greatest]] }] }, isOpen := true }

theorem generatesTwice (first second : ℕ) : OnlyGenerates (twiceScenario first second).steps := by
  simp [OnlyGenerates, twiceScenario]

/-- Three rows and two rows make five, whatever the table held before. -/
theorem rows_of_droppingTwice : ∃ result s' sent path σ',
    outcome (runScenario droppingSettings (twiceScenario 3 2)) liteConnection
        (twiceSession (.int 20)) =
        (.ok result, s') ∧
      s'.statements = sent ∧ liteConnection.target.tableRef (.text "numbers") = .ok path ∧
      DropsOnce liteConnection sent path ∧ (twiceScenario 3 2).Reports "numbers" result ∧
      PerformsAll (.plain .sqlite) (fun _ v => v) (Store.only path [fun _ => none]) sent σ' ∧
      σ'.size path = some 5 := by
  obtain ⟨result, s', h⟩ := ok_of_isSome (c := liteConnection) (s := twiceSession (.int 20))
    (x := runScenario droppingSettings (twiceScenario 3 2)) (by decide +kernel)
  obtain ⟨sent, hsent, _, _, each⟩ := rows_of_droppingScenario rfl rfl rfl h
  obtain ⟨name, path, same, ht, once, reports, sizes⟩ := each _ List.mem_cons_self
  cases same
  obtain ⟨σ', hx⟩ := exists_performed_of_runScenario (.plain .sqlite) (fun _ v => v) rfl
    (generatesTwice 3 2) h hsent (Store.only path [fun _ => none])
  exact ⟨result, s', sent, path, σ', h, hsent, ht, once, reports, hx,
    sizes _ _ _ _ rfl hx nofun⟩

end Dropping

section Replacing

/-- One row is generated, and the contents of its columns are exchanged. -/
def swapScenario : Scenario where
  name := .text "swap"
  steps := [
    .generate { table := pairTable, rowCount := 1 },
    .transform {
      tableName := pairTable.name
      batches := [{ transformations := [.swap {
        column1 := .text "n", column2 := .text "m"
        probability := ⟨.int 1, Number.inUnit_one⟩ }] }] }]

def swapSession : Session :=
  { database := { results := [{ rows := [[.null]] }, { rows := [[.text "n"], [.text "m"]] }] }
    isOpen := true }

/-- On ClickHouse a table is dropped that no step refers to. -/
theorem dropped_beside_tables : ∃ result s' path,
    outcome (runScenario { dropFirst := true } swapScenario) splitConnection swapSession =
        (.ok result, s') ∧
      path ∈ dropped s'.statements ∧
      ∀ step ∈ swapScenario.steps, splitConnection.target.tableRef step.tableName ≠ .ok path := by
  obtain ⟨result, s', h⟩ := ok_of_isSome (c := splitConnection) (s := swapSession)
    (x := runScenario { dropFirst := true } swapScenario) (by decide +kernel)
  have both : (dropped (outcome (runScenario { dropFirst := true } swapScenario) splitConnection
      swapSession).2.statements).any (fun path => swapScenario.steps.all fun step =>
        (splitConnection.target.tableRef step.tableName).toOption != some path) = true := by
    decide +kernel
  rw [h] at both
  obtain ⟨path, hpath, others⟩ := List.any_eq_true.1 both
  refine ⟨result, s', path, h, hpath, fun step hstep ht => ?_⟩
  have other := List.all_eq_true.1 others step hstep
  rw [ht] at other
  simp [Except.toOption] at other

end Replacing

section Emptying

/-- A scenario that empties tables first reports the rows of all steps for each table that it
generates, but leaves those of the last step alone. These are as many exactly if the steps before
wrote no rows. -/
theorem rows_of_emptyingScenario (creates : settings.createTable = true)
    (empties : settings.truncateFirst = true)
    (h : outcome (runScenario settings scenario) c s = (.ok result, s')) :
    ∃ sent, s'.statements = s.statements ++ sent ∧
      ∀ g, .generate g ∈ scenario.steps → ∃ name path, g.table.name = .text name ∧
        c.target.tableRef (.text name) = .ok path ∧ scenario.Reports name result ∧
        ∀ (R : Rules) (convert : Conversion) (σ σ' : Store), R.engine = c.config.driver →
          PerformsAll R convert σ sent σ' →
          (∀ n ∈ rowsInto name scenario.steps, settings.Counts c.config.driver n) →
          σ'.size path = (rowsInto name scenario.steps).getLast? ∧
            (σ'.size path = some (rowsInto name scenario.steps).sum ↔
              (rowsInto name scenario.steps).dropLast.sum = 0) := by
  obtain ⟨sent, after, hsent, course, maintains⟩ := course_of_runScenario creates h
  refine ⟨sent ++ after, hsent, fun g hg => ?_⟩
  obtain ⟨name, path, same, ht⟩ := course.tableRef hg
  have writes := rowsInto_ne_nil hg same
  refine ⟨name, path, same, ht, fun keys => course.reported keys hg same, ?_⟩
  intro R convert σ σ' hR hx counts
  obtain ⟨σ₁, hx, hafter⟩ := Folded.append_iff.1 hx
  obtain rfl := (performsAll_maintenance maintains).1 hafter
  have left := course.size_of_emptied ht hR empties counts hx
  obtain ⟨firsts, last, split⟩ := List.eq_nil_or_concat'
    (rowsInto name scenario.steps) |>.resolve_left writes
  rw [split] at left ⊢
  rw [List.getLast?_concat, Option.some_or] at left
  refine ⟨by rw [left, List.getLast?_concat], ?_⟩
  rw [left, List.dropLast_concat, List.sum_append, List.sum_singleton, Option.some.injEq]
  omega

/-- Three rows are written, then the table is emptied, and two rows are left of five. -/
theorem rows_of_emptyingTwice : ∃ result s' sent path σ',
    outcome (runScenario { truncateFirst := true } (twiceScenario 3 2)) liteConnection
        (twiceSession .null) = (.ok result, s') ∧
      s'.statements = sent ∧ liteConnection.target.tableRef (.text "numbers") = .ok path ∧
      (twiceScenario 3 2).Reports "numbers" result ∧
      PerformsAll (.plain .sqlite) (fun _ v => v) (Store.only path []) sent σ' ∧
      σ'.size path = some 2 := by
  obtain ⟨result, s', h⟩ := ok_of_isSome (c := liteConnection) (s := twiceSession .null)
    (x := runScenario { truncateFirst := true } (twiceScenario 3 2)) (by decide +kernel)
  obtain ⟨sent, hsent, each⟩ := rows_of_emptyingScenario rfl rfl h
  obtain ⟨name, path, same, ht, reports, sizes⟩ := each _ List.mem_cons_self
  cases same
  obtain ⟨σ', hx⟩ := exists_performed_of_runScenario (.plain .sqlite) (fun _ v => v) rfl
    (generatesTwice 3 2) h hsent (Store.only path [])
  exact ⟨result, s', sent, path, σ', h, hsent, ht, reports, hx, (sizes _ _ _ _ rfl hx nofun).1⟩

/-- A scenario that generates one row twice reports two of them, but one is left. -/
theorem emptied_between_steps : ∃ result s' stats path σ',
    outcome (runScenario { truncateFirst := true } (twiceScenario 1 1)) liteConnection
        (twiceSession .null) = (.ok result, s') ∧
      result.tableStats = .ok stats ∧
      (statsOf "numbers" stats).map (·.rowsInserted) = some 2 ∧
      liteConnection.target.tableRef (.text "numbers") = .ok path ∧
      PerformsAll (.plain .sqlite) (fun _ v => v) (Store.only path []) s'.statements σ' ∧
      σ'.size path = some 1 := by
  obtain ⟨result, s', h⟩ := ok_of_isSome (c := liteConnection) (s := twiceSession .null)
    (x := runScenario { truncateFirst := true } (twiceScenario 1 1)) (by decide +kernel)
  obtain ⟨sent, after, hsent, course, maintains⟩ := course_of_runScenario rfl h
  obtain ⟨name, path, same, ht⟩ := course.tableRef List.mem_cons_self
  cases same
  obtain ⟨stats, hstats, counted⟩ := course.reported
    (by decide)
    List.mem_cons_self rfl
  obtain ⟨σ', hx⟩ := course.exists_performed (.plain .sqlite) (fun _ v => v) (generatesTwice 1 1)
    (Store.only path [])
  have left := course.size_of_emptied ht rfl rfl nofun hx
  have start : (twiceSession .null).statements = [] := rfl
  refine ⟨result, s', stats, path, σ', h, hstats, counted, ht, ?_, left⟩
  rw [hsent, start, List.nil_append]
  exact Folded.append_iff.2 ⟨σ', hx, (performsAll_maintenance maintains).2 rfl⟩

end Emptying
end Run
end SyntheticRows
