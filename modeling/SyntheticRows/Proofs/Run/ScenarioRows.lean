import SyntheticRows.Proofs.Run.Course

/-!
# Rows after a scenario

A scenario drops a table only the first time it generates it, so its rows add up from step to step.
If it empties tables before it generates them, it does so each time, and only the rows of the last
of these steps are left.
-/
namespace SyntheticRows
open Sql

@[simp] theorem dropped_append (a b : List Statement) : dropped (a ++ b) = dropped a ++ dropped b :=
  List.filterMap_append

@[simp] theorem putAside_append (a b : List Statement) :
    putAside (a ++ b) = putAside a ++ putAside b := List.filterMap_append

theorem dropped_inserts (inserts : List Insert) : dropped (inserts.map .insert) = [] := by
  simp [dropped]

theorem putAside_inserts (inserts : List Insert) : putAside (inserts.map .insert) = [] := by
  simp [putAside]

section RowsInto

variable {name : String} {step : Step} {steps : List Step} {g : GenerateStep}

theorem rowsInto_cons_of_same (h : g.table.name = .text name) :
    rowsInto name (.generate g :: steps) = g.rowCount :: rowsInto name steps := by
  simp [rowsInto, Step.rowsInto?, Value.text_same, h]

theorem rowsInto_cons_of_none (h : step.rowsInto? name = none) :
    rowsInto name (step :: steps) = rowsInto name steps := by
  simp [rowsInto, h]

/-- A step either writes into the table or does not. -/
theorem Step.cases_rowsInto (name : String) (step : Step) :
    (∃ g, step = .generate g ∧ g.table.name = .text name) ∨ step.rowsInto? name = none := by
  cases step with
  | transform g => exact .inr rfl
  | generate g =>
    by_cases same : (Value.text name).same g.table.name = true
    · exact .inl ⟨g, rfl, (Value.text_same.1 same).symm⟩
    · exact .inr (if_neg same)

theorem rowsInto_ne_nil (hg : .generate g ∈ steps) (h : g.table.name = .text name) :
    rowsInto name steps ≠ [] := by
  apply List.ne_nil_of_mem
  exact List.mem_filterMap.2 ⟨_, hg, if_pos (Value.text_same.2 h.symm)⟩

theorem Step.ne_of_rowsInto (h : (Step.generate g).rowsInto? name = none) :
    g.table.name ≠ .text name := by
  intro same
  rw [Step.rowsInto?, if_pos (Value.text_same.2 same.symm)] at h
  cases h

theorem Step.mem_generatedAfter {generated : List Value} (h : step.rowsInto? name = none) :
    .text name ∈ step.generatedAfter generated ↔ .text name ∈ generated := by
  cases step with
  | transform g => rfl
  | generate g => simp [Step.generatedAfter, (Step.ne_of_rowsInto h).symm]

end RowsInto

namespace Run

variable {c : Connection} {settings : GenerationSettings} {generated : List Value} {step : Step}
  {steps : List Step} {sent : List Statement} {r : StepResult} {rs : List StepResult}
  {g : GenerateStep} {path : Path} {name : String}

section Drops

theorem dropped_of_prepares {dropFirst : Bool} (h : Prepares settings path dropFirst sent) :
    dropped sent = (if dropFirst then [path] else []) ∧ putAside sent = [] := by
  cases h with
  | dropped hd =>
    subst hd
    exact ⟨rfl, rfl⟩
  | emptied hd =>
    subst hd
    exact ⟨rfl, rfl⟩
  | kept hd =>
    subst hd
    exact ⟨rfl, rfl⟩

theorem Proceeds.tableRef (h : Proceeds c settings generated (.generate g) sent r) :
    ∃ path, c.target.tableRef g.table.name = .ok path := by
  cases h with
  | generate ht => exact ⟨_, ht⟩

theorem Prepares.filled {dropFirst : Bool} (h : Prepares settings path dropFirst sent) :
    ∀ st ∈ sent, st.filled? = none := by
  cases h <;> simp [Statement.filled?]

/-- A step drops the table that it generates, if it has not been generated before. -/
theorem Proceeds.dropped_eq (h : Proceeds c settings generated (.generate g) sent r)
    (ht : c.target.tableRef g.table.name = .ok path) :
    dropped sent =
      (if settings.dropFirst && !g.table.name.memberOf generated then [path] else []) ++
        putAside sent := by
  cases h with
  | generate ht' prepares _ _ transformed _ _ =>
    cases ht.symm.trans ht'
    obtain ⟨drops, aside⟩ := dropped_of_prepares prepares
    simp only [dropped_append, putAside_append, drops, aside, dropped_inserts, putAside_inserts,
      transformed.dropped_eq, List.append_nil, List.nil_append]

/-- A step drops another table only if it was put aside. -/
theorem Proceeds.count_dropped (h : Proceeds c settings generated step sent r)
    (known : ∀ g, step = .generate g → c.target.tableRef g.table.name = .ok path →
      g.table.name.memberOf generated = true) :
    (dropped sent).count path = (putAside sent).count path := by
  cases step with
  | transform g =>
    cases h with
    | transform transformed => rw [transformed.dropped_eq]
  | generate g =>
    obtain ⟨path', ht⟩ := h.tableRef
    rw [h.dropped_eq ht, List.count_append]
    by_cases same : path' = path
    · rw [known g rfl (same ▸ ht), Bool.not_true, Bool.and_false, if_neg Bool.false_ne_true,
        List.count_nil, Nat.zero_add]
    · split <;> simp [same]

/-- Tables that are not generated for the first time are dropped only once put aside. -/
theorem Course.count_dropped_of_known (h : Course c settings generated steps sent rs)
    (known : ∀ g, .generate g ∈ steps → c.target.tableRef g.table.name = .ok path →
      g.table.name.memberOf generated = true) :
    (dropped sent).count path = (putAside sent).count path := by
  induction h with
  | nil => rfl
  | @cons generated step steps first rest _ _ proceeds _ ih =>
    have now : (dropped first).count path = (putAside first).count path :=
      proceeds.count_dropped fun g hg ht => known g (hg ▸ List.mem_cons_self) ht
    have later : (dropped rest).count path = (putAside rest).count path := by
      refine ih fun g hg ht => ?_
      have before := known g (List.mem_cons_of_mem _ hg) ht
      cases step with
      | transform _ => exact before
      | generate g' =>
        rw [Value.memberOf] at before ⊢
        exact List.any_cons.trans (by rw [before, Bool.or_true])
    rw [dropped_append, putAside_append, List.count_append, List.count_append, now, later]

theorem memberOf_of_new (same : g.table.name = .text name) (new : .text name ∉ generated) :
    g.table.name.memberOf generated = false := by
  rw [same]
  exact Bool.eq_false_iff.2 (Value.memberOf_text.not.2 new)

section Named

variable (ht : c.target.tableRef (.text name) = .ok path)
include ht

/-- A step that does not write into the table does not refer to it either. -/
theorem not_refers_of_rowsInto (h : step.rowsInto? name = none) (hg : step = .generate g) :
    c.target.tableRef g.table.name ≠ .ok path := by
  subst hg
  exact fun ht' => Step.ne_of_rowsInto h (Target.tableRef_injective ht' ht)

/-- A table that is generated first by some step is dropped once more than it was put aside. -/
theorem Course.count_dropped_of_new (h : Course c settings generated steps sent rs)
    (drops : settings.dropFirst = true) (new : .text name ∉ generated)
    (writes : rowsInto name steps ≠ []) :
    (dropped sent).count path = 1 + (putAside sent).count path := by
  induction h with
  | nil => exact (writes rfl).elim
  | @cons generated step steps first rest _ _ proceeds course ih =>
    rw [dropped_append, putAside_append, List.count_append, List.count_append]
    -- the step that generates the table first drops it, and makes it known to all later ones
    rcases Step.cases_rowsInto name step with ⟨g, rfl, same⟩ | other
    · have later : (dropped rest).count path = (putAside rest).count path := by
        refine course.count_dropped_of_known fun g' _ ht' => ?_
        rw [Target.tableRef_injective ht' ht, Value.memberOf_text, Step.generatedAfter, same]
        exact List.mem_cons_self
      rw [later, proceeds.dropped_eq (same ▸ ht), drops, memberOf_of_new same new,
        Bool.not_false, Bool.and_true, if_pos rfl, List.singleton_append, List.count_cons_self]
      omega
    · have now : (dropped first).count path = (putAside first).count path :=
        proceeds.count_dropped fun g hg ht' => (not_refers_of_rowsInto ht other hg ht').elim
      rw [rowsInto_cons_of_none other] at writes
      rw [now, ih (by rwa [Step.mem_generatedAfter other]) writes, Nat.add_left_comm]

/-- A step writes only into the table that it generates, and into shadow tables. -/
theorem Proceeds.madeUp_of_filled (h : Proceeds c settings generated step sent r)
    (other : step.rowsInto? name = none) :
    ∀ st ∈ sent, st.filled? = some path → MadeUp c .new path := by
  intro st hst filled
  cases h with
  | transform transformed => exact transformed.madeUp_of_filled st hst path filled
  | @generate g path' _ _ _ _ _ _ _ ht' prepares _ compiled transformed _ _ =>
    rcases List.mem_append.1 hst with hst | hst
    · rcases List.mem_append.1 hst with hst | hst
      · rw [prepares.filled st hst] at filled
        cases filled
      · obtain ⟨i, hi, rfl⟩ := List.mem_map.1 hst
        obtain ⟨_, _, inserts⟩ := partner_left compiled hi
        cases filled
        exact (not_refers_of_rowsInto ht other rfl (Target.names_of_insertRows inserts).1).elim
    · exact transformed.madeUp_of_filled st hst path filled

/-- Before a table is dropped, nothing is written into it, unless under a name made for a shadow. -/
theorem Course.dropped_before_filled (h : Course c settings generated steps sent rs)
    (drops : settings.dropFirst = true) (new : .text name ∉ generated)
    (writes : rowsInto name steps ≠ []) :
    ∃ pre post, sent = pre ++ .drop path :: post ∧
      ∀ st ∈ pre, st.filled? = some path → MadeUp c .new path := by
  induction h with
  | nil => exact (writes rfl).elim
  | @cons generated step steps first rest _ _ proceeds course ih =>
    rcases Step.cases_rowsInto name step with ⟨g, rfl, same⟩ | other
    · cases proceeds with
      | generate ht' prepares _ _ _ _ _ =>
        rw [same] at ht'
        cases ht.symm.trans ht'
        rw [drops, memberOf_of_new same new] at prepares
        cases prepares with
        | dropped _ => exact ⟨[], _, rfl, nofun⟩
        | emptied hd => cases hd
        | kept hd => cases hd
    · rw [rowsInto_cons_of_none other] at writes
      obtain ⟨pre, post, rfl, unfilled⟩ := ih (by rwa [Step.mem_generatedAfter other]) writes
      refine ⟨first ++ pre, post, by rw [List.append_assoc], fun st hst => ?_⟩
      exact (List.mem_append.1 hst).elim (proceeds.madeUp_of_filled ht other st) (unfilled st)

end Named

end Drops

section Sizes

variable {R : Rules} {convert : Conversion} {σ σ' : Store} {after : List Statement}

/-- A generate step writes its rows into the table and leaves all others as long as they were. -/
theorem Proceeds.size_of_generate (h : Proceeds c settings generated (.generate g) sent r)
    (ht : c.target.tableRef g.table.name = .ok path) (hR : R.engine = c.config.driver)
    (hx : PerformsAll R convert σ sent σ') :
    ∃ rows : List Row, σ'.size = (σ.set path rows).size ∧
      (settings.Counts c.config.driver g.rowCount → rows.length =
        (if settings.dropFirst && !g.table.name.memberOf generated || settings.truncateFirst then 0
          else (σ.rowsOf path).length) + g.rowCount) := by
  cases h with
  | generate ht' prepares divides compiled transformed _ _ =>
    cases ht.symm.trans ht'
    obtain ⟨σ₂, hx, hchanges⟩ := Folded.append_iff.1 hx
    obtain ⟨σ₁, hbefore, hinserts⟩ := Folded.append_iff.1 hx
    obtain ⟨is, added, extended, continued, all⟩ := continues_of_inserts rfl hR ht
      (fun n hn => (divides.within n hn).1) compiled hinserts
    obtain rfl := prepares.store hbefore
    rw [extended.eq_set Store.set_same, Store.set_set] at hchanges
    refine ⟨_, transformed.size hchanges, fun counts => ?_⟩
    rw [divides.sum] at all
    have length := continued.numbers.length_eq
    rw [all fun n hn => isCountable_of_divides divides counts hn, length_ordinals] at length
    rw [List.length_append, ← length]
    split <;> rfl

section Named

variable (ht : c.target.tableRef (.text name) = .ok path) (hR : R.engine = c.config.driver)
include ht hR

theorem Proceeds.size_of_other (h : Proceeds c settings generated step sent r)
    (other : step.rowsInto? name = none) (hx : PerformsAll R convert σ sent σ') :
    σ'.size path = σ.size path := by
  cases step with
  | transform g =>
    cases h with
    | transform transformed => rw [transformed.size hx]
  | generate g =>
    obtain ⟨path', ht'⟩ := h.tableRef
    obtain ⟨rows, same, _⟩ := h.size_of_generate ht' hR hx
    have apart : path ≠ path' := by
      rintro rfl
      exact not_refers_of_rowsInto ht other rfl ht'
    rw [same, Store.size_set_other apart]

/-- A table that is neither dropped nor emptied any more keeps its rows and gets those of all
steps. -/
theorem Course.size_of_kept (h : Course c settings generated steps sent rs)
    (keeps : settings.truncateFirst = false) (known : .text name ∈ generated)
    (counts : ∀ n ∈ rowsInto name steps, settings.Counts c.config.driver n) {n : ℕ}
    (size : σ.size path = some n) (hx : PerformsAll R convert σ sent σ') :
    σ'.size path = some (n + (rowsInto name steps).sum) := by
  induction h generalizing σ n with
  | nil =>
    cases hx
    simpa [rowsInto] using size
  | @cons generated step steps first rest _ _ proceeds course ih =>
    obtain ⟨σ₁, hfirst, hrest⟩ := Folded.append_iff.1 hx
    rcases Step.cases_rowsInto name step with ⟨g, rfl, same⟩ | other
    · rw [rowsInto_cons_of_same same] at counts ⊢
      obtain ⟨rows, sized, length⟩ := proceeds.size_of_generate (same ▸ ht) hR hfirst
      have member : g.table.name.memberOf generated = true := same ▸ Value.memberOf_text.2 known
      have now : rows.length = n + g.rowCount := by
        rw [length (counts _ List.mem_cons_self), keeps, member, Bool.not_true, Bool.and_false,
          Bool.or_false, if_neg Bool.false_ne_true, Store.length_rowsOf size]
      have grown : σ₁.size path = some (n + g.rowCount) := by
        rw [sized, Store.size_set, now]
      rw [ih (List.mem_cons_of_mem _ known) (fun n hn => counts n (List.mem_cons_of_mem _ hn)) grown
        hrest, List.sum_cons, Nat.add_assoc]
    · rw [rowsInto_cons_of_none other] at counts ⊢
      refine ih ((Step.mem_generatedAfter other).2 known) counts ?_ hrest
      rw [proceeds.size_of_other ht hR other hfirst, size]

/-- What was there before plays no role for a table that is dropped the first time. -/
theorem Course.size_of_dropped (h : Course c settings generated steps sent rs)
    (drops : settings.dropFirst = true) (keeps : settings.truncateFirst = false)
    (new : .text name ∉ generated) (writes : rowsInto name steps ≠ [])
    (counts : ∀ n ∈ rowsInto name steps, settings.Counts c.config.driver n)
    (hx : PerformsAll R convert σ sent σ') :
    σ'.size path = some (rowsInto name steps).sum := by
  induction h generalizing σ with
  | nil => exact (writes rfl).elim
  | @cons generated step steps first rest _ _ proceeds course ih =>
    obtain ⟨σ₁, hfirst, hrest⟩ := Folded.append_iff.1 hx
    rcases Step.cases_rowsInto name step with ⟨g, rfl, same⟩ | other
    · rw [rowsInto_cons_of_same same] at counts ⊢
      obtain ⟨rows, sized, length⟩ := proceeds.size_of_generate (same ▸ ht) hR hfirst
      have now : σ₁.size path = some g.rowCount := by
        rw [sized, Store.size_set, length (counts _ List.mem_cons_self), drops,
          memberOf_of_new same new, Bool.not_false, Bool.and_true, Bool.true_or, if_pos rfl,
          Nat.zero_add]
      rw [List.sum_cons]
      exact course.size_of_kept ht hR keeps (same ▸ List.mem_cons_self)
        (fun n hn => counts n (List.mem_cons_of_mem _ hn)) now hrest
    · rw [rowsInto_cons_of_none other] at counts writes ⊢
      exact ih (by rwa [Step.mem_generatedAfter other]) writes counts hrest

/-- A table that is emptied each time has the rows of the last step that writes into it. -/
theorem Course.size_of_emptied (h : Course c settings generated steps sent rs)
    (empties : settings.truncateFirst = true)
    (counts : ∀ n ∈ rowsInto name steps, settings.Counts c.config.driver n)
    (hx : PerformsAll R convert σ sent σ') :
    σ'.size path = (rowsInto name steps).getLast?.or (σ.size path) := by
  induction h generalizing σ with
  | nil =>
    cases hx
    rfl
  | @cons generated step steps first rest _ _ proceeds course ih =>
    obtain ⟨σ₁, hfirst, hrest⟩ := Folded.append_iff.1 hx
    rcases Step.cases_rowsInto name step with ⟨g, rfl, same⟩ | other
    · rw [rowsInto_cons_of_same same] at counts ⊢
      obtain ⟨rows, sized, length⟩ := proceeds.size_of_generate (same ▸ ht) hR hfirst
      have now : σ₁.size path = some g.rowCount := by
        rw [sized, Store.size_set, length (counts _ List.mem_cons_self), empties, Bool.or_true,
          if_pos rfl, Nat.zero_add]
      rw [ih (fun n hn => counts n (List.mem_cons_of_mem _ hn)) hrest, now, List.getLast?_cons]
      cases (rowsInto name steps).getLast? <;> rfl
    · rw [rowsInto_cons_of_none other] at counts ⊢
      rw [ih counts hrest, proceeds.size_of_other ht hR other hfirst]

end Named
end Sizes
end Run

section Stats

variable {name : String} {stats : List (Value × TableStats)} {rs : List StepResult}
  {r : StepResult}

/-- The stats of a table. -/
def statsOf (name : String) (stats : List (Value × TableStats)) : Option TableStats :=
  (stats.find? ((Value.text name).same ·.1)).map Prod.snd

/-- The stats once a step is counted. -/
def countStep (stats : List (Value × TableStats)) (r : StepResult) : List (Value × TableStats) :=
  let before := ((stats.find? (r.tableName.same ·.1)).map Prod.snd).getD {}
  Value.insertEntry r.tableName (before.add r) stats

/-- The rows that a step reports for a table. -/
def StepResult.rowsInto (name : String) (r : StepResult) : ℤ :=
  if (Value.text name).same r.tableName then (r.generate.map (·.rowsInserted)).getD 0 else 0

theorem ScenarioResult.tableStats_eq {result : ScenarioResult}
    (keys : ∀ r ∈ result.steps, r.tableName.isKey = true) :
    result.tableStats = .ok (result.steps.foldl countStep []) := by
  have none : result.steps.find? (fun r => !r.tableName.isKey) = none :=
    List.find?_eq_none.2 fun r hr => by simp [keys r hr]
  rw [ScenarioResult.tableStats, none]
  rfl

theorem statsOf_countStep : statsOf name (countStep stats r) =
    if (Value.text name).same r.tableName then some (((statsOf name stats).getD {}).add r)
    else statsOf name stats := by
  rw [statsOf, countStep, Value.find_insertEntry]
  split
  · next same =>
    rw [← Value.text_same.1 same]
    rfl
  · rfl

theorem statsOf_foldl (present : (statsOf name stats).isSome = true ∨
      ∃ r ∈ rs, (Value.text name).same r.tableName = true) :
    (statsOf name (rs.foldl countStep stats)).map (·.rowsInserted) =
      some (((statsOf name stats).getD {}).rowsInserted + (rs.map (·.rowsInto name)).sum) := by
  induction rs generalizing stats with
  | nil =>
    obtain ⟨st, hst⟩ := Option.isSome_iff_exists.1 (present.resolve_right (by simp))
    simp [hst]
  | cons r rs ih =>
    rw [List.foldl_cons]
    by_cases same : (Value.text name).same r.tableName = true
    · rw [ih (.inl (by rw [statsOf_countStep, if_pos same]; rfl)), statsOf_countStep, if_pos same]
      simp [StepResult.rowsInto, same, TableStats.add, Int.add_assoc]
    · rw [ih (by simpa [statsOf_countStep, same] using present), statsOf_countStep, if_neg same]
      simp [StepResult.rowsInto, same]

end Stats

namespace Run

section Reports

variable {c : Connection} {settings : GenerationSettings} {generated : List Value}
  {steps : List Step} {sent : List Statement} {rs : List StepResult} {name : String}

theorem Proceeds.tableName {step : Step} {r : StepResult}
    (h : Proceeds c settings generated step sent r) : r.tableName = step.tableName := by
  cases h <;> rfl

theorem Proceeds.rowsInto {step : Step} {r : StepResult}
    (h : Proceeds c settings generated step sent r) :
    r.rowsInto name = ((step.rowsInto? name).getD 0 : ℕ) := by
  cases h with
  | generate _ _ _ _ _ _ counted =>
    simp only [StepResult.rowsInto, Step.rowsInto?, Option.map_some, Option.getD_some, counted]
    split <;> rfl
  | transform _ => simp [StepResult.rowsInto, Step.rowsInto?]

theorem Course.names (h : Course c settings generated steps sent rs) :
    rs.map (·.tableName) = steps.map Step.tableName := by
  induction h with
  | nil => rfl
  | cons proceeds _ ih => rw [List.map_cons, List.map_cons, ih, proceeds.tableName]

theorem Course.reports (h : Course c settings generated steps sent rs) :
    (rs.map (·.rowsInto name)).sum = ((rowsInto name steps).sum : ℤ) := by
  induction h with
  | nil => rfl
  | @cons _ step _ _ _ _ _ proceeds _ ih =>
    rw [List.map_cons, List.sum_cons, ih, proceeds.rowsInto]
    cases hs : step.rowsInto? name <;> simp [rowsInto, hs]

/-- For a table that steps write into, a result reports as many rows as they write. -/
theorem Course.reported {result : ScenarioResult} {g : GenerateStep}
    (h : Course c settings generated steps sent result.steps)
    (keys : ∀ step ∈ steps, step.tableName.isKey = true) (hg : .generate g ∈ steps)
    (same : g.table.name = .text name) : ∃ stats, result.tableStats = .ok stats ∧
      (statsOf name stats).map (·.rowsInserted) = some ((rowsInto name steps).sum : ℤ) := by
  have known : ∀ r ∈ result.steps, r.tableName.isKey = true := by
    intro r hr
    have named : r.tableName ∈ steps.map Step.tableName := h.names ▸ List.mem_map_of_mem hr
    obtain ⟨step, hstep, named⟩ := List.mem_map.1 named
    exact named ▸ keys step hstep
  have present : ∃ r ∈ result.steps, (Value.text name).same r.tableName = true := by
    have named : Value.text name ∈ result.steps.map (·.tableName) :=
      h.names ▸ List.mem_map.2 ⟨_, hg, same⟩
    obtain ⟨r, hr, named⟩ := List.mem_map.1 named
    exact ⟨r, hr, Value.text_same.2 named.symm⟩
  refine ⟨_, ScenarioResult.tableStats_eq known, ?_⟩
  rw [statsOf_foldl (.inr present), h.reports]
  simp [statsOf]

end Reports
end Run
end SyntheticRows
