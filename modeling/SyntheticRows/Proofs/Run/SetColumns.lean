import SyntheticRows.Proofs.Run.BatchInTurn

/-!
# Columns that statements set

The updates of a batch set the columns that its active transformations assign, and no others. If no
column is assigned twice, none is set twice; and what one transformation assigns is never divided
over several updates.
-/
namespace SyntheticRows
open Sql Target
open scoped List

/-- The columns that the statement sets by an assignment, in order. -/
def Sql.Statement.setColumns : Statement → List String
  | .update u => u.assignments.map (·.1.name)
  | _ => []

/-- One of the statements sets all columns that the transformation assigns, the others set none. -/
def SetByOne (sts : List Statement) (tr : Transformation) : Prop :=
  ∃ before st after, sts = before ++ st :: after ∧ tr.assigned ⊆ st.setColumns ∧
    ∀ other ∈ before ++ after, ∀ n ∈ tr.assigned, n ∉ other.setColumns

/-- The statements set what the batch assigns, each column once and each transformation's columns
by one statement. -/
structure Batch.SetBy (b : Batch) (sts : List Statement) : Prop where
  distinct : ∀ st ∈ sts, st.setColumns.Nodup
  together : ∀ tr ∈ b.active, SetByOne sts tr
  assigned : sts.flatMap Statement.setColumns ~ b.active.flatMap Transformation.assigned

theorem setByOne_of_nodup {sts : List Statement} {tr : Transformation} {st : Statement}
    (hn : (sts.flatMap Statement.setColumns).Nodup) (hst : st ∈ sts)
    (hs : tr.assigned ⊆ st.setColumns) : SetByOne sts tr := by
  obtain ⟨before, after, rfl⟩ := List.append_of_mem hst
  refine ⟨before, st, after, rfl, hs, fun other ho n htr hn' => ?_⟩
  rw [List.flatMap_append, List.flatMap_cons, List.nodup_append', List.nodup_append'] at hn
  obtain ⟨-, ⟨-, -, later⟩, earlier⟩ := hn
  rcases List.mem_append.1 ho with ho | ho
  · exact earlier (List.mem_flatMap.2 ⟨other, ho, hn'⟩) (List.mem_append_left _ (hs htr))
  · exact later (hs htr) (List.mem_flatMap.2 ⟨other, ho, hn'⟩)

/-- Statements that set what is assigned only once set each column only once. -/
theorem Batch.setBy_of_perm {b : Batch} {sts : List Statement}
    (hn : (b.active.flatMap Transformation.assigned).Nodup)
    (hp : sts.flatMap Statement.setColumns ~ b.active.flatMap Transformation.assigned)
    (hs : ∀ tr ∈ b.active, ∃ st ∈ sts, tr.assigned ⊆ st.setColumns) : b.SetBy sts := by
  have distinct := hp.nodup_iff.2 hn
  refine ⟨(List.nodup_flatMap.1 distinct).1, fun tr htr => ?_, hp⟩
  obtain ⟨st, hst, set⟩ := hs tr htr
  exact setByOne_of_nodup distinct hst set

namespace Transformation

theorem names_append (vs ws : List Value) : names (vs ++ ws) = names vs ++ names ws :=
  List.filterMap_append

/-- The names of the columns that a list of transformations assigns. -/
theorem names_assignedColumns (trs : List Transformation) :
    names (trs.flatMap assignedColumns) = trs.flatMap assigned := by
  rw [names, List.filterMap_flatMap]
  rfl

end Transformation

/-- An update sets the columns that it was compiled from. -/
theorem names_of_compiled {given : List (Value × Expr)} {assignments : List (Ident × Expr)}
    (h : Compiled given assignments) :
    Transformation.names (given.map Prod.fst) = assignments.map (·.1.name) := by
  induction h with
  | nil => rfl
  | cons hg _ ih =>
    rw [List.map_cons, List.map_cons, hg.1, ← ih]
    rfl

namespace Target

variable {t : Target} {scope : Scope} {b : Batch} {actions : List Action}

section Shared

theorem columns_of_shared {l : List (Transformation × ℕ)} {n used : ℕ}
    {given : List (List (Value × Expr))}
    (h : Threaded (fun a n g m => Draws (t.sharedAssignments scope a.2 a.1) n g m) l n given used) :
    given.flatten.map Prod.fst = (l.map Prod.fst).flatMap Transformation.assignedColumns := by
  induction h with
  | nil => rfl
  | cons ha _ ih => simp [ih, (sharedAssignments_columns ha).2]

/-- The update of PostgreSQL and SQLite sets the columns in the order of the batch. -/
theorem setBy_of_sharedUpdate (hn : (b.active.flatMap Transformation.assigned).Nodup)
    (h : Returns (t.sharedUpdate scope b) actions) :
    ∃ sts, actions = sts.map .run ∧ b.SetBy sts := by
  have empty := sharedUpdate_eq_nil h
  obtain ⟨given, used, hg, h⟩ := sharedUpdate_returns h
  have columns := columns_of_shared hg
  rw [List.zipIdx_map_fst] at columns
  rcases h with ⟨_, rfl⟩ | ⟨_, table, assignments, unit, _, ha, _, rfl⟩
  · refine ⟨[], rfl, ?_⟩
    have none := empty.1 rfl
    exact Batch.setBy_of_perm hn (by simp [none]) (by simp [none])
  · have set : assignments.map (·.1.name) = b.active.flatMap Transformation.assigned := by
      rw [← names_of_compiled (compiled_of_assignments ha), columns,
        Transformation.names_assignedColumns]
    refine ⟨[.update { table, assignments, draws := _ }], rfl, Batch.setBy_of_perm hn ?_ ?_⟩
    · rw [List.flatMap_singleton]
      exact .of_eq set
    · refine fun tr htr => ⟨_, List.mem_singleton_self _, fun n hn => ?_⟩
      rw [Statement.setColumns, set]
      exact List.mem_flatMap.2 ⟨tr, htr, hn⟩

end Shared

section Trino

variable {table : Path} {index : ℕ} {tr : Transformation}

theorem trinoPart_given {given : Value × Expr}
    (h : Returns (t.trinoPart scope table index tr) (.inl given)) :
    tr.assignedColumns = [given.1] := by
  cases tr with
  | template tr =>
    obtain ⟨_, _, same⟩ := trinoPart_template h
    cases same
    rfl
  | mutation m =>
    obtain ⟨_, _, _, _, same⟩ := trinoPart_mutation h
    cases same
    rfl
  | lookup l =>
    obtain ⟨_, _, same⟩ := trinoPart_lookup h
    cases same
    rfl
  | swap s =>
    obtain ⟨_, _, _, _, _, same, _⟩ := trinoPart_swap h
    cases same
  | other kind => cases kind <;> exact (Returns.of_throw h).elim

theorem trinoPart_own {st : Statement} (h : Returns (t.trinoPart scope table index tr) (.inr st)) :
    st.setColumns = tr.assigned := by
  obtain ⟨s, rfl⟩ := swap_of_trinoPart h
  obtain ⟨first, second, _, h₁, h₂, same, _⟩ := trinoPart_swap h
  cases same
  simp [Statement.setColumns, Transformation.assigned, Transformation.assignedColumns,
    Transformation.names, ident_text h₁, ident_text h₂]

/-- The shared update and the swaps' own updates divide the columns among them. -/
theorem columns_of_trinoParts {l : List (Transformation × ℕ)}
    {parts : List ((Value × Expr) ⊕ Statement)}
    (h : List.Forall₂ (fun a p => Returns (t.trinoPart scope table a.2 a.1) p) l parts) :
    Transformation.names ((parts.filterMap Sum.getLeft?).map Prod.fst) ++
      (parts.filterMap Sum.getRight?).flatMap Statement.setColumns ~
        (l.map Prod.fst).flatMap Transformation.assigned := by
  induction h with
  | nil => exact .refl _
  | @cons a p l parts ha _ ih =>
    rw [List.map_cons, List.flatMap_cons]
    cases p with
    | inl given =>
      rw [Transformation.assigned, trinoPart_given ha]
      simp only [List.filterMap_cons, Sum.getLeft?_inl, Sum.getRight?_inl, List.map_cons]
      rw [← List.singleton_append, Transformation.names_append, List.append_assoc]
      exact ih.append_left _
    | inr st =>
      rw [← trinoPart_own ha]
      simp only [List.filterMap_cons, Sum.getLeft?_inr, Sum.getRight?_inr, List.flatMap_cons]
      exact List.perm_append_comm_assoc _ _ _ |>.trans (ih.append_left _)

theorem setBy_of_trinoUpdates (hn : (b.active.flatMap Transformation.assigned).Nodup)
    (h : Returns (t.trinoUpdates scope b) actions) :
    ∃ sts, actions = sts.map .run ∧ b.SetBy sts := by
  obtain ⟨table, parts, _, hparts, shared, rfl, hs⟩ := trinoUpdates_returns h
  have columns := columns_of_trinoParts hparts
  rw [List.zipIdx_map_fst] at columns
  have set : shared.flatMap Statement.setColumns =
      Transformation.names ((parts.filterMap Sum.getLeft?).map Prod.fst) := by
    rcases hs with ⟨none, rfl⟩ | ⟨_, assignments, ha, rfl⟩
    · rw [none]
      rfl
    · rw [List.flatMap_singleton, names_of_compiled (compiled_of_assignments ha)]
      rfl
  refine ⟨_, rfl, Batch.setBy_of_perm hn ?_ fun tr htr => ?_⟩
  · rwa [List.flatMap_append, set]
  · rw [← List.zipIdx_map_fst 0 b.active] at htr
    obtain ⟨a, ha, rfl⟩ := List.mem_map.1 htr
    obtain ⟨p, hp, part⟩ := partner_right hparts ha
    cases p with
    | inr st =>
      have own : st ∈ parts.filterMap Sum.getRight? := List.mem_filterMap.2 ⟨_, hp, rfl⟩
      exact ⟨st, List.mem_append_right _ own, by rw [trinoPart_own part]; exact List.Subset.refl _⟩
    | inl given =>
      have there : given ∈ parts.filterMap Sum.getLeft? := List.mem_filterMap.2 ⟨_, hp, rfl⟩
      rcases hs with ⟨none, rfl⟩ | ⟨_, assignments, _, rfl⟩
      · rw [none] at there
        cases there
      · refine ⟨_, List.mem_append_left _ (List.mem_singleton_self _), fun n hn => ?_⟩
        rw [List.flatMap_singleton] at set
        rw [set, Transformation.mem_names]
        rw [Transformation.assigned, trinoPart_given part, Transformation.mem_names,
          List.mem_singleton] at hn
        exact List.mem_map.2 ⟨given, there, hn.symm⟩

end Trino

section ClickHouse

theorem columns_of_updated {l : List (Transformation × ℕ)} {assignments : List (Ident × Expr)}
    (h : List.Forall₂ (t.Updates scope) l assignments) :
    assignments.map (·.1.name) = (l.map Prod.fst).flatMap Transformation.assigned := by
  induction h with
  | nil => rfl
  | @cons m a l assignments ha _ ih =>
    obtain ⟨tr, index⟩ := m
    obtain ⟨known, inPlace, hcolumn, _⟩ := ha
    have one : tr.assigned = [a.1.name] := by
      have named := ident_text hcolumn
      cases tr with
      | lookup l => cases inPlace
      | swap s => cases inPlace
      | other kind => cases known
      | _ =>
        simp only [Transformation.assignedColumns, List.headD_cons] at named
        simp [Transformation.assigned, Transformation.assignedColumns, Transformation.names, named]
    simp [ih, one]

/-- The update of ClickHouse sets the columns of what is not rebuilt. -/
theorem setColumns_of_clickhouseActions {st : Statement}
    (h : Returns (t.clickhouseActions scope b) actions) (hst : .run st ∈ actions) :
    st.setColumns = (remainingPart scope b).flatMap Transformation.assigned := by
  obtain ⟨known, assignments, ha, passes, hpasses, hactions⟩ := clickhouseActions_returns h
  have columns := columns_of_updated (updates_of_returns known ha)
  rw [updatedPart_map_fst] at columns
  have rebuilt : .run st ∉ passes := by
    rcases hpasses with ⟨_, rfl⟩ | ⟨_, rfl⟩ <;> simp
  rcases hactions with ⟨_, rfl⟩ | ⟨_, _, _, rfl⟩
  · exact (rebuilt hst).elim
  · rcases List.mem_append.1 hst with hst | hst
    · exact (rebuilt hst).elim
    · cases List.mem_singleton.1 hst
      exact columns

end ClickHouse

/-- No statement of an accepted batch sets a column twice. -/
theorem nodup_setColumns_of_batchActions {st : Statement}
    (hn : (b.active.flatMap Transformation.assigned).Nodup)
    (h : Returns (t.batchActions scope b) actions) (hst : .run st ∈ actions) :
    st.setColumns.Nodup := by
  have updated (h : ∃ sts, actions = sts.map .run ∧ b.SetBy sts) : st.setColumns.Nodup := by
    obtain ⟨sts, rfl, set⟩ := h
    obtain ⟨_, there, same⟩ := List.mem_map.1 hst
    cases same
    exact set.distinct st there
  unfold batchActions at h
  split at h
  · exact updated (setBy_of_trinoUpdates hn h)
  · rw [setColumns_of_clickhouseActions h hst]
    exact (nodup_of_parts hn).2
  · exact updated (setBy_of_sharedUpdate hn h)

/-- The engines that rebuild nothing set what a batch assigns by updates alone. -/
theorem setBy_of_batchActions (hd : t.dialect ≠ .of .clickhouse)
    (hn : (b.active.flatMap Transformation.assigned).Nodup)
    (h : Returns (t.batchActions scope b) actions) :
    ∃ sts, actions = sts.map .run ∧ b.SetBy sts := by
  unfold batchActions at h
  split at h
  · exact setBy_of_trinoUpdates hn h
  · exact (hd ‹_›).elim
  · exact setBy_of_sharedUpdate hn h

end Target
end SyntheticRows
