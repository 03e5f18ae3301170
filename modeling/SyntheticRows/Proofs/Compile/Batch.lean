import SyntheticRows.Proofs.Compile.Returns

/-!
# What batches become

The actions of a batch that compiles, on each of the engines, and the parts that they are put
together from. A batch leads to no action exactly if nothing in it is active.
-/
namespace SyntheticRows
open Sql

/-- Whether ClickHouse carries the transformation out by a rebuild of the table. -/
def Transformation.isRebuilt (sortKey : Value) : Transformation → Bool
  | .lookup _ | .swap _ => true
  | .template t => t.column.same sortKey
  | .mutation m => m.column.same sortKey
  | .other _ => false

/-- Whether the kind of the transformation is one that the dialects know. -/
def Transformation.isKnown : Transformation → Bool
  | .other _ => false
  | _ => true

namespace Target

variable {t : Target} {scope : Scope} {b : Batch} {actions : List Action}

theorem sharedUpdate_returns (h : Returns (t.sharedUpdate scope b) actions) :
    ∃ given used, Threaded (fun a n g m => Draws (t.sharedAssignments scope a.2 a.1) n g m)
        b.active.zipIdx 0 given used ∧
      (given.flatten = [] ∧ actions = [] ∨
        given.flatten ≠ [] ∧ ∃ table assignments unit, t.tableRef scope.table = .ok table ∧
          t.assignments given.flatten = .ok assignments ∧ t.dialect.unit 0 = .ok unit ∧
          actions = [.run (.update {
            table, assignments
            draws := (List.range used).map fun i => ("_r" ++ toString i, unit) })]) := by
  unfold sharedUpdate at h
  obtain ⟨⟨given, used⟩, hg, h⟩ := Returns.of_bind h
  refine ⟨given, used, Draws.of_mapM hg, ?_⟩
  by_cases hn : given.flatten = []
  · simp only [hn, List.isEmpty_nil, if_true] at h
    exact .inl ⟨hn, Returns.of_pure h⟩
  · simp only [List.isEmpty_iff, hn, if_false] at h
    obtain ⟨table, ht, h⟩ := Returns.of_bind h
    obtain ⟨assignments, ha, h⟩ := Returns.of_bind h
    obtain ⟨unit, hu, h⟩ := Returns.of_bind h
    exact .inr ⟨hn, table, assignments, unit, Returns.of_lift ht, Returns.of_lift ha,
      Returns.of_lift hu, Returns.of_pure h⟩

theorem trinoUpdates_returns (h : Returns (t.trinoUpdates scope b) actions) :
    ∃ table parts, t.tableRef scope.table = .ok table ∧
      List.Forall₂ (fun a p => Returns (t.trinoPart scope table a.2 a.1) p) b.active.zipIdx parts ∧
      ∃ shared, actions = (shared ++ parts.filterMap Sum.getRight?).map .run ∧
        (parts.filterMap Sum.getLeft? = [] ∧ shared = [] ∨
          parts.filterMap Sum.getLeft? ≠ [] ∧ ∃ assignments,
            t.assignments (parts.filterMap Sum.getLeft?) = .ok assignments ∧
            shared = [.update { table, assignments }]) := by
  unfold trinoUpdates at h
  obtain ⟨table, ht, h⟩ := Returns.of_bind h
  obtain ⟨parts, hp, h⟩ := Returns.of_bind h
  refine ⟨table, parts, Returns.of_lift ht, Returns.of_mapM hp, ?_⟩
  by_cases hn : parts.filterMap Sum.getLeft? = []
  · simp only [hn, List.isEmpty_nil, if_true] at h
    obtain ⟨shared, hs, h⟩ := Returns.of_bind h
    cases Returns.of_pure hs
    exact ⟨[], Returns.of_pure h, .inl ⟨hn, rfl⟩⟩
  · simp only [List.isEmpty_iff, hn, if_false] at h
    obtain ⟨assignments, ha, h⟩ := Returns.of_bind h
    obtain ⟨shared, hs, h⟩ := Returns.of_bind h
    cases Returns.of_pure hs
    exact ⟨_, Returns.of_pure h, .inr ⟨hn, assignments, Returns.of_lift ha, rfl⟩⟩

theorem needsRebuild_returns {sortKey : Value} {tr : Transformation} {r : Bool}
    (h : Returns (needsRebuild sortKey tr) r) : tr.isKnown ∧ tr.isRebuilt sortKey = r := by
  cases tr with
  | other kind =>
    cases kind with
    | none => exact (Returns.of_throw h).elim
    | some _ => exact (Returns.of_throw h).elim
  | _ => exact ⟨rfl, (Returns.of_pure h).symm⟩

/-- A column by its name alone. -/
def plainRef (t : Target) (column : Value) : Except Error Expr := do
  return .name [.given (← t.ident column)]

/-- The part of a batch that ClickHouse rebuilds the table for. -/
def rebuiltPart (scope : Scope) (b : Batch) : List Transformation :=
  b.active.filter (Transformation.isRebuilt (scope.columns.headD .null))

/-- The part of a batch that ClickHouse updates in place, with the places in the batch. -/
def updatedPart (scope : Scope) (b : Batch) : List (Transformation × Nat) :=
  b.active.zipIdx.filter fun a => !a.1.isRebuilt (scope.columns.headD .null)

theorem routed_returns {sortKey : Value} {l : List (Transformation × Nat)}
    {routed : List (Transformation × Nat × Bool)}
    (h : Returns (l.mapM fun a => do return (a.1, a.2, ← needsRebuild sortKey a.1)) routed) :
    (∀ a ∈ l, a.1.isKnown) ∧
      l.map (fun a => (a.1, a.2, a.1.isRebuilt sortKey)) = routed := by
  rw [← List.forall₂_eq_eq_eq, List.forall₂_map_left_iff, ← List.forall₂_and_left]
  refine (Returns.of_mapM h).imp fun a r ha => ?_
  obtain ⟨_, hr, ha⟩ := Returns.of_bind ha
  obtain ⟨known, rfl⟩ := needsRebuild_returns hr
  exact ⟨known, (Returns.of_pure ha).symm⟩

/-- The two parts are the routed transformations, sorted by their way. -/
theorem rebuiltPart_eq : (b.active.zipIdx.map fun a =>
    (a.1, a.2, a.1.isRebuilt (scope.columns.headD .null))).filterMap
      (fun r => if r.2.2 then some r.1 else none) = rebuiltPart scope b := by
  rw [rebuiltPart, List.filterMap_map, ← List.filterMap_eq_filter]
  conv_rhs => rw [← List.zipIdx_map_fst 0 b.active, List.filterMap_map]
  rfl

theorem updatedPart_eq : (b.active.zipIdx.map fun a =>
    (a.1, a.2, a.1.isRebuilt (scope.columns.headD .null))).filterMap
      (fun r => if r.2.2 then none else some (r.1, r.2.1)) = updatedPart scope b := by
  rw [updatedPart, List.filterMap_map, ← List.filterMap_eq_filter]
  refine List.filterMap_congr fun a _ => ?_
  cases hr : a.1.isRebuilt (scope.columns.headD .null) <;>
    simp only [Function.comp_apply, Option.guard, hr] <;> rfl

theorem clickhouseActions_returns (h : Returns (t.clickhouseActions scope b) actions) :
    (∀ tr ∈ b.active, tr.isKnown) ∧ ∃ assignments,
      List.Forall₂ (fun m a => t.ident (m.1.assignedColumns.headD .null) = .ok a.1 ∧
          Returns (t.rowExpr scope t.plainRef (transformationSalt + m.2 : Nat) m.1) a.2)
        (updatedPart scope b) assignments ∧
      ∃ passes, (rebuiltPart scope b = [] ∧ passes = [] ∨ rebuiltPart scope b ≠ [] ∧
          passes = [.replace ⟨scope.table, rebuiltPart scope b, scope.strict⟩]) ∧
        (assignments = [] ∧ actions = passes ∨ assignments ≠ [] ∧ ∃ table,
          t.tableRef scope.table = .ok table ∧
          actions = passes ++ [.run (.update { table, assignments })]) := by
  unfold clickhouseActions at h
  obtain ⟨routed, hr, h⟩ := Returns.of_bind h
  obtain ⟨known, rfl⟩ := routed_returns hr
  simp only [rebuiltPart_eq, updatedPart_eq] at h
  obtain ⟨assignments, ha, h⟩ := Returns.of_bind h
  refine ⟨fun tr htr => ?_, assignments, ?_, ?_⟩
  · rw [← List.zipIdx_map_fst 0 b.active] at htr
    obtain ⟨a, ha, rfl⟩ := List.mem_map.1 htr
    exact known a ha
  · refine (Returns.of_mapM ha).imp fun m a hm => ?_
    obtain ⟨column, hc, hm⟩ := Returns.of_bind hm
    obtain ⟨x, hx, hm⟩ := Returns.of_bind hm
    rw [Returns.of_pure hm]
    exact ⟨Returns.of_lift hc, hx⟩
  · refine ⟨if rebuiltPart scope b = [] then []
        else [.replace ⟨scope.table, rebuiltPart scope b, scope.strict⟩], ?_, ?_⟩
    · by_cases hn : rebuiltPart scope b = [] <;> simp [hn]
    · by_cases hn : assignments = []
      · simp only [hn, List.isEmpty_nil, if_true] at h
        refine .inl ⟨hn, ?_⟩
        simpa using Returns.of_pure h
      · simp only [List.isEmpty_iff, hn, if_false] at h
        obtain ⟨table, ht, h⟩ := Returns.of_bind h
        refine .inr ⟨hn, table, Returns.of_lift ht, ?_⟩
        simpa using Returns.of_pure h


/-- A column by the names of its table and its own. -/
def tableColumn (t : Target) (table column : Value) : Except Error Expr :=
  .name <$> t.columnRef table column

section Shared

variable {index n k : Nat} {given : List (Value × Expr)}

theorem sharedAssignments_template {tr : Template}
    (h : Draws (t.sharedAssignments scope index (.template tr)) n given k) :
    ∃ x, Returns (tr.expression t.dialect scope.table scope.columns scope.strict
        (t.tableColumn scope.table)) x ∧
      given = [(tr.column, x)] ∧ k = n := by
  simp only [sharedAssignments] at h
  obtain ⟨x, _, hd, h⟩ := Draws.of_bind h
  obtain ⟨hx, rfl⟩ := Draws.of_warned hd
  obtain ⟨rfl, rfl⟩ := Draws.of_pure h
  exact ⟨x, hx, rfl, rfl⟩

theorem sharedAssignments_mutation {m : Mutation}
    (h : Draws (t.sharedAssignments scope index (.mutation m)) n given k) :
    ∃ path x, t.columnRef scope.table m.column = .ok path ∧
      m.withDraws t.dialect (.name path) sharedDraw n = .ok x ∧
      given = [(m.column, x)] ∧ k = n + m.drawCount := by
  simp only [sharedAssignments] at h
  obtain ⟨first, _, hf, h⟩ := Draws.of_bind h
  obtain ⟨rfl, rfl⟩ := Draws.of_takeDraws hf
  obtain ⟨_, _, hd, h⟩ := Draws.of_bind h
  obtain ⟨path, hm, rfl⟩ := Draws.of_map hd
  obtain ⟨hc, rfl⟩ := Draws.of_lift hm
  obtain ⟨x, _, hd, h⟩ := Draws.of_bind h
  obtain ⟨hx, rfl⟩ := Draws.of_lift hd
  obtain ⟨rfl, rfl⟩ := Draws.of_pure h
  exact ⟨path, x, hc, hx, rfl, rfl⟩

theorem sharedAssignments_lookup {l : Lookup}
    (h : Draws (t.sharedAssignments scope index (.lookup l)) n given k) :
    ∃ x, t.lookupExpr scope.table l (lookupName index) .limit = .ok x ∧
      given = [(l.column, x)] ∧ k = n := by
  simp only [sharedAssignments] at h
  obtain ⟨x, _, hd, h⟩ := Draws.of_bind h
  obtain ⟨hx, rfl⟩ := Draws.of_lift hd
  obtain ⟨rfl, rfl⟩ := Draws.of_pure h
  exact ⟨x, hx, rfl, rfl⟩

theorem sharedAssignments_swap {s : Swap}
    (h : Draws (t.sharedAssignments scope index (.swap s)) n given k) :
    ∃ first second, t.columnRef scope.table s.column1 = .ok first ∧
      t.columnRef scope.table s.column2 = .ok second ∧
      ((Number.int 1).le s.probability.val = true ∧ k = n ∧
          given = [(s.column1, .name second), (s.column2, .name first)] ∨
        (Number.int 1).le s.probability.val = false ∧ k = n + 1 ∧
          ∃ p, Expr.ofNumber s.probability.val = .ok p ∧
            given = [(s.column1, .caseWhen [(.less (sharedDraw n) p, .name second)] (.name first)),
              (s.column2, .caseWhen [(.less (sharedDraw n) p, .name first)] (.name second))]) := by
  simp only [sharedAssignments] at h
  obtain ⟨_, _, hd, h⟩ := Draws.of_bind h
  obtain ⟨first, hm, rfl⟩ := Draws.of_map hd
  obtain ⟨hf, rfl⟩ := Draws.of_lift hm
  obtain ⟨_, _, hd, h⟩ := Draws.of_bind h
  obtain ⟨second, hm, rfl⟩ := Draws.of_map hd
  obtain ⟨hs, rfl⟩ := Draws.of_lift hm
  refine ⟨first, second, hf, hs, ?_⟩
  unfold swapAssignments at h
  by_cases hp : (Number.int 1).le s.probability.val = true
  · simp only [hp, if_true] at h
    obtain ⟨rfl, rfl⟩ := Draws.of_pure h
    exact .inl ⟨hp, rfl, rfl⟩
  · simp only [hp] at h
    obtain ⟨draw, _, hd, h⟩ := Draws.of_bind h
    obtain ⟨rfl, rfl⟩ := Draws.of_takeDraws hd
    obtain ⟨p, _, hd, h⟩ := Draws.of_bind h
    obtain ⟨hq, rfl⟩ := Draws.of_lift hd
    obtain ⟨rfl, rfl⟩ := Draws.of_pure h
    exact .inr ⟨by simpa using hp, rfl, p, hq, rfl⟩

/-- A transformation assigns the columns that it names, in that order. -/
theorem sharedAssignments_columns {tr : Transformation}
    (h : Draws (t.sharedAssignments scope index tr) n given k) :
    tr.isKnown ∧ given.map Prod.fst = tr.assignedColumns := by
  cases tr with
  | template tr =>
    obtain ⟨x, _, rfl, _⟩ := sharedAssignments_template h
    exact ⟨rfl, rfl⟩
  | mutation m =>
    obtain ⟨column, x, _, _, rfl, _⟩ := sharedAssignments_mutation h
    exact ⟨rfl, rfl⟩
  | lookup l =>
    obtain ⟨x, _, rfl, _⟩ := sharedAssignments_lookup h
    exact ⟨rfl, rfl⟩
  | swap s =>
    obtain ⟨_, _, _, _, ⟨_, _, rfl⟩ | ⟨_, _, _, _, rfl⟩⟩ := sharedAssignments_swap h
    · exact ⟨rfl, rfl⟩
    · exact ⟨rfl, rfl⟩
  | other kind => exact (Draws.of_throw h).elim

end Shared

section Trino

variable {table : Path} {index : Nat} {part : (Value × Expr) ⊕ Statement}

theorem trinoPart_template {tr : Template}
    (h : Returns (t.trinoPart scope table index (.template tr)) part) :
    ∃ x, Returns (tr.expression t.dialect scope.table scope.columns scope.strict t.plainRef) x ∧
      part = .inl (tr.column, x) := by
  obtain ⟨x, hx, h⟩ := Returns.of_bind h
  exact ⟨x, hx, Returns.of_pure h⟩

theorem trinoPart_mutation {m : Mutation}
    (h : Returns (t.trinoPart scope table index (.mutation m)) part) :
    ∃ column x, t.ident m.column = .ok column ∧
      m.boundExpr .trino (.name [.given column]) 0 = .ok x ∧ part = .inl (m.column, x) := by
  obtain ⟨column, hc, h⟩ := Returns.of_bind h
  obtain ⟨x, hx, h⟩ := Returns.of_bind h
  exact ⟨column, x, Returns.of_lift hc, Returns.of_lift hx, Returns.of_pure h⟩

theorem trinoPart_lookup {l : Lookup}
    (h : Returns (t.trinoPart scope table index (.lookup l)) part) :
    ∃ x, t.lookupExpr scope.table l (lookupName index) .aggregate = .ok x ∧
      part = .inl (l.column, x) := by
  obtain ⟨x, hx, h⟩ := Returns.of_bind h
  exact ⟨x, Returns.of_lift hx, Returns.of_pure h⟩

theorem trinoPart_swap {s : Swap} (h : Returns (t.trinoPart scope table index (.swap s)) part) :
    ∃ first second condition, t.ident s.column1 = .ok first ∧ t.ident s.column2 = .ok second ∧
      part = .inr (.update {
        table
        assignments := [(first, .name [.given second]), (second, .name [.given first])]
        condition }) ∧
      (s.probability.val.lt (.int 1) = false ∧ condition = none ∨
        s.probability.val.lt (.int 1) = true ∧ ∃ p, Expr.ofNumber s.probability.val = .ok p ∧
          condition = some (.less Engine.random p)) := by
  obtain ⟨st, hst, h⟩ := Returns.of_bind h
  replace hst := Returns.of_lift hst
  cases Returns.of_pure h
  obtain ⟨first, hf, hst⟩ := except_ok_of_bind hst
  obtain ⟨second, hs, hst⟩ := except_ok_of_bind hst
  by_cases hp : s.probability.val.lt (.int 1) = true
  · simp only [hp, if_true] at hst
    obtain ⟨p, hq, hst⟩ := except_ok_of_bind hst
    cases hst
    exact ⟨first, second, _, hf, hs, rfl, .inr ⟨hp, p, hq, rfl⟩⟩
  · simp only [hp] at hst
    cases hst
    exact ⟨first, second, _, hf, hs, rfl, .inl ⟨by simpa using hp, rfl⟩⟩

/-- What is updated by a statement of its own is a swap. -/
theorem swap_of_trinoPart {tr : Transformation} {st : Statement}
    (h : Returns (t.trinoPart scope table index tr) (.inr st)) : ∃ s, tr = .swap s := by
  cases tr with
  | swap s => exact ⟨s, rfl⟩
  | template tr =>
    obtain ⟨_, _, same⟩ := trinoPart_template h
    cases same
  | mutation m =>
    obtain ⟨_, _, _, _, same⟩ := trinoPart_mutation h
    cases same
  | lookup l =>
    obtain ⟨_, _, same⟩ := trinoPart_lookup h
    cases same
  | other kind => cases kind <;> exact (Returns.of_throw h).elim

end Trino

theorem rowExpr_template {ref : Value → Except Error Expr} {salt : Int} {tr : Template} {x : Expr}
    (h : Returns (t.rowExpr scope ref salt (.template tr)) x) :
    Returns (tr.expression t.dialect scope.table scope.columns scope.strict ref) x := h

theorem rowExpr_mutation {ref : Value → Except Error Expr} {salt : Int} {m : Mutation} {x : Expr}
    (h : Returns (t.rowExpr scope ref salt (.mutation m)) x) :
    ∃ column, ref m.column = .ok column ∧ m.boundExpr .clickhouse column salt = .ok x := by
  obtain ⟨column, hc, h⟩ := Returns.of_bind h
  exact ⟨column, Returns.of_lift hc, Returns.of_lift h⟩

theorem assignedColumns_ne_nil {tr : Transformation} (h : tr.isKnown) :
    tr.assignedColumns ≠ [] := by
  cases tr with
  | other kind => cases h
  | _ => simp [Transformation.assignedColumns]

theorem sharedUpdate_eq_nil (h : Returns (t.sharedUpdate scope b) actions) :
    actions = [] ↔ b.active = [] := by
  obtain ⟨given, used, hg, h⟩ := sharedUpdate_returns h
  have empty : given.flatten = [] ↔ b.active = [] := by
    rw [← List.zipIdx_eq_nil_iff (l := b.active) (i := 0)]
    generalize b.active.zipIdx = l at hg ⊢
    cases hg with
    | nil => simp
    | cons ha _ =>
      obtain ⟨known, columns⟩ := sharedAssignments_columns ha
      have some := assignedColumns_ne_nil known
      rw [← columns, ne_eq, List.map_eq_nil_iff] at some
      simp [some]
  rcases h with ⟨hn, rfl⟩ | ⟨hn, _, _, _, _, _, _, rfl⟩
  · simpa using empty.1 hn
  · simpa using fun h => hn (empty.2 h)

theorem trinoUpdates_eq_nil (h : Returns (t.trinoUpdates scope b) actions) :
    actions = [] ↔ b.active = [] := by
  obtain ⟨table, parts, _, hp, shared, rfl, hs⟩ := trinoUpdates_returns h
  rw [← List.zipIdx_eq_nil_iff (l := b.active) (i := 0)]
  generalize b.active.zipIdx = l at hp ⊢
  cases hp with
  | nil =>
    rcases hs with ⟨_, rfl⟩ | ⟨hn, _⟩
    · simp
    · simp at hn
  | @cons _ part _ _ _ _ =>
    rcases hs with ⟨hn, rfl⟩ | ⟨_, _, _, rfl⟩
    · cases part with
      | inl g => simp at hn
      | inr st => simp
    · simp

theorem clickhouseActions_eq_nil (h : Returns (t.clickhouseActions scope b) actions) :
    actions = [] ↔ b.active = [] := by
  obtain ⟨_, assignments, ha, passes, hp, h⟩ := clickhouseActions_returns h
  have parts : b.active = [] ↔ rebuiltPart scope b = [] ∧ assignments = [] := by
    have updated : assignments = [] ↔ updatedPart scope b = [] := by
      rw [← List.length_eq_zero_iff, ← ha.length_eq, List.length_eq_zero_iff]
    rw [updated, rebuiltPart, updatedPart, List.filter_eq_nil_iff, List.filter_eq_nil_iff]
    constructor
    · intro hn
      simp [hn]
    · rintro ⟨hr, hu⟩
      refine List.eq_nil_iff_forall_not_mem.2 fun tr htr => ?_
      obtain ⟨i, hi, rfl⟩ := List.mem_iff_getElem.1 htr
      refine hu (b.active[i], i)
        (List.mk_mem_zipIdx_iff_getElem?.2 (List.getElem?_eq_getElem hi)) ?_
      simpa only [Bool.not_eq_true', Bool.not_eq_true] using hr _ htr
  rcases hp with ⟨hr, rfl⟩ | ⟨hr, rfl⟩ <;> rcases h with ⟨hn, rfl⟩ | ⟨hn, _, _, rfl⟩ <;>
    simp [parts, hr, hn]

/-- A batch that compiles does something exactly if something in it is active. -/
theorem batchActions_eq_nil (h : Returns (t.batchActions scope b) actions) :
    actions = [] ↔ b.active = [] := by
  unfold batchActions at h
  split at h
  · exact trinoUpdates_eq_nil h
  · exact clickhouseActions_eq_nil h
  · exact sharedUpdate_eq_nil h

end Target
end SyntheticRows
