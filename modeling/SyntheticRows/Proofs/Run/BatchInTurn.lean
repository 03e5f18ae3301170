import SyntheticRows.Proofs.Meaning.Batch
import SyntheticRows.Proofs.Meaning.RemainingUpdate
import SyntheticRows.Proofs.Run.Replacement

/-!
# Batches in two parts

On ClickHouse a batch is a replacement and then an update. A row first goes through what the table
is rebuilt for, all at once, and then through the rest, all at once. If the rest reads nothing that
the first part assigns, that is the whole batch at once, as on the other engines.
-/
namespace SyntheticRows
open Sql Target

/-- One row after both parts of a batch. -/
def InTurn (R : Rules) (t : Target) (tables : Store) (scope : Scope) (b : Batch)
    (row row' : Row) : Prop :=
  ∃ mid, Transforms R t tables scope.columns (rebuiltPart scope b) row mid ∧
    Transforms R t tables scope.columns (remainingPart scope b) mid row'

/-- The second part reads no column that the first one assigns. -/
def Target.Unread (scope : Scope) (b : Batch) : Prop :=
  ∀ tr ∈ remainingPart scope b, ∀ n ∈ tr.reads scope.columns,
    n ∉ (rebuiltPart scope b).flatMap Transformation.assigned

section Parts

variable {R : Rules} {t : Target} {scope : Scope} {b : Batch} {path : Path} {σ : Store}
  {rows : List Row} {row row' : Row}

theorem parts_perm : (rebuiltPart scope b ++ remainingPart scope b).Perm b.active :=
  List.filter_append_perm _ _

theorem parts_nodup (hn : (b.active.flatMap Transformation.assigned).Nodup) :
    ((rebuiltPart scope b ++ remainingPart scope b).flatMap Transformation.assigned).Nodup :=
  (parts_perm.flatMap_right _).nodup_iff.2 hn

/-- Neither part of a batch that a rebuild divides assigns a column twice. -/
theorem nodup_of_parts (hn : (b.active.flatMap Transformation.assigned).Nodup) :
    ((rebuiltPart scope b).flatMap Transformation.assigned).Nodup ∧
      ((remainingPart scope b).flatMap Transformation.assigned).Nodup := by
  have parts : ((rebuiltPart scope b ++ remainingPart scope b).flatMap
      Transformation.assigned).Nodup := parts_nodup hn
  rw [List.flatMap_append] at parts
  exact ⟨parts.of_append_left, parts.of_append_right⟩

theorem mem_active_of_rebuilt {tr : Transformation} (h : tr ∈ rebuiltPart scope b) :
    tr ∈ b.active := List.mem_of_mem_filter h

theorem mem_active_of_remaining {tr : Transformation} (h : tr ∈ remainingPart scope b) :
    tr ∈ b.active := List.mem_of_mem_filter h

/-- The split cannot be seen if the second part reads nothing of the first. -/
theorem inTurn_iff (hn : (b.active.flatMap Transformation.assigned).Nodup)
    (h : Unread scope b) :
    InTurn R t σ scope b row row' ↔ Transforms R t σ scope.columns b.active row row' := by
  have distinct : ((rebuiltPart scope b ++ remainingPart scope b).flatMap
      Transformation.assigned).Nodup := parts_nodup hn
  rw [← Transforms.perm parts_perm distinct]
  exact (Transforms.append (disjoint_of_nodup distinct) h).symm

/-- The update of a batch, whatever the replacement before it left. -/
theorem remaining_executes {assignments : List (Ident × Expr)} {mids : List Row} {σ' : Store}
    (he : R.engine = .clickhouse)
    (h : List.Forall₂ (t.Updates scope) (updatedPart scope b) assignments) :
    ExecutesAll R (σ.set path mids) [.update { table := path, assignments }] σ' ↔
      ∃ rows', σ' = σ.set path rows' ∧
        List.Forall₂ (Transforms R t σ scope.columns (remainingPart scope b)) mids rows' := by
  set u : Update := { table := path, assignments } with hu
  have started : (σ.set path mids) u.table = some mids := Store.set_same
  have indices : ((updatedPart scope b).map Prod.snd).Nodup := indices_nodup List.filter_sublist
  have one : u.Changes R (σ.set path mids) =
      Transforms R t σ scope.columns (remainingPart scope b) := by
    funext row row'
    rw [← updatedPart_map_fst]
    exact propext (updates_changes he h indices rfl rfl)
  rw [executesAll_update started, one]
  simp only [hu, Store.set_set]

theorem updates_of_returns {assignments : List (Ident × Expr)}
    (known : ∀ tr ∈ b.active, tr.isKnown)
    (h : List.Forall₂ (fun m a => t.ident (m.1.assignedColumns.headD .null) = .ok a.1 ∧
      Returns (t.rowExpr scope t.plainRef (transformationSalt + m.2 : ℕ) m.1) a.2)
      (updatedPart scope b) assignments) :
    List.Forall₂ (t.Updates scope) (updatedPart scope b) assignments := by
  refine (pairing_mem h).imp fun m a hm => ?_
  obtain ⟨hm, hident, hx⟩ := hm
  obtain ⟨hmem, inPlace⟩ := List.mem_filter.1 hm
  exact ⟨known m.1 (List.fst_mem_of_mem_zipIdx hmem), by simpa using inPlace, hident, hx⟩

end Parts

namespace Run

variable {R : Rules} {c : Connection} {s s' : Session} {scope : Scope} {b : Batch}
  {actions : List Action} {path : Path} {σ : Store} {rows : List Row}
  {result result' : TransformResult} {update : List Statement}

/-- What is left to be executed applies the second part, whatever the table holds. -/
def Finishes (R : Rules) (t : Target) (scope : Scope) (b : Batch) (path : Path)
    (update : List Statement) : Prop :=
  ∀ (σ : Store) mids σ', ExecutesAll R (σ.set path mids) update σ' ↔ ∃ rows',
    σ' = σ.set path rows' ∧
      List.Forall₂ (Transforms R t σ scope.columns (remainingPart scope b)) mids rows'

theorem exists_finishes {assignments : List (Ident × Expr)} {passes : List Action} {t : Target}
    (he : R.engine = .clickhouse) (ht : t.tableRef scope.table = .ok path)
    (updates : List.Forall₂ (t.Updates scope) (updatedPart scope b) assignments)
    (h : assignments = [] ∧ actions = passes ∨ assignments ≠ [] ∧ ∃ table,
      t.tableRef scope.table = .ok table ∧
      actions = passes ++ [.run (.update { table, assignments })]) :
    ∃ update : List Statement, actions = passes ++ update.map .run ∧
      Finishes R t scope b path update := by
  rcases h with ⟨rfl, rfl⟩ | ⟨_, path', ht', rfl⟩
  · refine ⟨[], (List.append_nil _).symm, fun σ mids σ' => ?_⟩
    rw [← updatedPart_map_fst, List.forall₂_nil_right_iff.1 updates]
    simp only [List.map_nil, Folded.nil_iff, Transforms.rows_nil, exists_eq_right]
  · cases ht.symm.trans ht'
    exact ⟨[_], rfl, fun σ mids σ' => remaining_executes he updates⟩

def splitConnection : Connection := { config := { driver := .clickhouse }, now := 0 }

end Run
end SyntheticRows
