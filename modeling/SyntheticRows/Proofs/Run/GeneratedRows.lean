import SyntheticRows.Proofs.Meaning.AddedRows
import SyntheticRows.Proofs.Run.ChunkedGeneration
import SyntheticRows.Proofs.Run.Replacement

/-!
# What a generation leaves in its table

The preparations leave the table with the rows that it had, or with none if it was dropped or
emptied. The chunks then add their rows at the end.
-/
namespace SyntheticRows
open Sql

/-- The engine counts every chunk of so many rows to its end. -/
def GenerationSettings.Counts (settings : GenerationSettings) (e : Engine) (rows : ℕ) : Prop :=
  e = .trino → rows ≤ 10 ^ 16 ∨ ∃ size ∈ settings.batchSize, size.val ≤ 10 ^ 16

theorem isCountable_of_divides {settings : GenerationSettings} {e : Engine} {rows n : ℕ}
    {sizes : List ℕ} (divides : Divides rows settings.batchSize sizes)
    (counts : settings.Counts e rows) (hn : n ∈ sizes) : RowSource.IsCountable e n := by
  intro he
  rcases counts he with few | ⟨size, hsize, small⟩
  · exact (divides.sum ▸ List.le_sum_of_mem hn).trans few
  · exact ((divides.within n hn).2 size hsize).trans small

namespace Target

variable {t : Target} {table : Table} {path : Path} {st : Statement}

theorem createTable_eq (h : t.createTable table = .ok st) : ∃ path columns storage,
    t.tableRef table.name = .ok path ∧ st = .createTable path columns storage := by
  obtain ⟨columns, _, h⟩ := except_ok_of_bind h
  obtain ⟨path, ht, h⟩ := except_ok_of_bind h
  split at h
  · obtain ⟨_, _, h⟩ := except_ok_of_bind h
    cases h
    exact ⟨path, columns, _, ht, rfl⟩
  · cases h
    exact ⟨path, columns, _, ht, rfl⟩
  · cases h
    exact ⟨path, columns, _, ht, rfl⟩

theorem clearTable_eq {name : Value} (ht : t.tableRef name = .ok path)
    (h : t.clearTable name = .ok st) : st = .clear path := by
  obtain ⟨_, ht', h⟩ := except_ok_of_bind h
  cases ht.symm.trans ht'
  cases h
  rfl

theorem maintenance_eq {name : Value} {sts : List Statement} (h : t.maintenance name = .ok sts) :
    ∀ st ∈ sts, ∃ m, st = .maintain m := by
  unfold maintenance at h
  cases hd : t.dialect with
  | core =>
    simp only [hd] at h
    cases h
    simp
  | of engine =>
    simp only [hd] at h
    obtain ⟨path, _, h⟩ := except_ok_of_bind h
    cases engine <;> cases h <;> simp

end Target

namespace Run

variable {R : Rules} {convert : Conversion} {c : Connection} {settings : GenerationSettings}
  {table : Table} {path : Path} {σ σ' : Store} {dropFirst : Bool} {before : List Statement}

/-- The preparations of a generation that creates its table: it is dropped, or created, or created
and then emptied. -/
inductive Prepares (settings : GenerationSettings) (path : Path) (dropFirst : Bool) :
    List Statement → Prop
  | dropped {columns storage} : dropFirst = true →
    Prepares settings path dropFirst [.drop path, .createTable path columns storage]
  | emptied {columns storage} : dropFirst = false → settings.truncateFirst = true →
    Prepares settings path dropFirst [.createTable path columns storage, .clear path]
  | kept {columns storage} : dropFirst = false → settings.truncateFirst = false →
    Prepares settings path dropFirst [.createTable path columns storage]

theorem prepares_of_preparations (ht : c.target.tableRef table.name = .ok path)
    (creates : settings.createTable = true)
    (h : preparations c.target settings table dropFirst = before.map .ok) :
    Prepares settings path dropFirst before := by
  unfold preparations at h
  rw [creates, if_pos rfl] at h
  cases hd : dropFirst with
  | true =>
    rw [hd] at h
    simp only [if_true, Bool.not_true, Bool.and_false, Bool.false_eq_true, if_false,
      List.append_nil, List.singleton_append] at h
    obtain ⟨dropped, rest, rfl, hdrop, h⟩ := List.map_eq_cons_iff.1 h.symm
    obtain ⟨created, rest, rfl, hcreate, h⟩ := List.map_eq_cons_iff.1 h
    cases List.map_eq_nil_iff.1 h
    cases Target.dropTable_eq ht hdrop.symm
    obtain ⟨_, columns, storage, ht', rfl⟩ := Target.createTable_eq hcreate.symm
    cases ht.symm.trans ht'
    exact .dropped rfl
  | false =>
    rw [hd] at h
    cases hf : settings.truncateFirst with
    | true =>
      simp only [Bool.false_eq_true, if_false, List.nil_append, hf, Bool.not_false, Bool.and_true,
        if_true, List.singleton_append] at h
      obtain ⟨created, rest, rfl, hcreate, h⟩ := List.map_eq_cons_iff.1 h.symm
      obtain ⟨cleared, rest, rfl, hclear, h⟩ := List.map_eq_cons_iff.1 h
      cases List.map_eq_nil_iff.1 h
      cases Target.clearTable_eq ht hclear.symm
      obtain ⟨_, columns, storage, ht', rfl⟩ := Target.createTable_eq hcreate.symm
      cases ht.symm.trans ht'
      exact .emptied rfl hf
    | false =>
      simp only [Bool.false_eq_true, if_false, List.nil_append, hf, Bool.not_false, Bool.and_true,
        List.append_nil] at h
      obtain ⟨created, rest, rfl, hcreate, h⟩ := List.map_eq_cons_iff.1 h.symm
      cases List.map_eq_nil_iff.1 h
      obtain ⟨_, columns, storage, ht', rfl⟩ := Target.createTable_eq hcreate.symm
      cases ht.symm.trans ht'
      exact .kept rfl hf

theorem tableRef_of_preparations (creates : settings.createTable = true)
    (h : preparations c.target settings table dropFirst = before.map .ok) :
    ∃ path, c.target.tableRef table.name = .ok path := by
  have created : c.target.createTable table ∈ before.map Except.ok := by
    rw [← h]
    simp [preparations, creates]
  obtain ⟨st, _, compiled⟩ := List.mem_map.1 created
  obtain ⟨path, _, _, ht, _⟩ := Target.createTable_eq compiled.symm
  exact ⟨path, ht⟩

/-- Nothing of the table is left if it is dropped or emptied, and all of it otherwise. -/
theorem Prepares.store (h : Prepares settings path dropFirst before)
    (hx : PerformsAll R convert σ before σ') :
    σ' = σ.set path (if dropFirst || settings.truncateFirst then [] else σ.rowsOf path) := by
  cases h with
  | dropped hd =>
    simp only [Folded.cons_iff, Folded.nil_iff, performs_drop, performs_create,
      exists_eq_left] at hx
    have gone : (σ.remove path).rowsOf path = [] := by simp [Store.rowsOf, Store.remove]
    rw [gone] at hx
    rw [hx, hd, Bool.true_or, if_pos rfl, Store.set, Store.remove, Function.update_idem]
    rfl
  | emptied hd hf =>
    simp only [Folded.cons_iff, Folded.nil_iff, performs_create, exists_eq_left,
      performs_clear Store.set_same] at hx
    rw [hx, hf, Bool.or_true, if_pos rfl, Store.set_set]
  | kept hd hf =>
    simp only [Folded.cons_iff, Folded.nil_iff, performs_create] at hx
    obtain ⟨_, rfl, rfl⟩ := hx
    rw [hd, hf, Bool.or_self, if_neg Bool.false_ne_true]

theorem Prepares.exists_performed (h : Prepares settings path dropFirst before) (R : Rules)
    (convert : Conversion) (σ : Store) : ∃ σ', PerformsAll R convert σ before σ' := by
  cases h with
  | dropped _ => exact ⟨_, .cons (performs_drop.2 rfl) (.cons (performs_create.2 rfl) (.nil _))⟩
  | emptied _ _ =>
    have cleared : Performs R convert (σ.set path (σ.rowsOf path)) (.clear path) _ :=
      (performs_clear Store.set_same).2 rfl
    exact ⟨_, .cons (performs_create.2 rfl) (.cons cleared (.nil _))⟩
  | kept _ _ => exact ⟨_, .cons (performs_create.2 rfl) (.nil _)⟩

/-- Without dropping and emptying the table keeps its rows. -/
theorem rowsOf_of_preparations (ht : c.target.tableRef table.name = .ok path)
    (keeps : settings.truncateFirst = false)
    (h : preparations c.target settings table false = before.map .ok)
    (hx : PerformsAll R convert σ before σ') : σ'.rowsOf path = σ.rowsOf path := by
  cases creates : settings.createTable with
  | true =>
    rw [(prepares_of_preparations ht creates h).store hx, keeps]
    simp
  | false =>
    simp only [preparations, creates, keeps, Bool.false_eq_true, if_false, Bool.false_and,
      List.append_nil] at h
    cases List.map_eq_nil_iff.1 h.symm
    cases hx
    rfl

/-- Performed, the statements of a generation add rows to what the preparations leave. -/
theorem Written.performed {s s' : Session} {rows : ℕ} {optimizeAfter : Bool} {r : GenerateResult}
    {origin : ℤ} {sizes : List ℕ} {inserts : List Insert} {after : List Statement}
    (h : Written c s s' settings table rows dropFirst optimizeAfter r before origin sizes inserts
      after) (hR : R.engine = c.config.driver) (ht : c.target.tableRef table.name = .ok path)
    (hx : PerformsAll R convert σ (before ++ inserts.map .insert ++ after) σ') :
    ∃ σ₁ is added, PerformsAll R convert σ before σ₁ ∧ σ₁.Extends path added σ' ∧
      table.Continues c.config.driver convert origin rows is added ∧
      (settings.Counts c.config.driver rows → is = ordinals origin rows) := by
  obtain ⟨σ₂, hx, hafter⟩ := Folded.append_iff.1 hx
  obtain ⟨σ₁, hbefore, hinserts⟩ := Folded.append_iff.1 hx
  have maintenance : ∀ st ∈ after, ∃ m, st = .maintain m := by
    have maintained := h.maintained
    split at maintained
    · exact Target.maintenance_eq maintained
    · cases maintained
      simp
  obtain rfl := (performsAll_maintenance maintenance).1 hafter
  obtain ⟨is, added, extended, continued, all⟩ := continues_of_inserts rfl hR ht
    (fun n hn => (h.divides.within n hn).1) h.compiled hinserts
  rw [h.divides.sum] at continued all
  exact ⟨σ₁, is, added, hbefore, extended, continued, fun counts =>
    all fun n hn => isCountable_of_divides h.divides counts hn⟩

end Run
end SyntheticRows
