import SyntheticRows.Proofs.Meaning.Replacement

/-!
# Stages of a replacement

The stores between the statements of a replacement, whichever of them is the last. Every statement
leads to the next stage, so the table is there at each of them, and what is there besides the tables
from before is the shadow or, once it took its place, the old table.
-/
namespace SyntheticRows
open Sql

variable {R : Rules} {σ σ₁ σ₂ : Store} {rows : List Row}

/-- The tables that were not there before. -/
def Store.added (σ σ₁ : Store) : Set Path := {path | σ path = none ∧ (σ₁ path).isSome}

theorem Store.added_of_set {path : Path} {rows' : List Row} (hp : σ path = none) :
    σ.added (σ.set path rows') = {path} := by
  ext other
  simp only [Store.added, Set.mem_ofPred_eq, Set.mem_singleton_iff]
  constructor
  · rintro ⟨before, after⟩
    by_contra hne
    rw [Store.set_other hne, before] at after
    cases after
  · rintro rfl
    exact ⟨hp, by simp⟩

/-- A statement with the database's word on it; one that is refused has no effect. -/
def Takes (R : Rules) (σ : Store) (x : Statement × Option String) (σ₁ : Store) : Prop :=
  match x.2 with
  | none => Executes R σ x.1 σ₁
  | some _ => σ₁ = σ

/-- The statements that were not refused. -/
def acceptedOf (history : List (Statement × Option String)) : List Statement :=
  history.filterMap fun x => if x.2.isNone then some x.1 else none

theorem executesAll_acceptedOf {history : List (Statement × Option String)} :
    ExecutesAll R σ (acceptedOf history) σ₁ ↔ Folded (Takes R) σ history σ₁ := by
  induction history generalizing σ with
  | nil => simp [acceptedOf]
  | cons x history ih =>
    obtain ⟨st, word⟩ := x
    cases word with
    | none =>
      have first : acceptedOf ((st, none) :: history) = st :: acceptedOf history := rfl
      rw [first, ExecutesAll, Folded.cons_iff, Folded.cons_iff]
      exact exists_congr fun _ => and_congr_right fun _ => ih
    | some reason =>
      have first : acceptedOf ((st, some reason) :: history) = acceptedOf history := rfl
      rw [first, Folded.cons_iff, ih]
      constructor
      · intro h
        exact ⟨σ, rfl, h⟩
      · rintro ⟨_, rfl, h⟩
        exact h

theorem acceptedOf_mono {part history : List (Statement × Option String)}
    (h : part <+: history) : acceptedOf part <+: acceptedOf history := h.filterMap _

namespace Sql.Rebuild

variable {r : Rebuild} {old : Path}

/-- The stores that a replacement goes through, by how many of its statements were executed. -/
inductive Stage (r : Rebuild) (old : Path) (σ : Store) (rows : List Row) : ℕ → Store → Prop
  | start : Stage r old σ rows 0 σ
  | created : Stage r old σ rows 1 (σ.set r.shadow [])
  | populated (rows' : List Row) : Stage r old σ rows 2 (σ.set r.shadow rows')
  | renamed (rows' : List Row) : Stage r old σ rows 3 ((σ.set old rows).set r.table rows')
  | replaced (rows' : List Row) : Stage r old σ rows 4 (σ.set r.table rows')

/-- What a replacement finds: its table, and names that are fresh. -/
structure Fits (r : Rebuild) (old : Path) (σ : Store) (rows : List Row) : Prop where
  standing : σ r.table = some rows
  freshShadow : σ r.shadow = none
  freshOld : σ old = none
  apart : r.shadow ≠ old

namespace Fits

variable (h : r.Fits old σ rows)
include h

theorem table_ne_shadow : r.table ≠ r.shadow := Store.ne_of_none h.standing h.freshShadow

theorem table_ne_old : r.table ≠ old := Store.ne_of_none h.standing h.freshOld

/-- Once renamed, the shadow is no longer there under its name. -/
theorem renamed_eq (rows' : List Row) :
    (((σ.set r.shadow rows').set old rows).set r.table rows').remove r.shadow =
      (σ.set old rows).set r.table rows' := by
  have apart := h.apart
  have table := h.table_ne_shadow
  have shadow := h.freshShadow
  funext path
  simp only [Store.remove, Store.set, Function.update_apply]
  by_cases hp : path = r.shadow
  · simp [hp, apart, table.symm, shadow]
  · simp [hp]

theorem replaced_eq (rows' : List Row) :
    ((σ.set old rows).set r.table rows').remove old = σ.set r.table rows' := by
  have table := h.table_ne_old
  have fresh := h.freshOld
  funext path
  simp only [Store.remove, Store.set, Function.update_apply]
  split_ifs with hp ht
  · exact (table (ht.symm.trans hp)).elim
  · rw [hp, fresh]
  · rfl
  · rfl

/-- Each statement that is executed leads to the next stage. -/
theorem step {k : ℕ} {st : Statement} (stage : r.Stage old σ rows k σ₁)
    (next : (r.replacement old)[k]? = some st) (hx : Executes R σ₁ st σ₂) :
    r.Stage old σ rows (k + 1) σ₂ := by
  cases stage with
  | start =>
    cases next
    cases hx
    exact .created
  | created =>
    cases next
    cases hx with
    | rebuild _ before _ =>
      rw [Store.set_same, Option.some.injEq] at before
      subst before
      rw [Store.set_set]
      exact .populated _
  | populated rows' =>
    cases next
    cases hx with
    | exchange table shadow _ _ =>
      rw [Store.set_same, Option.some.injEq] at shadow
      rw [Store.set_other h.table_ne_shadow, h.standing, Option.some.injEq] at table
      subst shadow table
      rw [h.renamed_eq]
      exact .renamed _
  | renamed rows' =>
    cases next
    cases hx
    rw [h.replaced_eq]
    exact .replaced _
  | replaced rows' => cases next

/-- Statements from one stage on. -/
theorem steps {sts rest : List Statement} {k : ℕ} (stage : r.Stage old σ rows k σ₁)
    (next : (r.replacement old).drop k = sts ++ rest) (hx : ExecutesAll R σ₁ sts σ₂) :
    r.Stage old σ rows (k + sts.length) σ₂ := by
  induction sts generalizing k σ₁ with
  | nil =>
    cases Folded.nil_iff.1 hx
    exact stage
  | cons st sts ih =>
    obtain ⟨σ', hst, hrest⟩ := Folded.cons_iff.1 hx
    have here : (r.replacement old)[k]? = some st := by
      rw [← List.head?_drop, next]
      rfl
    have after : (r.replacement old).drop (k + 1) = sts ++ rest := by
      rw [← List.drop_drop, next]
      rfl
    have := ih (h.step stage here hst) after hrest
    rwa [List.length_cons, Nat.add_comm sts.length, ← Nat.add_assoc]

/-- Whatever part of a replacement is executed, it ends at a stage. -/
theorem stage_of_executesAll {sts : List Statement} (part : sts <+: r.replacement old)
    (hx : ExecutesAll R σ sts σ₁) : r.Stage old σ rows sts.length σ₁ := by
  obtain ⟨rest, hrest⟩ := part
  have next : (r.replacement old).drop 0 = sts ++ rest := by rw [List.drop_zero, hrest]
  have := h.steps .start next hx
  rwa [Nat.zero_add] at this

/-- The table is there at every stage. -/
theorem isSome_of_stage {k : ℕ} (stage : r.Stage old σ rows k σ₁) : (σ₁ r.table).isSome := by
  have shadow := h.table_ne_shadow
  cases stage with
  | start => simp [h.standing]
  | created => simp [Store.set_other shadow, h.standing]
  | populated => simp [Store.set_other shadow, h.standing]
  | renamed => simp
  | replaced => simp

/-- Up to the renaming the table has the rows from before. -/
theorem rows_of_stage {k : ℕ} (stage : r.Stage old σ rows k σ₁) (hk : k < 3) :
    σ₁ r.table = some rows := by
  have shadow := h.table_ne_shadow
  cases stage with
  | start => exact h.standing
  | created => rw [Store.set_other shadow, h.standing]
  | populated => rw [Store.set_other shadow, h.standing]
  | renamed => omega
  | replaced => omega

/-- No other table is touched that was there before. -/
theorem other_of_stage {k : ℕ} (stage : r.Stage old σ rows k σ₁) {path : Path}
    (hp : (σ path).isSome) (hne : path ≠ r.table) : σ₁ path = σ path := by
  have shadow : path ≠ r.shadow := by
    rintro rfl
    simp [h.freshShadow] at hp
  have aside : path ≠ old := by
    rintro rfl
    simp [h.freshOld] at hp
  cases stage with
  | start => rfl
  | created => exact Store.set_other shadow
  | populated => exact Store.set_other shadow
  | renamed => rw [Store.set_other hne, Store.set_other aside]
  | replaced => exact Store.set_other hne

theorem added_of_shadow {k : ℕ} (stage : r.Stage old σ rows k σ₁) (hk : k = 1 ∨ k = 2) :
    σ.added σ₁ = {r.shadow} := by
  cases stage with
  | created => exact Store.added_of_set h.freshShadow
  | populated => exact Store.added_of_set h.freshShadow
  | start => omega
  | renamed => omega
  | replaced => omega

theorem added_of_old (stage : r.Stage old σ rows 3 σ₁) : σ.added σ₁ = {old} := by
  cases stage with
  | renamed rows' =>
    ext path
    have table := h.standing
    simp only [Store.added, Set.mem_ofPred_eq, Set.mem_singleton_iff]
    constructor
    · rintro ⟨before, after⟩
      by_contra hne
      have other : path ≠ r.table := by
        rintro rfl
        cases before.symm.trans table
      rw [Store.set_other other, Store.set_other hne, before] at after
      cases after
    · rintro rfl
      rw [Store.set_other h.table_ne_old.symm]
      exact ⟨h.freshOld, by simp⟩

end Fits
end Sql.Rebuild
end SyntheticRows
