import SyntheticRows.Proofs.Meaning.Shadow

/-!
# Replacements

A table is replaced by a shadow that was filled from it. All that is left of the four statements is
the table, with the rows that were computed for the shadow.
-/
namespace SyntheticRows
open Sql Target

/-- The statements that replace a table by its shadow. -/
def Sql.Rebuild.replacement (r : Rebuild) (old : Path) : List Statement :=
  [.createLike r.shadow r.table, .rebuild r, .exchange r.table r.shadow old, .drop old]

variable {R : Rules} {σ σ' : Store} {rows : List Row}

namespace Store

theorem ne_of_none {table other : Path} (ht : σ table = some rows) (ho : σ other = none) :
    table ≠ other := by
  rintro rfl
  cases ht.symm.trans ho

/-- The shadow and the old table are gone in the end. -/
theorem replaced {table shadow old : Path} {rows' : List Row} (ht : σ table = some rows)
    (hs : σ shadow = none) (ho : σ old = none) :
    ((((σ.set shadow rows').set old rows).set table rows').remove shadow).remove old =
      σ.set table rows' := by
  have apart := ne_of_none ht hs
  have apart' := ne_of_none ht ho
  funext p
  simp only [remove, set, Function.update_apply]
  by_cases hp : p = old
  · simp [hp, apart'.symm, ho]
  · by_cases hp' : p = shadow
    · simp [hp', apart.symm, hs]
    · simp [hp, hp']

end Store

namespace Sql.Rebuild

variable {r : Rebuild} {old : Path}

theorem executesAll_replacement (hσ : σ r.table = some rows) (hs : σ r.shadow = none)
    (ho : σ old = none) (hne : r.shadow ≠ old) :
    ExecutesAll R σ (r.replacement old) σ' ↔ ∃ rows', σ' = σ.set r.table rows' ∧
      r.Computes R (σ.set r.shadow []) rows rows' := by
  have apart := Store.ne_of_none hσ hs
  have kept : (σ.set r.shadow []) r.table = some rows := by rw [Store.set_other apart, hσ]
  simp only [replacement, Folded.cons_iff, Folded.nil_iff]
  constructor
  · rintro ⟨_, hcreate, _, hfill, _, hexchange, _, hdrop, rfl⟩
    cases hcreate
    cases hfill with
    | rebuild hrows hbefore hcomputes =>
      cases kept.symm.trans hrows
      rw [Store.set_same, Option.some.injEq] at hbefore
      subst hbefore
      rw [Store.set_set, List.nil_append] at hexchange
      cases hexchange with
      | exchange htable hshadow _ _ =>
        rw [Store.set_same, Option.some.injEq] at hshadow
        rw [Store.set_other apart, hσ, Option.some.injEq] at htable
        subst hshadow htable
        cases hdrop
        exact ⟨_, Store.replaced hσ hs ho, hcomputes⟩
  · rintro ⟨rows', rfl, hcomputes⟩
    have filled : σ.set r.shadow rows' = (σ.set r.shadow []).set r.shadow ([] ++ rows') := by
      rw [Store.set_set, List.nil_append]
    have first : Executes R σ (.createLike r.shadow r.table) (σ.set r.shadow []) :=
      .createLike hs hσ
    have second : Executes R (σ.set r.shadow []) (.rebuild r) (σ.set r.shadow rows') :=
      filled ▸ .rebuild kept Store.set_same hcomputes
    have third : Executes R (σ.set r.shadow rows') (.exchange r.table r.shadow old)
        ((((σ.set r.shadow rows').set old rows).set r.table rows').remove r.shadow) :=
      .exchange (by rw [Store.set_other apart, hσ]) Store.set_same
        (by rw [Store.set_other hne.symm, ho]) apart
    exact ⟨_, first, _, second, _, third, _, .drop, (Store.replaced hσ hs ho).symm⟩

section Transforms

variable {t : Target} {scope : Scope} {trs : List Transformation} {start : List (Value × Expr)}
  {draft : RebuildDraft}

theorem sameTables_of_fresh {shadow : Path} (hthere : ∀ l, .lookup l ∈ trs → l.IsThere t σ)
    (hs : σ shadow = none) : SameTables t trs (σ.set shadow []) σ := by
  intro l hl source hsource
  obtain ⟨source', _, _, rows, hsource', _, _, hrows, _⟩ := hthere l hl
  cases hsource.symm.trans hsource'
  exact (Store.set_other (Store.ne_of_none hrows hs)).symm

variable (he : R.engine = .clickhouse) (h : r.Drafted t scope trs start draft)
  (hn : (trs.flatMap Transformation.assigned).Nodup)
  (hassigned : ∀ tr ∈ trs, ∀ v ∈ tr.assignedColumns, v ∈ scope.columns)
  (hthere : ∀ l, .lookup l ∈ trs → l.IsThere t σ) (hσ : σ r.table = some rows)
  (hs : σ r.shadow = none) (ho : σ old = none) (hne : r.shadow ≠ old)
include he h hn hassigned hthere hσ hs ho hne

/-- A replacement applies its transformations to each row at once. -/
theorem transforms_of_replacement (hover : ∀ row ∈ rows, row.IsOver scope.columns)
    (hx : ExecutesAll R σ (r.replacement old) σ') :
    ∃ rows', σ' = σ.set r.table rows' ∧
      List.Forall₂ (Transforms R t σ scope.columns trs) rows rows' := by
  obtain ⟨rows', rfl, hcomputes⟩ := (executesAll_replacement hσ hs ho hne).1 hx
  have same := sameTables_of_fresh hthere hs
  exact ⟨rows', rfl, (h.transforms_of_computes he hn hassigned hover hcomputes).imp
    fun _ _ ht => ht.of_tables same⟩

end Transforms
end Sql.Rebuild
end SyntheticRows
