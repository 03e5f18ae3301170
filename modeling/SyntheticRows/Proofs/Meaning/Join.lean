import Mathlib.Data.List.Dedup
import SyntheticRows.Proofs.Meaning.Statement
import SyntheticRows.Proofs.Pairing

/-!
# Joins with one row per key

A table that is looked up is joined by its keys, each of which comes up once. So a left join leaves
one row for every row, however often keys repeat in the table, and finds what the lookup may take.
-/
namespace SyntheticRows
open Sql

variable {R : Rules} {σ : Store} {rows : List Row} {key wanted : Ident}
  {groups : List (Datum × Datum)} {x : Datum}

theorem Rules.isNull_eq {x y : Datum} (h : R.canon x = R.canon y) : x.isNull = y.isNull := by
  rw [← R.isNull_canon x, h, R.isNull_canon]

namespace IsGrouping

variable (h : IsGrouping R rows key wanted groups)
include h

theorem there : ∀ row ∈ rows, (row key.name).isSome ∧ (row wanted.name).isSome := by
  intro row hrow
  obtain ⟨k, hk, _⟩ := h.covers row hrow
  exact ⟨by rw [hk]; rfl, h.readable row hrow⟩

/-- At most one key equals a content. -/
theorem unique {g g' : Datum × Datum} (hg : g ∈ groups) (hg' : g' ∈ groups)
    (hx : R.Equals g.1 x) (hx' : R.Equals g'.1 x) : g = g' :=
  List.inj_on_of_nodup_map h.distinct hg hg' (hx.2.trans hx'.2.symm)

/-- The group of a key holds what an aggregate finds. -/
theorem finds {source : Path} (hs : σ source = some rows) {g : Datum × Datum} (hg : g ∈ groups)
    (hx : R.Equals g.1 x) : Finds R σ .aggregate source key wanted x g.2 := by
  obtain ⟨row, hrow, k, hk, hc, hv⟩ := h.taken g hg
  refine ⟨rows, hs, h.there, .inl ⟨row, hrow, ⟨k, hk, ?_, hc.trans hx.2⟩, hv, ?_⟩⟩
  · rw [Rules.isNull_eq hc, hx.1]
  · rintro - hn other hother ⟨k', hk', _, hc'⟩
    exact h.full g hg hn other hother k' hk' (hc'.trans hx.2.symm)

/-- Without a group there is nothing to find. -/
theorem finds_null {source : Path} (hs : σ source = some rows)
    (hx : ∀ g ∈ groups, ¬R.Equals g.1 x) : Finds R σ .aggregate source key wanted x .null := by
  refine ⟨rows, hs, h.there, .inr ⟨?_, rfl⟩⟩
  rintro row hrow ⟨k, hk, hn, hc⟩
  obtain ⟨k', hk', g, hg, hgk⟩ := h.covers row hrow
  cases hk.symm.trans hk'
  exact hx g hg ⟨by rw [Rules.isNull_eq hgk, hn], hgk.trans hc⟩

end IsGrouping

namespace Sql.LookupJoin

variable {j : LookupJoin} {w w' : Wide} {ws ws' : List Wide}

/-- One join of one row. -/
def Steps (R : Rules) (σ : Store) (w : Wide) (j : LookupJoin) (w' : Wide) : Prop :=
  ∃ x v, Yields R (w.env σ) j.target x ∧ Finds R σ .aggregate j.source j.key j.wanted x v ∧
    w' = w.join j.label v

open Classical in
/-- A row is joined with one group at most. -/
theorem extends_one (hg : IsGrouping R rows j.key j.wanted groups) (hs : σ j.source = some rows)
    (h : j.Extends R σ groups w ws) : ∃ w', Steps R σ w j w' ∧ ws = [w'] := by
  obtain ⟨x, hx, ⟨hnone, rfl⟩ | ⟨⟨g, hmem, hequals⟩, rfl⟩⟩ := h
  · exact ⟨_, ⟨x, .null, hx, hg.finds_null hs hnone, rfl⟩, rfl⟩
  · have distinct : (groups.filter fun g => R.Equals g.1 x).Nodup :=
      (List.Nodup.of_map _ hg.distinct).filter _
    have only : ∀ g' ∈ groups.filter fun g => R.Equals g.1 x, g' = g := by
      intro g' hg'
      rw [List.mem_filter, decide_eq_true_eq] at hg'
      exact hg.unique hg'.1 hmem hg'.2 hequals
    have found : g ∈ groups.filter fun g => R.Equals g.1 x := by
      rw [List.mem_filter, decide_eq_true_eq]
      exact ⟨hmem, hequals⟩
    have single : (groups.filter fun g => R.Equals g.1 x) = [g] := by
      rw [List.eq_replicate_of_mem only] at distinct found ⊢
      rw [List.nodup_replicate] at distinct
      have filled := List.length_pos_of_mem found
      rw [List.length_replicate] at filled
      have one : (groups.filter fun g => R.Equals g.1 x).length = 1 := by omega
      rw [one]
      rfl
    exact ⟨_, ⟨x, g.2, hx, hg.finds hs hmem hequals, rfl⟩, by rw [single]; rfl⟩

theorem extendsAll_one (hg : IsGrouping R rows j.key j.wanted groups)
    (hs : σ j.source = some rows) (h : ExtendsAll R σ ws (j, groups) ws') :
    List.Forall₂ (fun w w' => Steps R σ w j w') ws ws' := by
  obtain ⟨wss, hall, rfl⟩ := h
  induction hall with
  | nil => exact .nil
  | cons hw _ ih =>
    obtain ⟨w', hw', rfl⟩ := extends_one hg hs hw
    exact .cons hw' ih

/-- The tables of the joins, each with its groups. -/
def Grouped (R : Rules) (σ : Store) (j : LookupJoin) (groups : List (Datum × Datum)) : Prop :=
  ∃ rows, σ j.source = some rows ∧ IsGrouping R rows j.key j.wanted groups

variable {joins : List LookupJoin} {allGroups : List (List (Datum × Datum))}

/-- All joins leave one row for every row. -/
theorem joins_one (hg : List.Forall₂ (Grouped R σ) joins allGroups)
    (h : Folded (ExtendsAll R σ) ws (joins.zip allGroups) ws') :
    List.Forall₂ (fun w w' => Folded (Steps R σ) w joins w') ws ws' := by
  induction hg generalizing ws with
  | nil =>
    rw [List.zip_nil_left, Folded.nil_iff] at h
    rw [h]
    exact List.forall₂_same.2 fun w _ => .nil w
  | cons hj _ ih =>
    obtain ⟨rows, hs, hgroups⟩ := hj
    rw [List.zip_cons_cons, Folded.cons_iff] at h
    obtain ⟨mids, hfirst, hrest⟩ := h
    simp only [Folded.cons_iff, pairing_comp]
    exact ⟨mids, extendsAll_one hgroups hs hfirst, ih hrest⟩

/-- What is joined is found for what the row holds; nothing else changes. -/
theorem joined_of_steps (h : Folded (Steps R σ) w joins w') :
    w'.row = w.row ∧ w'.rand = w.rand ∧ w'.bound = w.bound ∧ ∃ found,
      w'.joined = w.joined ++ found ∧ List.Forall₂ (fun j p => p.1 = j.label ∧
        ∃ x w₁, w₁.row = w.row ∧ Yields R (Wide.env w₁ σ) j.target x ∧
          Finds R σ .aggregate j.source j.key j.wanted x p.2) joins found := by
  induction h with
  | nil => exact ⟨rfl, rfl, rfl, [], by simp, .nil⟩
  | cons hj _ ih =>
    obtain ⟨x, v, hx, hf, rfl⟩ := hj
    obtain ⟨hrow, hrand, hbound, found, hfound, hall⟩ := ih
    exact ⟨hrow, hrand, hbound, (_, v) :: found, by rw [hfound]; simp [Wide.join],
      .cons ⟨rfl, x, _, rfl, hx, hf⟩ hall⟩

end Sql.LookupJoin
end SyntheticRows
