import SyntheticRows.Proofs.Meaning.Join
import SyntheticRows.Proofs.Meaning.Rebuild

/-!
# Rebuilds apply their transformations at once

A rebuild computes one row for each row of the table, in the same order, and each is what all its
transformations make of the row at once. Joins neither drop a row nor repeat it.
-/
namespace SyntheticRows
open Sql Target RebuildDraft

/-- The row has these columns and no others. -/
def Row.IsOver (columns : List Value) (row : Row) : Prop :=
  ∀ n, (row n).isSome ↔ .text n ∈ columns

theorem entry_map {ns : List String} {f : String → Datum} {n : String} :
    entry (ns.map fun m => (m, f m)) n = if n ∈ ns then some (f n) else none := by
  induction ns with
  | nil => rfl
  | cons m ns ih =>
    rw [List.map_cons, entry_cons, ih]
    by_cases hm : m = n
    · simp [hm]
    · simp [hm, Ne.symm hm]

/-- A row is put together from its columns. -/
theorem Row.assign_all {row : Row} {ns : List String} (h : ∀ n, (row n).isSome ↔ n ∈ ns) :
    Row.assign (fun _ => none) (ns.map fun n => (n, (row n).getD .null)) = row := by
  funext n
  rw [assign, entry_map, Option.or_none]
  by_cases hn : n ∈ ns
  · obtain ⟨v, hv⟩ := Option.isSome_iff_exists.1 ((h n).2 hn)
    simp [hn, hv]
  · have none := (h n).not.2 hn
    rw [Option.not_isSome_iff_eq_none] at none
    simp [hn, none]

/-- A rebuild that was compiled for transformations. -/
structure Sql.Rebuild.Drafted (t : Target) (scope : Scope) (trs : List Transformation)
    (start : List (Value × Expr)) (draft : RebuildDraft) (r : Rebuild) : Prop where
  copied : Folded t.Copied [] scope.columns start
  rebuilt : t.RebuildsAll scope { expressions := start } trs.zipIdx draft
  values : List.Forall₂ (fun c v =>
    (draft.expressions.find? (c.same ·.1)).map Prod.snd = some v) scope.columns r.values
  columns : List.Forall₂ (fun c i => t.ident c = .ok i) scope.columns r.columns
  draws : r.draws = draft.draws
  joins : r.joins = draft.joins

namespace Sql.Rebuild.Drafted

variable {R : Rules} {t : Target} {scope : Scope} {σ : Store} {row : Row} {rows rows' : List Row}
  {trs : List Transformation} {start : List (Value × Expr)} {draft : RebuildDraft} {r : Rebuild}
  {w₀ w : Wide} {cs : List (Transformation × Chance)}

theorem nodup_numbered (base : String) {as : List (Transformation × ℕ)}
    (h : as.Sublist trs.zipIdx) : (as.map fun a => base ++ toString a.2).Nodup := by
  have names := (indices_nodup h).map (numbered_injective base)
  rwa [List.map_map] at names

variable (h : r.Drafted t scope trs start draft)
include h

theorem has (hover : row.IsOver scope.columns) : ∀ v ∈ scope.columns, row.Has v := by
  intro v hv
  obtain ⟨i, _, hi⟩ := partner_right h.columns hv
  have named := ident_text hi
  exact ⟨i.name, named, (hover _).2 (named ▸ hv)⟩

/-- What a rebuild puts into the shadow is the row that its expressions mean. -/
theorem projects_iff (hm : Means R (w.env σ) row draft.expressions)
    (hover : row.IsOver scope.columns) (out : Row) : r.Projects R σ w out ↔ out = row := by
  have listed : List.Forall₂ (fun c i => c ∈ scope.columns ∧ t.ident c = .ok i) scope.columns
      r.columns := pairing_mem h.columns
  have contents : List.Forall₂ (fun x v => Denotes R (w.env σ) x (some v)) r.values
      (r.columns.map fun i => (row i.name).getD .null) := by
    rw [List.forall₂_map_right_iff]
    refine (pairing_comp.2 ⟨_, h.values.flip, listed⟩).imp fun x i hx => ?_
    obtain ⟨c, hfound, hc, hi⟩ := hx
    rw [ident_text hi] at hfound hc
    obtain ⟨v, hv⟩ := Option.isSome_iff_exists.1 ((hover _).2 hc)
    exact (hm _ x hfound).congr (by rw [hv]; rfl)
  have named (n : String) : (row n).isSome ↔ n ∈ r.columns.map Ident.name := by
    rw [hover n, List.mem_map]
    constructor
    · intro hn
      obtain ⟨i, hi, hni⟩ := partner_right h.columns hn
      exact ⟨i, hi, (Value.text.inj (ident_text hni)).symm⟩
    · rintro ⟨i, hi, rfl⟩
      obtain ⟨c, hc, hci⟩ := partner_left h.columns hi
      exact ident_text hci ▸ hc
  have whole : Row.assign (fun _ => none) (r.columns.map fun i =>
      (i.name, (row i.name).getD .null)) = row := by
    have all := Row.assign_all named
    rwa [List.map_map] at all
  simp only [Projects, Denotes.all contents, exists_eq_left, List.zip_map', whole]

/-- Each join has its own label, under which the row has what was found. -/
theorem isJoined (hall : List.Forall₂ (fun j p => p.1 = j.label ∧ ∃ x w₁, w₁.row = w.row ∧
      Yields R (Wide.env w₁ σ) j.target x ∧ Finds R σ .aggregate j.source j.key j.wanted x p.2)
    draft.joins w.joined) :
    ∀ j ∈ draft.joins, w.IsJoined R σ j := by
  intro j hj
  obtain ⟨as, js, hsub, hjs, hof⟩ := joins_of_rebuilds h.rebuilt
  rw [List.nil_append] at hjs
  have labels : w.joined.map Prod.fst = as.map fun a => Target.lookupName a.2 := by
    rw [hjs] at hall
    rw [← List.forall₂_eq_eq_eq, List.forall₂_map_left_iff, List.forall₂_map_right_iff]
    refine (pairing_comp.2 ⟨_, hall.flip, hof.flip⟩).imp fun p a hp => ?_
    obtain ⟨j, ⟨hp, _⟩, _, _, hlabel, _⟩ := hp
    rw [hp, hlabel]
  obtain ⟨p, hp, hlabel, x, w₁, hw₁, hx, hfinds⟩ := partner_right hall hj
  obtain ⟨a, _, l, _, _, _, htarget, _⟩ := partner_left hof (hjs ▸ hj)
  -- what is joined by is read from the row itself, so the joins before do not matter
  obtain ⟨name, htext, hd₁⟩ :=
    refers_sourceRef (R := R) (Wide.resolve_source (w := w₁)) _ _ htarget
  obtain ⟨_, htext', hd⟩ := refers_sourceRef (R := R) (Wide.resolve_source (w := w)) _ _ htarget
  cases htext.symm.trans htext'
  refine ⟨x, p.2, (hd x).2 ?_, hfinds, ?_⟩
  · rw [← hw₁]
    exact (hd₁ x).1 hx
  · exact entry_of_mem (labels ▸ nodup_numbered "_lk" hsub) (hlabel ▸ hp)

/-- Each draw has its own name, under which the row has what was drawn. -/
theorem isBound (hbinds : Binds R (w₀.env σ) draft.draws w.bound) (hrand : w.rand = w₀.rand) :
    ∀ draw ∈ draft.draws, w.IsBound R σ draw := by
  intro draw hdraw
  obtain ⟨as, ds, hsub, hds, hof⟩ := draws_of_rebuilds h.rebuilt
  rw [List.nil_append] at hds
  have names : w.bound.map Prod.fst = as.map fun a => "_swap" ++ toString a.2 := by
    rw [hds] at hbinds
    rw [← List.forall₂_eq_eq_eq, List.forall₂_map_left_iff, List.forall₂_map_right_iff]
    refine (pairing_comp.2 ⟨_, List.Forall₂.flip hbinds, hof.flip⟩).imp fun b a hb => ?_
    obtain ⟨d, ⟨hb, _⟩, hname, _⟩ := hb
    rw [hb, hname]
  obtain ⟨b, hb, hname, hv⟩ := partner_right hbinds hdraw
  obtain ⟨a, _, _, tag, hunit⟩ := partner_left hof (hds ▸ hdraw)
  refine ⟨b.2, entry_of_mem (names ▸ nodup_numbered "_swap" hsub) (hname ▸ hb), ?_⟩
  rw [hunit, Engine.unit_denotes _] at hv ⊢
  rw [← hv]
  simp [Wide.env, hrand]

/-- After the joins, the row is as it was selected, with all joins and draws. -/
theorem wide (hsel : r.Selects R σ row w₀)
    (hsteps : Folded (LookupJoin.Steps R σ) w₀ r.joins w) :
    w.row = row ∧ w.rand = w₀.rand ∧ (∀ j ∈ draft.joins, w.IsJoined R σ j) ∧
      ∀ draw ∈ draft.draws, w.IsBound R σ draw := by
  obtain ⟨rfl, hempty, _, hbinds⟩ := hsel
  obtain ⟨hrow, hrand, hbound, found, hfound, hall⟩ := LookupJoin.joined_of_steps hsteps
  rw [hempty, List.nil_append] at hfound
  rw [h.joins, ← hfound, ← hrow] at hall
  rw [h.draws, ← hbound] at hbinds
  exact ⟨hrow, hrand, h.isJoined hall, h.isBound hbinds hrand⟩

/-- What is put into the shadow for a row is what the transformations make of it at once. -/
theorem projects_simultaneous (he : R.engine = .clickhouse)
    (hn : (trs.flatMap Transformation.assigned).Nodup)
    (hassigned : ∀ tr ∈ trs, ∀ v ∈ tr.assignedColumns, v ∈ scope.columns)
    (hover : row.IsOver scope.columns) (hsel : r.Selects R σ row w₀)
    (hsteps : Folded (LookupJoin.Steps R σ) w₀ r.joins w)
    (hcs : Transformation.TaggedAll w₀.rand trs.zipIdx cs) :
    ∃ row', Simultaneous R t σ scope.columns cs row row' ∧
      ∀ out, r.Projects R σ w out ↔ out = row' := by
  obtain ⟨rfl, hrand, joined, bound⟩ := h.wide hsel hsteps
  have empty : Means R (w.env σ) w.row [] := by
    rintro n x ⟨⟩
  have copied : Means R (w.env σ) w.row start :=
    empty.copied (refers_sourceRef Wide.resolve_source) h.copied
  have assigned : ∀ a ∈ trs.zipIdx, ∀ v ∈ a.1.assignedColumns, v ∈ scope.columns :=
    fun a ha => hassigned a.1 (List.fst_mem_of_mem_zipIdx ha)
  obtain ⟨gs, hgs, hm⟩ := rebuildsAll_means he (hrand ▸ hcs) (h.has hover) assigned h.rebuilt
    joined bound copied
  have active : cs.map Prod.fst = trs := hcs.map_fst.trans (List.zipIdx_map_fst 0 trs)
  have distinct : (gs.flatten.map Prod.fst).Nodup := by
    rwa [Simultaneous.keys hgs, active]
  rw [Row.foldl_assign distinct] at hm
  have all : Simultaneous R t σ scope.columns cs w.row (w.row.assign gs.flatten) := ⟨gs, hgs, rfl⟩
  exact ⟨_, all, h.projects_iff hm fun n => by rw [all.isSome n]; exact hover n⟩

theorem transforms_of_computes (he : R.engine = .clickhouse)
    (hn : (trs.flatMap Transformation.assigned).Nodup)
    (hassigned : ∀ tr ∈ trs, ∀ v ∈ tr.assignedColumns, v ∈ scope.columns)
    (hover : ∀ row ∈ rows, row.IsOver scope.columns) (hc : r.Computes R σ rows rows') :
    List.Forall₂ (Transforms R t σ scope.columns trs) rows rows' := by
  obtain ⟨selected, groups, joined, hsel, hgroups, hjoin, hproj⟩ := hc
  have hsteps := LookupJoin.joins_one hgroups hjoin
  have hsel' : List.Forall₂ (fun row w => row ∈ rows ∧ r.Selects R σ row w) rows selected :=
    pairing_mem hsel
  refine (pairing_comp.2 ⟨_, hsel', pairing_comp.2 ⟨_, hsteps, hproj⟩⟩).imp fun row row' hr => ?_
  obtain ⟨w₀, ⟨hrow, hsel⟩, w, hsteps, hproj⟩ := hr
  obtain ⟨cs, hcs⟩ := Transformation.exists_taggedAll hsel.2.2.1 trs.zipIdx
  obtain ⟨out, all, only⟩ :=
    h.projects_simultaneous he hn hassigned (hover row hrow) hsel hsteps hcs
  rw [(only row').1 hproj]
  exact ⟨cs, hcs.map_fst.trans (List.zipIdx_map_fst 0 trs), fun a ha => he ▸ hcs.isFor a ha, all⟩

end Sql.Rebuild.Drafted
end SyntheticRows
