import SyntheticRows.Proofs.Meaning.Assignment

/-!
# One update for a whole batch

The update of PostgreSQL and SQLite binds all draws of a batch before it changes anything. What it
makes of a row is exactly what the active transformations make of it at once.
-/
namespace SyntheticRows
open Sql

namespace Target

variable {R : Rules} {env : Env} {row row' : Row} {t : Target} {scope : Scope} {σ : Store}
  {contents : List (String × Datum)}

theorem sharedAssignments_fills {tr : Transformation} {c : Chance} {index n k : ℕ}
    {given : List (Value × Expr)} (hd : t.dialect = .of R.engine) (hl : R.engine.taking = .limit)
    (hc : c.IsFor R.engine) (href : Refers R env row (t.tableColumn scope.table))
    (htables : env.tables = σ)
    (hdraw : ∀ i q, (tr.drawn c)[i]? = some q →
      Denotes R env (sharedDraw (n + i)) (some (.number q)))
    (h : Draws (t.sharedAssignments scope index tr) n given k) :
    List.Forall₂ (Fills R env row) given contents ↔
      tr.Gives R t σ scope.columns row c contents := by
  have column {v : Value} {path : Path} (hp : t.columnRef scope.table v = .ok path) :
      ∃ c, v = .text c ∧ Denotes R env (.name path) (row c) :=
    href v _ (by rw [tableColumn, hp]; rfl)
  cases tr with
  | template tr =>
    obtain ⟨x, hx, rfl, rfl⟩ := sharedAssignments_template h
    exact template_fills href hx
  | mutation m =>
    obtain ⟨path, x, hp, hx, rfl, rfl⟩ := sharedAssignments_mutation h
    obtain ⟨name, hm, hcol⟩ := column hp
    exact mutation_fills hm (Mutation.withDraws_denotes hd hc.inUnit hcol hdraw hx)
  | lookup l =>
    obtain ⟨x, hx, rfl, rfl⟩ := sharedAssignments_lookup h
    exact lookup_fills hl href htables hx
  | swap s =>
    obtain ⟨p₁, p₂, hp₁, hp₂, h⟩ := sharedAssignments_swap h
    obtain ⟨first, h₁, hfirst⟩ := column hp₁
    obtain ⟨second, h₂, hsecond⟩ := column hp₂
    rcases h with ⟨hp, rfl, rfl⟩ | ⟨hp, rfl, p, hnum, rfl⟩
    · have always : c.gate < s.probability.val.toRat :=
        hc.1.bounds.2.trans_le (s.probability.one_le_iff.1 hp)
      exact swap_fills h₁ h₂ (by rwa [if_pos always]) (by rwa [if_pos always])
    · have drawn := hdraw 0 c.gate (by simp [Transformation.drawn, hp])
      have gate := less_denotes drawn (ofNumber_denotes hnum)
      have chosen {a b : Expr} {o o' : Option Datum} (ha : Denotes R env a o)
          (hb : Denotes R env b o') :
          Denotes R env (.caseWhen [(.less (sharedDraw n) p, a)] b)
            (if c.gate < s.probability.val.toRat then o else o') := by
        by_cases hg : c.gate < s.probability.val.toRat
        · rw [if_pos hg]
          exact .branch_true (gate.congr (by simp [hg])) ha
        · rw [if_neg hg]
          exact .branch_skip gate (by simp [hg]) (.otherwise hb)
      exact swap_fills h₁ h₂ (chosen hsecond hfirst) (chosen hfirst hsecond)
  | other kind => cases (sharedAssignments_columns h).1

theorem sharedAssignments_drawCount {tr : Transformation} {index n k : ℕ}
    {given : List (Value × Expr)} (h : Draws (t.sharedAssignments scope index tr) n given k) :
    k = n + tr.drawCount := by
  cases tr with
  | template tr => exact (sharedAssignments_template h).choose_spec.2.2
  | mutation m =>
    obtain ⟨_, _, _, _, _, hk⟩ := sharedAssignments_mutation h
    exact hk
  | lookup l => exact (sharedAssignments_lookup h).choose_spec.2.2
  | swap s =>
    obtain ⟨_, _, _, _, ⟨hp, hk, _⟩ | ⟨hp, hk, _⟩⟩ := sharedAssignments_swap h
    · simp [Transformation.drawCount, hp, hk]
    · simp [Transformation.drawCount, hp, hk]
  | other kind => cases (sharedAssignments_columns h).1

/-- The draws of the transformations follow one another. -/
theorem shared_drawCount {l : List (Transformation × ℕ)} {n used : ℕ}
    {given : List (List (Value × Expr))}
    (h : Threaded (fun a n g m => Draws (t.sharedAssignments scope a.2 a.1) n g m) l n given used) :
    used = n + (l.map fun a => a.1.drawCount).sum := by
  induction h with
  | nil => rfl
  | cons ha _ ih =>
    rw [ih, sharedAssignments_drawCount ha, List.map_cons, List.sum_cons]
    omega

theorem shared_fills {l : List (Transformation × ℕ)} {n used : ℕ}
    {given : List (List (Value × Expr))} {cs : List (Transformation × Chance)}
    {gs : List (List (String × Datum))} (hd : t.dialect = .of R.engine)
    (hl : R.engine.taking = .limit)
    (hfor : ∀ a ∈ cs, a.2.IsFor R.engine)
    (href : Refers R env row (t.tableColumn scope.table)) (htables : env.tables = σ)
    (hcs : cs.map Prod.fst = l.map Prod.fst)
    (hdraw : ∀ i q, (cs.flatMap fun a => a.1.drawn a.2)[i]? = some q →
      Denotes R env (sharedDraw (n + i)) (some (.number q)))
    (h : Threaded (fun a n g m => Draws (t.sharedAssignments scope a.2 a.1) n g m) l n given used) :
    List.Forall₂ (List.Forall₂ (Fills R env row)) given gs ↔
      List.Forall₂ (fun a g => a.1.Gives R t σ scope.columns row a.2 g) cs gs := by
  induction h generalizing cs gs with
  | nil =>
    rw [List.map_nil, List.map_eq_nil_iff] at hcs
    rw [hcs, List.forall₂_nil_left_iff, List.forall₂_nil_left_iff]
  | @cons a g l given n n₁ used ha _ ih =>
    obtain ⟨⟨tr, c⟩, cs, rfl, rfl, tail⟩ := List.map_eq_cons_iff.1 hcs
    have first (i : ℕ) (q : ℚ) (hq : (a.1.drawn c)[i]? = some q) :
        Denotes R env (sharedDraw (n + i)) (some (.number q)) := by
      refine hdraw i q ?_
      obtain ⟨hi, _⟩ := List.getElem?_eq_some_iff.1 hq
      rw [List.flatMap_cons, List.getElem?_append_left hi]
      exact hq
    have others (i : ℕ) (q : ℚ) (hq : (cs.flatMap fun a => a.1.drawn a.2)[i]? = some q) :
        Denotes R env (sharedDraw (n₁ + i)) (some (.number q)) := by
      rw [sharedAssignments_drawCount ha, Nat.add_assoc, ← a.1.length_drawn c]
      refine hdraw _ q ?_
      rw [List.flatMap_cons, List.getElem?_append_right (Nat.le_add_right _ _),
        Nat.add_sub_cancel_left]
      exact hq
    have one (contents : List (String × Datum)) : List.Forall₂ (Fills R env row) g contents ↔
        a.1.Gives R t σ scope.columns row c contents :=
      sharedAssignments_fills hd hl (hfor _ List.mem_cons_self) href htables first ha
    have rest (gs : List (List (String × Datum))) :
        List.Forall₂ (List.Forall₂ (Fills R env row)) given gs ↔
          List.Forall₂ (fun a g => a.1.Gives R t σ scope.columns row a.2 g) cs gs :=
      ih (fun a ha => hfor a (List.mem_cons_of_mem _ ha)) tail others
    simp only [List.forall₂_cons_left_iff, one, rest]

/-- Draws under their numbered names. -/
def numberedDraws (qs : List ℚ) : List (String × Datum) :=
  ((List.range qs.length).map fun i => "_r" ++ toString i).zip (qs.map .number)

/-- The draws that are bound are any draws of the engine. -/
theorem binds_iff {e : Engine} {used : ℕ} {bound : List (String × Datum)} (he : R.engine = e)
    (hn : e ≠ .clickhouse) :
    Binds R env ((List.range used).map fun i => ("_r" ++ toString i, e.unit 0)) bound ↔
      ∃ qs : List ℚ, qs.length = used ∧ (∀ q ∈ qs, e.IsDraw q) ∧ bound = numberedDraws qs := by
  have split : Binds R env ((List.range used).map fun i => ("_r" ++ toString i, e.unit 0)) bound ↔
      (List.range used).map (fun i => "_r" ++ toString i) = bound.map Prod.fst ∧
        YieldsAll R env (((List.range used).map fun _ => (0 : Int)).map e.unit)
          (bound.map Prod.snd) := by
    rw [Binds, Yields.all_iff, ← List.forall₂_eq_eq_eq]
    simp only [List.forall₂_map_left_iff, List.forall₂_map_right_iff]
    generalize List.range used = l
    induction l generalizing bound with
    | nil => simp
    | cons i l ih =>
      simp only [List.forall₂_cons_left_iff, ih]
      constructor
      · rintro ⟨b, rest, ⟨hb, hy⟩, ⟨h₁, h₂⟩, rfl⟩
        exact ⟨⟨b, rest, hb.symm, h₁, rfl⟩, b, rest, hy, h₂, rfl⟩
      · rintro ⟨⟨b, rest, hb, h₁, rfl⟩, _, _, hy, h₂, ⟨⟩⟩
        exact ⟨b, rest, ⟨hb.symm, hy⟩, ⟨h₁, h₂⟩, rfl⟩
  rw [split, Engine.units_yield he hn, List.length_map, List.length_range]
  constructor
  · rintro ⟨names, qs, rfl, hqs, values⟩
    exact ⟨qs, rfl, hqs, List.zip_of_prod names.symm values⟩
  · rintro ⟨qs, rfl, hqs, rfl⟩
    have same : ((List.range qs.length).map fun i => "_r" ++ toString i).length =
        (qs.map Datum.number).length := by simp
    exact ⟨(List.map_fst_zip same.le).symm, qs, rfl, hqs, List.map_snd_zip same.ge⟩

theorem sharedDraw_denotes {u : Update} {rand : Int → ℕ} {qs : List ℚ} {i : ℕ} {q : ℚ}
    (hq : qs[i]? = some q) :
    Denotes R (u.env σ row rand (numberedDraws qs)) (sharedDraw i) (some (.number q)) := by
  refine (Denotes.name _).congr ?_
  have found := entry_numbered (numbered_injective "_r") (qs.map Datum.number) 0 i
  rw [List.length_map, ← List.range_eq_range', Nat.zero_add, List.getElem?_map, hq] at found
  exact found

/-- With the draws bound, what is assigned is what the transformations give for these draws. -/
theorem shared_assigned {l : List (Transformation × ℕ)} {cs : List (Transformation × Chance)}
    {used : ℕ} {given : List (List (Value × Expr))} {u : Update} {rand : Int → ℕ}
    (hd : t.dialect = .of R.engine) (hl : R.engine.taking = .limit)
    (ht : t.tableRef scope.table = .ok u.table)
    (hcs : cs.map Prod.fst = l.map Prod.fst) (hfor : ∀ a ∈ cs, a.2.IsFor R.engine)
    (hg : Threaded (fun a n g m => Draws (t.sharedAssignments scope a.2 a.1) n g m) l 0 given
      used) :
    (∃ contents, List.Forall₂ (Fills R (u.env σ row rand
        (numberedDraws (cs.flatMap fun a => a.1.drawn a.2))) row) given.flatten contents ∧
        row' = row.assign contents) ↔
      Simultaneous R t σ scope.columns cs row row' := by
  set qs := cs.flatMap fun a => a.1.drawn a.2 with hqs
  have bound (i : ℕ) (q : ℚ) (hq : qs[i]? = some q) :
      Denotes R (u.env σ row rand (numberedDraws qs)) (sharedDraw (0 + i))
        (some (.number q)) := by
    rw [Nat.zero_add]
    exact sharedDraw_denotes hq
  have each (gs : List (List (String × Datum))) : List.Forall₂
        (List.Forall₂ (Fills R (u.env σ row rand (numberedDraws qs)) row)) given gs ↔
      List.Forall₂ (fun a g => a.1.Gives R t σ scope.columns row a.2 g) cs gs :=
    shared_fills hd hl hfor (refers_tableColumn ht) rfl hcs bound hg
  constructor
  · rintro ⟨contents, hf, rfl⟩
    obtain ⟨gs, hgs, rfl⟩ := pairing_flatten.1 hf
    exact ⟨gs, (each gs).1 hgs, rfl⟩
  · rintro ⟨gs, hgs, rfl⟩
    exact ⟨_, pairing_flatten.2 ⟨gs, (each gs).2 hgs, rfl⟩, rfl⟩

/-- What the update of a batch makes of a row. -/
theorem sharedUpdate_changes {b : Batch} {used : ℕ} {given : List (List (Value × Expr))}
    {u : Update} (hd : t.dialect = .of R.engine) (hl : R.engine.taking = .limit)
    (hg : Threaded (fun a n g m => Draws (t.sharedAssignments scope a.2 a.1) n g m)
      b.active.zipIdx 0 given used)
    (ht : t.tableRef scope.table = .ok u.table)
    (ha : t.assignments given.flatten = .ok u.assignments) (hc : u.condition = none)
    (hu : u.draws = (List.range used).map fun i => ("_r" ++ toString i, R.engine.unit 0)) :
    u.Changes R σ row row' ↔ Transforms R t σ scope.columns b.active row row' := by
  have active : b.active.zipIdx.map Prod.fst = b.active := List.zipIdx_map_fst 0 b.active
  have count : used = (b.active.map Transformation.drawCount).sum := by
    have drawn : (b.active.zipIdx.map fun a => a.1.drawCount) =
        b.active.map Transformation.drawCount := by
      conv_rhs => rw [← active, List.map_map]
      rfl
    rw [shared_drawCount hg, drawn, Nat.zero_add]
  have hn : R.engine ≠ .clickhouse := by
    intro hr
    rw [hr] at hl
    cases hl
  rw [changes_iff hc (compiled_of_assignments ha), hu]
  simp only [binds_iff rfl hn]
  constructor
  · rintro ⟨rand, _, hr, ⟨qs, length, hqs, rfl⟩, hcontents⟩
    obtain ⟨cs, hcs, hfor, rfl⟩ := Transformation.exists_chances (length.trans count) hqs
    exact ⟨cs, hcs, hfor,
      (shared_assigned hd hl ht (hcs.trans active.symm) hfor hg).1 hcontents⟩
  · rintro ⟨cs, hcs, hfor, h⟩
    refine ⟨fun _ => 0, _, fun _ => by positivity,
      ⟨cs.flatMap fun a => a.1.drawn a.2, ?_, fun q hq => ?_, rfl⟩,
      (shared_assigned hd hl ht (hcs.trans active.symm) hfor hg).2 h⟩
    · rw [count, List.length_flatMap, ← hcs, List.map_map]
      simp only [Transformation.length_drawn, Function.comp_def]
    · obtain ⟨a, ha, hq⟩ := List.mem_flatMap.1 hq
      exact Transformation.isDraw_of_mem_drawn (hfor a ha) hq

/-- What the update of a batch makes of the table, in whatever way it draws and looks up. -/
theorem sharedUpdate_executes {b : Batch} {actions : List Action} {path : Path}
    (hd : t.dialect = .of R.engine) (hl : R.engine.taking = .limit)
    (ht : t.tableRef scope.table = .ok path) (h : Returns (t.sharedUpdate scope b) actions) :
    ∃ sts : List Statement, actions = sts.map .run ∧ ∀ σ rows, σ path = some rows → ∀ σ',
      ExecutesAll R σ sts σ' ↔ ∃ rows', σ' = σ.set path rows' ∧
        List.Forall₂ (Transforms R t σ scope.columns b.active) rows rows' := by
  have inactive := sharedUpdate_eq_nil h
  obtain ⟨given, used, hg, ⟨_, rfl⟩ | ⟨_, table, assignments, unit, ht', ha, hu, rfl⟩⟩ :=
    sharedUpdate_returns h
  · refine ⟨[], rfl, fun σ rows hσ σ' => ?_⟩
    rw [inactive.1 rfl]
    simp only [Folded.nil_iff, Transforms.rows_nil, exists_eq_right, Store.set_self hσ]
  · cases ht.symm.trans ht'
    have drawn : R.engine.unit 0 = unit := by
      rw [hd] at hu
      exact Except.ok.inj hu
    refine ⟨[_], rfl, fun σ rows hσ σ' => ?_⟩
    set u : Update := {
      table := path, assignments
      draws := (List.range used).map fun i => ("_r" ++ toString i, unit) }
    have one : u.Changes R σ = Transforms R t σ scope.columns b.active :=
      funext₂ fun _ _ => propext (sharedUpdate_changes hd hl hg ht ha rfl (by rw [drawn]))
    have started : σ u.table = some rows := hσ
    rw [executesAll_update started, one]

end Target
end SyntheticRows
