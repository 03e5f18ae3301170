import SyntheticRows.Proofs.Meaning.Assignment

/-!
# The update for what needs no rebuild

On ClickHouse the templates and mutations that do not assign the sort key go into one update. Their
draws are told apart by their places in the batch, so the update makes of a row exactly what they
make of it at once.
-/
namespace SyntheticRows
open Sql

namespace Target

variable {R : Rules} {env : Env} {row row' : Row} {t : Target} {scope : Scope} {σ : Store}
  {b : Batch} {contents : List (String × Datum)}

/-- The part of a batch that ClickHouse updates in place. -/
def remainingPart (scope : Scope) (b : Batch) : List Transformation :=
  b.active.filter fun tr => !tr.isRebuilt (scope.columns.headD .null)

theorem updatedPart_map_fst : (updatedPart scope b).map Prod.fst = remainingPart scope b := by
  rw [updatedPart, remainingPart]
  conv_rhs => rw [← List.zipIdx_map_fst 0 b.active, List.filter_map]
  rfl

/-- The assignment for a transformation of the update. -/
def Updates (t : Target) (scope : Scope) (m : Transformation × ℕ) (a : Ident × Expr) : Prop :=
  m.1.isKnown ∧ m.1.isRebuilt (scope.columns.headD .null) = false ∧
    t.ident (m.1.assignedColumns.headD .null) = .ok a.1 ∧
    Returns (t.rowExpr scope t.plainRef (transformationSalt + m.2 : ℕ) m.1) a.2

theorem updates_fills {m : Transformation × ℕ} {a : Ident × Expr} {c : Chance}
    (he : R.engine = .clickhouse) (hres : ∀ c : Ident, env.resolve [.given c] = row c.name)
    (hc : c.IsFor .clickhouse) (tagged : m.1.Tagged env.rand m.2 c) (h : t.Updates scope m a) :
    List.Forall₂ (Fills R env row) [(m.1.assignedColumns.headD .null, a.2)] contents ↔
      m.1.Gives R t σ scope.columns row c contents := by
  obtain ⟨tr, index⟩ := m
  obtain ⟨known, inPlace, _, hx⟩ := h
  cases tr with
  | template tr => exact template_fills (refers_plainRef hres) (rowExpr_template hx)
  | mutation m =>
    obtain ⟨column, hcolumn, hbound⟩ := rowExpr_mutation hx
    obtain ⟨name, hname, _⟩ := refers_plainRef (R := R) hres _ _ hcolumn
    have named (w : Datum) : Denotes R (env.bind "_r" w) column (row name) := by
      have inside : Refers R (env.bind "_r" w) row t.plainRef :=
        refers_plainRef fun c => (bind_resolve (by simp)).trans (hres c)
      obtain ⟨name', hname', hd⟩ := inside _ _ hcolumn
      cases hname.symm.trans hname'
      exact hd
    exact mutation_fills hname (Mutation.boundExpr_denotes he hc tagged named hbound)
  | lookup l => cases inPlace
  | swap s => cases inPlace
  | other kind => cases known

/-- The columns that are assigned and their expressions. -/
def givenBy (l : List (Transformation × ℕ)) (assignments : List (Ident × Expr)) :
    List (Value × Expr) :=
  List.zipWith (fun m a => (m.1.assignedColumns.headD .null, a.2)) l assignments

section All

variable {l : List (Transformation × ℕ)} {assignments : List (Ident × Expr)}
  {cs : List (Transformation × Chance)}

theorem compiled_of_updates (h : List.Forall₂ (t.Updates scope) l assignments) :
    Compiled (givenBy l assignments) assignments := by
  induction h with
  | nil => exact .nil
  | cons ha _ ih => exact .cons ⟨ident_text ha.2.2.1, rfl⟩ ih

theorem updates_fills_all (he : R.engine = .clickhouse)
    (hres : ∀ c : Ident, env.resolve [.given c] = row c.name)
    (h : List.Forall₂ (t.Updates scope) l assignments)
    (hcs : Transformation.TaggedAll env.rand l cs) :
    List.Forall₂ (Fills R env row) (givenBy l assignments) contents ↔
      ∃ gs, List.Forall₂ (fun a g => a.1.Gives R t σ scope.columns row a.2 g) cs gs ∧
        contents = gs.flatten := by
  induction h generalizing cs contents with
  | nil =>
    cases hcs
    simp [givenBy]
  | @cons m a l assignments ha _ ih =>
    cases hcs with
    | @cons _ x _ cs hx htail =>
      obtain ⟨same, hc, tagged⟩ := hx
      rw [same] at tagged
      have one (contents : List (String × Datum)) :
          List.Forall₂ (Fills R env row) [(m.1.assignedColumns.headD .null, a.2)] contents ↔
            m.1.Gives R t σ scope.columns row x.2 contents := updates_fills he hres hc tagged ha
      rw [givenBy, List.zipWith_cons_cons, ← List.singleton_append, pairing_append]
      simp only [one]
      simp only [List.forall₂_cons_left_iff, same]
      constructor
      · rintro ⟨g, rest, hg, hrest, rfl⟩
        obtain ⟨gs, hgs, rfl⟩ := (ih htail).1 hrest
        exact ⟨g :: gs, ⟨g, gs, hg, hgs, rfl⟩, rfl⟩
      · rintro ⟨_, ⟨g, gs, hg, hgs, rfl⟩, rfl⟩
        exact ⟨g, _, hg, (ih htail).2 ⟨gs, hgs, rfl⟩, rfl⟩

/-- What the update makes of a row. It looks nothing up. -/
theorem updates_changes {u : Update} {σ' : Store} (he : R.engine = .clickhouse)
    (h : List.Forall₂ (t.Updates scope) l u.assignments) (hn : (l.map Prod.snd).Nodup)
    (hc : u.condition = none) (hd : u.draws = []) :
    u.Changes R σ' row row' ↔ Transforms R t σ scope.columns (l.map Prod.fst) row row' := by
  have each {rand : Int → ℕ} {cs : List (Transformation × Chance)}
      (hcs : Transformation.TaggedAll rand l cs) (contents : List (String × Datum)) :
      List.Forall₂ (Fills R (u.env σ' row rand []) row) (givenBy l u.assignments) contents ↔
        ∃ gs, List.Forall₂ (fun a g => a.1.Gives R t σ scope.columns row a.2 g) cs gs ∧
          contents = gs.flatten := updates_fills_all he (fun _ => rfl) h hcs
  rw [changes_iff hc (compiled_of_updates h), hd, Transforms, he]
  constructor
  · rintro ⟨rand, bound, hr, hb, contents, hf, rfl⟩
    cases hb
    obtain ⟨cs, hcs⟩ := Transformation.exists_taggedAll hr l
    obtain ⟨gs, hgs, rfl⟩ := (each hcs contents).1 hf
    exact ⟨cs, hcs.map_fst, hcs.isFor, gs, hgs, rfl⟩
  · rintro ⟨cs, hcs, hfor, gs, hgs, rfl⟩
    obtain ⟨rand, hr, tagged⟩ := Transformation.exists_rand_of_nodup hn hcs hfor
    exact ⟨rand, [], hr, .nil, _, (each tagged _).2 ⟨gs, hgs, rfl⟩, rfl⟩

end All
end Target
end SyntheticRows
