import Mathlib
import SyntheticRows.Compile.Batch
import SyntheticRows.Proofs.Compile.Batch
import SyntheticRows.Proofs.Meaning.Draw
import SyntheticRows.Proofs.Meaning.Simultaneous

/-!
# What is assigned to a row

The references to columns mean the contents of the row, whichever way they are written, and the
expression that is assigned for a template, a mutation or a lookup yields what the transformation
gives.
-/
namespace SyntheticRows
open Sql

theorem numbered_injective (base : String) :
    Function.Injective fun i : ℕ => base ++ toString i := fun _ _ h =>
  Nat.repr_injective ((String.append_right_inj base).1 h)

/-- The indices of a list do not repeat. -/
theorem indices_nodup {α : Type} {l : List α} {as : List (α × ℕ)} (h : as.Sublist l.zipIdx) :
    (as.map Prod.snd).Nodup := by
  refine List.Nodup.sublist (h.map Prod.snd) ?_
  rw [List.zipIdx_map_snd]
  exact List.nodup_range'

/-- The content under a numbered name. -/
theorem entry_numbered {name : ℕ → String} (hn : Function.Injective name) (vs : List Datum)
    (k i : ℕ) : entry (((List.range' k vs.length).map name).zip vs) (name (k + i)) = vs[i]? := by
  induction vs generalizing k i with
  | nil => rfl
  | cons v vs ih =>
    rw [List.length_cons, List.range'_succ, List.map_cons, List.zip_cons_cons, entry_cons]
    cases i with
    | zero => simp
    | succ i =>
      have other : name k ≠ name (k + (i + 1)) := fun h => by
        have := hn h
        omega
      rw [if_neg other, List.getElem?_cons_succ]
      simpa only [Nat.add_right_comm, Nat.add_assoc] using ih (k + 1) i

namespace Target

variable {t : Target} {v : Value} {i : Ident}

theorem ident_text (h : t.ident v = .ok i) : v = .text i.name := by
  obtain ⟨_, _, h⟩ := except_ok_of_bind h
  cases v with
  | text s =>
    simp only [Ident.ofValue] at h
    split at h
    · split at h
      · cases h
        rfl
      · unfold refuse at h
        obtain ⟨_, _, h⟩ := except_ok_of_bind h
        cases h
    · unfold refuse at h
      obtain ⟨_, _, h⟩ := except_ok_of_bind h
      cases h
  | _ =>
    simp only [Ident.ofValue, refuse] at h
    obtain ⟨_, _, h⟩ := except_ok_of_bind h
    cases h

theorem tableRef_last {path : Path} (h : t.tableRef v = .ok path) :
    ∃ i, t.ident v = .ok i ∧ path.getLast? = some (.given i) := by
  obtain ⟨qualifiers, _, h⟩ := except_ok_of_bind h
  obtain ⟨i, hi, h⟩ := except_ok_of_bind h
  cases h
  exact ⟨i, hi, by simp⟩

/-- Tables with different names are different. -/
theorem tableRef_injective {w : Value} {path : Path} (hv : t.tableRef v = .ok path)
    (hw : t.tableRef w = .ok path) : v = w := by
  obtain ⟨i, hi, hlast⟩ := tableRef_last hv
  obtain ⟨i', hi', hlast'⟩ := tableRef_last hw
  cases hlast.symm.trans hlast'
  exact (ident_text hi).trans (ident_text hi').symm

theorem columnRef_returns {table column : Value} {path : Path}
    (h : t.columnRef table column = .ok path) :
    ∃ i c, t.ident table = .ok i ∧ column = .text c.name ∧ path = [.given i, .given c] := by
  obtain ⟨i, hi, h⟩ := except_ok_of_bind h
  obtain ⟨c, hc, h⟩ := except_ok_of_bind h
  cases h
  exact ⟨i, c, hi, ident_text hc, rfl⟩

end Target

/-- The references to columns mean the contents of the row. -/
def Refers (R : Rules) (env : Env) (row : Row) (ref : Value → Except Error Expr) : Prop :=
  ∀ v x, ref v = .ok x → ∃ c, v = .text c ∧ Denotes R env x (row c)

section References

variable {R : Rules} {env : Env} {σ : Store} {row : Row} {t : Target}

theorem bind_resolve {parameter : String} {w : Datum} {path : Path}
    (h : path ≠ [.bare parameter]) : (env.bind parameter w).resolve path = env.resolve path :=
  if_neg h

theorem refers_plainRef (h : ∀ c : Ident, env.resolve [.given c] = row c.name) :
    Refers R env row t.plainRef := by
  intro v x hx
  obtain ⟨c, hc, hx⟩ := except_ok_of_bind hx
  cases hx
  exact ⟨c.name, Target.ident_text hc, (Denotes.name _).congr (h c)⟩

theorem refers_tableColumn {u : Update} {rand : Int → ℕ} {bound : List (String × Datum)}
    {table : Value} (h : t.tableRef table = .ok u.table) :
    Refers R (u.env σ row rand bound) row (t.tableColumn table) := by
  obtain ⟨i, hi, last⟩ := Target.tableRef_last h
  intro v x hx
  obtain ⟨path, hp, rfl⟩ := except_ok_of_map hx
  obtain ⟨i', c, hi', rfl, rfl⟩ := Target.columnRef_returns hp
  cases hi.symm.trans hi'
  refine ⟨c.name, rfl, (Denotes.name _).congr ?_⟩
  simp only [Update.env, Update.resolve, last, if_true]

end References

/-- The value names a column of the row, and the expression can yield what is assigned to it. -/
def Fills (R : Rules) (env : Env) (row : Row) (given : Value × Expr)
    (content : String × Datum) : Prop :=
  given.1 = .text content.1 ∧ (row content.1).isSome ∧ Yields R env given.2 content.2

section Fills

variable {R : Rules} {env : Env} {row : Row} {contents : List (String × Datum)}

theorem fills_one {v : Value} {x : Expr} :
    List.Forall₂ (Fills R env row) [(v, x)] contents ↔
      ∃ column w, v = .text column ∧ (row column).isSome ∧ Yields R env x w ∧
        contents = [(column, w)] := by
  rw [List.forall₂_cons_left_iff]
  constructor
  · rintro ⟨⟨column, w⟩, _, ⟨hv, hs, hw⟩, hrest, rfl⟩
    cases hrest
    exact ⟨column, w, hv, hs, hw, rfl⟩
  · rintro ⟨column, w, hv, hs, hw, rfl⟩
    exact ⟨_, _, ⟨hv, hs, hw⟩, .nil, rfl⟩

theorem fills_two {v v' : Value} {x x' : Expr} :
    List.Forall₂ (Fills R env row) [(v, x), (v', x')] contents ↔
      ∃ column w column' w', v = .text column ∧ (row column).isSome ∧ Yields R env x w ∧
        v' = .text column' ∧ (row column').isSome ∧ Yields R env x' w' ∧
        contents = [(column, w), (column', w')] := by
  rw [List.forall₂_cons_left_iff]
  constructor
  · rintro ⟨⟨column, w⟩, _, ⟨hv, hs, hw⟩, hrest, rfl⟩
    obtain ⟨column', w', hv', hs', hw', rfl⟩ := fills_one.1 hrest
    exact ⟨column, w, column', w', hv, hs, hw, hv', hs', hw', rfl⟩
  · rintro ⟨column, w, column', w', hv, hs, hw, hv', hs', hw', rfl⟩
    exact ⟨_, _, ⟨hv, hs, hw⟩, fills_one.2 ⟨column', w', hv', hs', hw', rfl⟩, rfl⟩

/-- The assignments of an update that was compiled from columns and their expressions. -/
def Compiled (given : List (Value × Expr)) (assignments : List (Ident × Expr)) : Prop :=
  List.Forall₂ (fun g a => g.1 = .text a.1.name ∧ g.2 = a.2) given assignments

theorem compiled_of_assignments {t : Target} {given : List (Value × Expr)}
    {assignments : List (Ident × Expr)} (h : t.assignments given = .ok assignments) :
    Compiled given assignments := by
  refine (forall₂_of_mapM h).imp fun g a hg => ?_
  obtain ⟨i, hi, hg⟩ := except_ok_of_bind hg
  cases hg
  exact ⟨Target.ident_text hi, rfl⟩

theorem fills_of_compiled {given : List (Value × Expr)} {assignments : List (Ident × Expr)}
    (h : Compiled given assignments) :
    List.Forall₂ (Fills R env row) given contents ↔
      (∀ a ∈ assignments, (row a.1.name).isSome) ∧ Update.Assigns R env assignments contents := by
  unfold Compiled at h
  unfold Update.Assigns
  induction h generalizing contents with
  | nil => simp
  | @cons g a given assignments hga _ ih =>
    obtain ⟨hv, hx⟩ := hga
    simp only [List.forall₂_cons_left_iff, ih, List.forall_mem_cons]
    constructor
    · rintro ⟨b, rest, ⟨hb, hs, hy⟩, ⟨hall, hrest⟩, rfl⟩
      have same : b.1 = a.1.name := Value.text.inj (hb.symm.trans hv)
      exact ⟨⟨same ▸ hs, hall⟩, b, rest, ⟨same, hx ▸ hy⟩, hrest, rfl⟩
    · rintro ⟨⟨hs, hall⟩, b, rest, ⟨hb, hy⟩, hrest, rfl⟩
      exact ⟨b, rest, ⟨by rw [hv, hb], hb ▸ hs, hx ▸ hy⟩, ⟨hall, hrest⟩, rfl⟩

/-- An update without a condition replaces contents in every row. -/
theorem changes_iff {u : Update} {σ : Store} {row' : Row} {given : List (Value × Expr)}
    (hc : u.condition = none) (hg : Compiled given u.assignments) :
    u.Changes R σ row row' ↔ ∃ rand bound, IsRand rand ∧
      Binds R (u.env σ row rand []) u.draws bound ∧
      ∃ contents, List.Forall₂ (Fills R (u.env σ row rand bound) row) given contents ∧
        row' = row.assign contents := by
  simp only [Update.Changes, hc, Option.mem_def, reduceCtorEq, false_and, exists_false, or_false,
    false_implies, implies_true, true_and, fills_of_compiled hg]
  constructor
  · rintro ⟨hall, rand, bound, hr, hb, contents, ha, rfl⟩
    exact ⟨rand, bound, hr, hb, contents, ⟨hall, ha⟩, rfl⟩
  · rintro ⟨rand, bound, hr, hb, contents, ⟨hall, ha⟩, rfl⟩
    exact ⟨hall, rand, bound, hr, hb, contents, ha, rfl⟩

end Fills

section Single

variable {R : Rules} {env : Env} {row : Row} {t : Target} {tables : Store} {columns : List Value}
  {x : Expr} {c : Chance} {contents : List (String × Datum)}

theorem template_fills {d : Dialect} {table : Value} {strict : Bool} {tr : Template}
    {ref : Value → Except Error Expr} (href : Refers R env row ref)
    (h : Returns (tr.expression d table columns strict ref) x) :
    List.Forall₂ (Fills R env row) [(tr.column, x)] contents ↔
      Transformation.Gives R t tables columns row (.template tr) c contents := by
  have named (c : String) (e : Expr) (he : ref (.text c) = .ok e) : Denotes R env e (row c) := by
    obtain ⟨c', hc, hd⟩ := href _ _ he
    cases hc
    exact hd
  obtain ⟨s, hs, present, missing⟩ := Template.expression_denotes named h
  rw [fills_one]
  constructor
  · rintro ⟨column, w, hc, hrow, hy, rfl⟩
    by_cases hall : ∀ name ∈ Template.reads columns s.toList, (row name).isSome
    · rw [present hall, Option.some.injEq] at hy
      exact hy ▸ .template hc hrow hs hall
    · push Not at hall
      obtain ⟨name, hn, hr⟩ := hall
      rw [missing ⟨name, hn, by simpa using hr⟩] at hy
      cases hy
  · intro hg
    cases hg with
    | template hc hrow hs' hall =>
      cases hs.symm.trans hs'
      exact ⟨_, _, hc, hrow, (present hall _).2 rfl, rfl⟩

/-- A mutation over a column of the row, for whatever it draws. -/
theorem mutation_fills {m : Mutation} {column : String} (hm : m.column = .text column)
    (hx : Denotes R env x ((row column).map (m.content R c))) :
    List.Forall₂ (Fills R env row) [(m.column, x)] contents ↔
      Transformation.Gives R t tables columns row (.mutation m) c contents := by
  rw [fills_one]
  constructor
  · rintro ⟨column', w, hc, hrow, hy, rfl⟩
    cases hm.symm.trans hc
    obtain ⟨u, hu, rfl⟩ := Option.map_eq_some_iff.1 ((hx w).1 hy)
    exact .mutation hm hu
  · intro hg
    cases hg with
    | mutation hc hu =>
      cases hm.symm.trans hc
      exact ⟨_, _, hm, by rw [hu]; rfl, (hx _).2 (by rw [hu]; rfl), rfl⟩

theorem lookup_fills {table : Value} {l : Lookup} {label : String} {taking : Taking}
    (htaking : R.engine.taking = taking) (href : Refers R env row (t.tableColumn table))
    (htables : env.tables = tables) (h : t.lookupExpr table l label taking = .ok x) :
    List.Forall₂ (Fills R env row) [(l.column, x)] contents ↔
      Transformation.Gives R t tables columns row (.lookup l) c contents := by
  obtain ⟨wanted, hwanted, h⟩ := except_ok_of_bind h
  obtain ⟨source, hsource, h⟩ := except_ok_of_bind h
  obtain ⟨key, hkey, h⟩ := except_ok_of_bind h
  obtain ⟨path, hpath, h⟩ := except_ok_of_bind h
  cases h
  have refers := href l.targetColumn (.name path) (by rw [Target.tableColumn, hpath]; rfl)
  obtain ⟨target, htarget, hd⟩ := refers
  have resolved (u : Datum) : env.resolve path = some u ↔ row target = some u :=
    Yields.name_iff.symm.trans (hd u)
  rw [fills_one]
  simp only [Yields.lookup_iff, htables, resolved, ← htaking]
  constructor
  · rintro ⟨column, v, hc, hrow, ⟨u, hu, hf⟩, rfl⟩
    exact .lookup hc hrow htarget hu hsource hkey hwanted hf
  · intro hg
    cases hg with
    | lookup hc hrow htarget' hu hsource' hkey' hwanted' hf =>
      cases htarget.symm.trans htarget'
      cases hsource.symm.trans hsource'
      cases hkey.symm.trans hkey'
      cases hwanted.symm.trans hwanted'
      exact ⟨_, _, hc, hrow, ⟨_, hu, hf⟩, rfl⟩

theorem swap_fills {s : Swap} {first second : String} {y : Expr} (h₁ : s.column1 = .text first)
    (h₂ : s.column2 = .text second)
    (hx : Denotes R env x (if c.gate < s.probability.val.toRat then row second else row first))
    (hy : Denotes R env y (if c.gate < s.probability.val.toRat then row first else row second)) :
    List.Forall₂ (Fills R env row) [(s.column1, x), (s.column2, y)] contents ↔
      Transformation.Gives R t tables columns row (.swap s) c contents := by
  rw [fills_two]
  constructor
  · rintro ⟨column, u, column', w, hc, hs, hu, hc', hs', hw, rfl⟩
    cases h₁.symm.trans hc
    cases h₂.symm.trans hc'
    replace hu := (hx u).1 hu
    replace hw := (hy w).1 hw
    by_cases hp : c.gate < s.probability.val.toRat
    · rw [if_pos hp] at hu hw
      simpa only [if_pos hp] using
        Transformation.Gives.swap (R := R) (t := t) (c := c) h₁ h₂ hw hu
    · rw [if_neg hp] at hu hw
      simpa only [if_neg hp] using
        Transformation.Gives.swap (R := R) (t := t) (c := c) h₁ h₂ hu hw
  · intro hg
    cases hg with
    | swap h₁' h₂' hu hw =>
      cases h₁.symm.trans h₁'
      cases h₂.symm.trans h₂'
      have there : (row first).isSome := by rw [hu]; rfl
      have there' : (row second).isSome := by rw [hw]; rfl
      by_cases hp : c.gate < s.probability.val.toRat
      · rw [if_pos hp] at hx hy ⊢
        exact ⟨_, _, _, _, h₁, there, (hx _).2 hw, h₂, there', (hy _).2 hu, rfl⟩
      · rw [if_neg hp] at hx hy ⊢
        exact ⟨_, _, _, _, h₁, there, (hx _).2 hu, h₂, there', (hy _).2 hw, rfl⟩

end Single
end SyntheticRows
