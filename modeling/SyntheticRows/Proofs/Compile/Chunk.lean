import SyntheticRows.Compile.Table
import SyntheticRows.Proofs.Compile.Failure
import SyntheticRows.Proofs.Run.Outcome

/-!
# Chunks compile alike

The statement of a chunk depends on the chunk only through its source of rows, and the ordinal
that it hands to the columns never decides whether they compile. So a table that compiles for one
chunk is never refused for another.
-/
namespace SyntheticRows
open Sql

/-- What a compilation leaves once its result is forgotten: the error, or the tags given out. -/
def tagsAfter {α : Type} (x : Tagged α) (tags : Tags) : Except Error Tags := Prod.snd <$> x.run tags

/-- The two compilations fail alike and give out the same tags. -/
def Alike {α β : Type} (x : Tagged α) (y : Tagged β) : Prop :=
  ∀ tags, tagsAfter x tags = tagsAfter y tags

namespace Alike

variable {α β γ δ : Type}

theorem refl (x : Tagged α) : Alike x x := fun _ => rfl

theorem bind {x : Tagged α} {y : Tagged β} {f : α → Tagged γ} {g : β → Tagged δ}
    (h : Alike x y) (hf : ∀ a b, Alike (f a) (g b)) : Alike (x >>= f) (y >>= g) := by
  intro tags
  have hxy := h tags
  simp only [tagsAfter, StateT.run_bind] at hxy ⊢
  cases hx : x.run tags with
  | error e =>
    cases hy : y.run tags with
    | error e' =>
      rw [hx, hy] at hxy
      cases hxy
      rfl
    | ok b => rw [hx, hy] at hxy; cases hxy
  | ok a =>
    cases hy : y.run tags with
    | error e' => rw [hx, hy] at hxy; cases hxy
    | ok b =>
      rw [hx, hy] at hxy
      have ht : a.2 = b.2 := Except.ok.inj hxy
      show Prod.snd <$> (f a.1).run a.2 = Prod.snd <$> (g b.1).run b.2
      rw [← ht]
      exact hf a.1 b.1 a.2

theorem lift {x : Except Error α} {y : Except Error β} (h : failure? x = failure? y) :
    Alike (liftM x : Tagged α) (liftM y : Tagged β) := by
  intro tags
  cases x <;> cases y <;> simp only [failure?, Option.some.injEq, reduceCtorEq] at h
  · rw [h]; rfl
  · rfl

theorem failure?_eq {x : Tagged α} {y : Tagged β} (h : Alike x y) (tags : Tags) :
    failure? (x.run tags) = failure? (y.run tags) := by
  have := congrArg failure? (h tags)
  rwa [tagsAfter, tagsAfter, failure?_map, failure?_map] at this

end Alike

theorem Generator.compile_alike (d : Dialect) (now : Int) (row row' : Expr) (g : Generator) :
    Alike (g.compile d now row) (g.compile d now row') := by
  cases g with
  | sequence s =>
    apply Alike.lift
    simp only [Generator.sequenceExpr]
    cases Expr.ofInt s.step <;> cases Expr.ofInt s.start <;> rfl
  | _ => exact Alike.refl _

namespace Column

/-- The type decides whether a cast compiles, not what is cast. -/
theorem failure?_cast (d : Dialect) (x x' : Expr) (c : Column) :
    failure? (cast d x c) = failure? (cast d x' c) := by
  cases d with
  | core => rfl
  | of e => cases e <;> cases hc : c.type <;> simp [cast, Dialect.engine, hc] <;> rfl

theorem failure?_nullWrap (d : Dialect) (x x' p p' : Expr) (tag tag' : Int) :
    failure? (d.nullWrap x p tag) = failure? (d.nullWrap x' p' tag') := by
  cases d with
  | core => rfl
  | of e => cases e <;> rfl

theorem compile_alike (d : Dialect) (now : Int) (row row' : Expr) (c : Column) :
    Alike (c.compile d now row) (c.compile d now row') := by
  unfold compile
  by_cases hp : (Number.int 1).le c.effectiveNullProbability = true
  · simp only [hp, if_true]
    exact Alike.refl _
  simp only [hp]
  refine (Generator.compile_alike d now row row' c.generator).bind fun x x' => ?_
  refine (Alike.lift (failure?_cast d x x' c)).bind fun x x' => ?_
  split
  · exact fun _ => rfl
  refine (Alike.refl nextTag).bind fun tag tag' => ?_
  refine (Alike.refl _).bind fun p p' => ?_
  exact Alike.lift (failure?_nullWrap d x x' p p' tag tag')

theorem failure?_expression (d : Dialect) (now : Int) (row row' : Expr) (salt : Int) (c : Column) :
    failure? (c.expression d now row salt) = failure? (c.expression d now row' salt) := by
  simp only [expression, failure?_map]
  exact (compile_alike d now row row' c).failure?_eq _

end Column

namespace RowSource

theorem levelSource_error {count : Int} {levels level : Nat} {e : Error}
    (h : levelSource count levels level = .error e) : e.isConfiguration = false := by
  simp only [levelSource] at h
  split at h
  · cases hq : Double.ceilQuotient? count (levelWeight levels level) with
    | none => rw [hq] at h; cases h; rfl
    | some q => rw [hq] at h; cases h
  · cases h

theorem trino_error {count origin : Int} {e : Error} (h : trino count origin = .error e) :
    e.isConfiguration = false := by
  unfold trino at h
  split at h
  · cases h
  · rcases except_error_of_bind h with h | ⟨sources, _, h⟩
    · obtain ⟨level, _, hl⟩ := error_of_mapM h
      exact levelSource_error hl
    · cases h

/-- A source of rows can be too large to be written, but it is never refused. -/
theorem make_error {d : Dialect} {count origin : Int} {e : Error}
    (h : make d count origin = .error e) : e.isConfiguration = false := by
  rcases except_error_of_bind h with h | ⟨engine, _, h⟩
  · cases d <;> cases h
    rfl
  rcases except_error_of_bind h with h | ⟨_, _, h⟩
  · exact writable_error h
  cases engine with
  | trino => exact trino_error h
  | _ => cases h

end RowSource

namespace Target

variable {t : Target} {now : Int} {table : Table} {n n' o o' : Int} {st : Statement}

/-- What an insert is made of: each of its parts is compiled by itself, and only the source of its
rows depends on the chunk. -/
theorem parts_of_insertRows (h : t.insertRows now table n o = .ok st) :
    ∃ i rows lookups lists, st = .insert i ∧ RowSource.make t.dialect n o = .ok rows ∧
      table.lookups = .ok lookups ∧
      List.Forall₂ (fun l d => t.dialect.lookupDefinition l.1 l.2 = .ok d) lookups lists ∧
      List.Forall₂ (fun c ident => t.ident c.name = .ok ident) table.columns i.columns ∧
      List.Forall₂ (fun c x => c.1.expression t.dialect now rows.row (c.2 + 1) = .ok x)
        table.columns.zipIdx i.values ∧
      t.tableRef table.name = .ok i.table ∧ i.definitions = rows.definitions ++ lists ∧
      i.sources = insertSources t.dialect rows (lookups.map Prod.fst) ∧
      i.condition = rows.condition := by
  obtain ⟨rows, made, h⟩ := except_ok_of_bind h
  obtain ⟨lookups, gathered, h⟩ := except_ok_of_bind h
  obtain ⟨lists, defined, h⟩ := except_ok_of_bind h
  obtain ⟨columns, named, h⟩ := except_ok_of_bind h
  obtain ⟨values, computed, h⟩ := except_ok_of_bind h
  obtain ⟨path, there, h⟩ := except_ok_of_bind h
  cases h
  exact ⟨_, rows, lookups, lists, rfl, made, gathered, forall₂_of_mapM defined,
    forall₂_of_mapM named, forall₂_of_mapM computed, there, rfl, rfl, rfl⟩

theorem tableRef_of_insertRows (h : t.insertRows now table n o = .ok st) :
    ∃ path, t.tableRef table.name = .ok path := by
  obtain ⟨i, _, _, _, _, _, _, _, _, _, there, _⟩ := parts_of_insertRows h
  exact ⟨i.table, there⟩

/-- What comes after the source of rows fails alike for any two chunks. -/
theorem failure?_insertRows {rows rows' : Sql.RowSource}
    (h : RowSource.make t.dialect n o = .ok rows)
    (h' : RowSource.make t.dialect n' o' = .ok rows') :
    failure? (t.insertRows now table n o) = failure? (t.insertRows now table n' o') := by
  simp only [insertRows, h, h']
  show failure? (table.lookups >>= _) = failure? (table.lookups >>= _)
  refine failure?_bind_same _ fun lookups => ?_
  refine failure?_bind_same _ fun definitions => ?_
  refine failure?_bind_same _ fun columns => ?_
  refine failure?_bind (failure?_mapM fun c _ => ?_) fun _ _ => ?_
  · exact Column.failure?_expression _ _ _ _ _ _
  · exact failure?_bind_same _ fun _ => rfl

/-- A table that compiles for one chunk compiles for every other that has a source of rows. -/
theorem insertRows_ok_of_ok {rows' : Sql.RowSource} (h : t.insertRows now table n o = .ok st)
    (h' : RowSource.make t.dialect n' o' = .ok rows') :
    ∃ st', t.insertRows now table n' o' = .ok st' := by
  obtain ⟨rows, hr, _⟩ := except_ok_of_bind h
  have alike : failure? (t.insertRows now table n o) = failure? (t.insertRows now table n' o') :=
    failure?_insertRows hr h'
  cases hi : t.insertRows now table n' o' with
  | ok st' => exact ⟨st', rfl⟩
  | error e =>
    rw [h, hi] at alike
    cases alike

/-- A table that compiles for one chunk is not refused for another. -/
theorem insertRows_error_of_ok {e : Error} (h : t.insertRows now table n o = .ok st)
    (he : t.insertRows now table n' o' = .error e) : e.isConfiguration = false := by
  rcases except_error_of_bind he with he | ⟨rows', hr', _⟩
  · exact RowSource.make_error he
  obtain ⟨st', h'⟩ := insertRows_ok_of_ok h hr'
  cases h'.symm.trans he

end Target

end SyntheticRows
