import SyntheticRows.Proofs.Meaning.Insert
import SyntheticRows.Proofs.Meaning.Replacement

/-!
# What a session leaves in the database

All statements of a session as steps between stores. An insert adds one row for each row that it
reads. A table is created only if it is not there, and maintenance changes no row. Transformations
leave every table with as many rows as it had.
-/
namespace SyntheticRows
open Sql

/-- The row has in each column what the expression for it stores, if that is known. -/
def Sql.Insert.Fills (R : Rules) (convert : Conversion) (env : Env) (i : Insert) (row : Row) :
    Prop :=
  List.Forall₂ (fun column x => ∃ v, row column.name = some v ∧
    ((∃ u, Stores R convert env x u) → Stores R convert env x v)) i.columns i.values

/-- What an insert adds: one row for each row that it reads. -/
def Sql.Insert.Adds (R : Rules) (convert : Conversion) (σ : Store) (i : Insert)
    (added : List Row) : Prop :=
  ∃ w : Scene, w.rules = R ∧ w.tables = σ ∧ (∀ cells tag, w.rand cells tag < 2 ^ 32) ∧
    List.Forall₂ (fun cells row => i.Fills R convert (w.env cells) row) (i.rows w) added

/-- One statement of a session takes one store to another. -/
inductive Performs (R : Rules) (convert : Conversion) : Store → Statement → Store → Prop
  | executes {σ σ' : Store} {st : Statement} : Executes R σ st σ' → Performs R convert σ st σ'
  | create {σ : Store} {table : Path} {columns : List ColumnDefinition} {storage : Storage} :
    σ table = none →
    Performs R convert σ (.createTable table columns storage) (σ.set table [])
  | keep {σ : Store} {table : Path} {columns : List ColumnDefinition} {storage : Storage}
    {rows : List Row} : σ table = some rows →
    Performs R convert σ (.createTable table columns storage) σ
  | clear {σ : Store} {table : Path} {rows : List Row} : σ table = some rows →
    Performs R convert σ (.clear table) (σ.set table [])
  /-- Only ClickHouse clears a table that is not there. -/
  | clearNothing {σ : Store} {table : Path} : R.engine = .clickhouse → σ table = none →
    Performs R convert σ (.clear table) σ
  | insert {σ : Store} {i : Insert} {rows added : List Row} : σ i.table = some rows →
    i.Adds R convert σ added → Performs R convert σ (.insert i) (σ.set i.table (rows ++ added))
  | createSchema {σ : Store} {path : Path} : Performs R convert σ (.createSchema path) σ
  | maintain {σ : Store} {m : Maintenance} : Performs R convert σ (.maintain m) σ

/-- Statements of a session, one after the other. -/
abbrev PerformsAll (R : Rules) (convert : Conversion) : Store → List Statement → Store → Prop :=
  Folded (Performs R convert)

namespace Store

/-- The rows of a table, none if the table is not there. -/
def rowsOf (σ : Store) (path : Path) : List Row := (σ path).getD []

/-- The contents of a column. -/
def contents (σ : Store) (path : Path) (column : String) : List Datum :=
  (σ.rowsOf path).filterMap (· column)

/-- How many rows a table has, if it is there. -/
def size (σ : Store) (path : Path) : Option ℕ := (σ path).map List.length

variable {σ : Store} {path other : Path} {rows : List Row}

theorem rowsOf_eq (h : σ path = some rows) : σ.rowsOf path = rows := by simp [rowsOf, h]

theorem size_eq (h : σ path = some rows) : σ.size path = some rows.length := by simp [size, h]

theorem length_rowsOf {n : ℕ} (h : σ.size path = some n) : (σ.rowsOf path).length = n := by
  obtain ⟨rows, hrows, rfl⟩ := Option.map_eq_some_iff.1 h
  rw [rowsOf_eq hrows]

@[simp] theorem rowsOf_set : (σ.set path rows).rowsOf path = rows := by simp [rowsOf]

@[simp] theorem size_set : (σ.set path rows).size path = some rows.length := by simp [size]

theorem size_set_other (h : other ≠ path) : (σ.set path rows).size other = σ.size other := by
  rw [size, set_other h, size]

/-- A database with one table. -/
def only (path : Path) (rows : List Row) : Store := set (fun _ => none) path rows

theorem size_set_of_length {rows' : List Row} (h : σ path = some rows)
    (same : rows'.length = rows.length) : (σ.set path rows').size = σ.size := by
  funext p
  by_cases hp : p = path
  · subst hp
    rw [size_set, size_eq h, same]
  · exact size_set_other hp

end Store

variable {R : Rules} {convert : Conversion} {σ σ' : Store}

section Steps

variable {path : Path}

theorem performs_insert {i : Insert} : Performs R convert σ (.insert i) σ' ↔
    ∃ rows added, σ i.table = some rows ∧ i.Adds R convert σ added ∧
      σ' = σ.set i.table (rows ++ added) := by
  constructor
  · intro h
    cases h with
    | executes hx => cases hx
    | insert hrows hadds => exact ⟨_, _, hrows, hadds, rfl⟩
  · rintro ⟨rows, added, hrows, hadds, rfl⟩
    exact .insert hrows hadds

theorem performs_drop : Performs R convert σ (.drop path) σ' ↔ σ' = σ.remove path := by
  constructor
  · intro h
    cases h with
    | executes hx =>
      cases hx
      rfl
  · rintro rfl
    exact .executes .drop

/-- A table is there after it was created, with the rows that it had. -/
theorem performs_create {columns : List ColumnDefinition} {storage : Storage} :
    Performs R convert σ (.createTable path columns storage) σ' ↔
      σ' = σ.set path (σ.rowsOf path) := by
  constructor
  · intro h
    cases h with
    | executes hx => cases hx
    | create hnone => rw [Store.rowsOf, hnone, Option.getD_none]
    | keep hrows => rw [Store.rowsOf_eq hrows, Store.set_self hrows]
  · rintro rfl
    cases h : σ path with
    | none =>
      rw [Store.rowsOf, h]
      exact .create h
    | some rows =>
      rw [Store.rowsOf_eq h, Store.set_self h]
      exact .keep h

/-- A table that is there is empty after it was cleared. -/
theorem performs_clear {rows : List Row} (hrows : σ path = some rows) :
    Performs R convert σ (.clear path) σ' ↔ σ' = σ.set path [] := by
  constructor
  · intro h
    cases h with
    | executes hx => cases hx
    | clear => rfl
    | clearNothing _ hnone => cases hrows.symm.trans hnone
  · rintro rfl
    exact .clear hrows

theorem performs_maintain {m : Maintenance} :
    Performs R convert σ (.maintain m) σ' ↔ σ' = σ := by
  constructor
  · intro h
    cases h with
    | executes hx => cases hx
    | maintain => rfl
  · rintro rfl
    exact .maintain

end Steps

/-- Statements that only maintain tables leave the store as it is. -/
theorem performsAll_maintenance {sts : List Statement} (h : ∀ st ∈ sts, ∃ m, st = .maintain m) :
    PerformsAll R convert σ sts σ' ↔ σ' = σ := by
  induction sts generalizing σ with
  | nil => exact Folded.nil_iff
  | cons st sts ih =>
    obtain ⟨m, rfl⟩ := h st List.mem_cons_self
    simp only [Folded.cons_iff, performs_maintain, exists_eq_left,
      ih fun st hst => h st (List.mem_cons_of_mem _ hst)]

section Transformations

theorem Sql.Rebuild.length_of_computes {r : Rebuild} {rows rows' : List Row}
    (h : r.Computes R σ rows rows') : rows'.length = rows.length := by
  obtain ⟨selected, groups, joined, hselected, hgroups, hjoined, hprojected⟩ := h
  have joins := LookupJoin.joins_one hgroups hjoined
  rw [← hprojected.length_eq, ← joins.length_eq, hselected.length_eq]

/-- A replacement that is executed finds neither the shadow nor the old table there. -/
theorem Sql.Rebuild.fits_of_executesAll {r : Rebuild} {old : Path}
    (h : ExecutesAll R σ (r.replacement old) σ') :
    ∃ rows, σ r.table = some rows ∧ σ r.shadow = none ∧ σ old = none ∧ r.shadow ≠ old := by
  simp only [replacement, Folded.cons_iff, Folded.nil_iff] at h
  obtain ⟨_, hcreate, _, hfill, _, hexchange, _⟩ := h
  cases hcreate with
  | createLike hshadow htable =>
    cases hfill with
    | rebuild _ _ _ =>
      cases hexchange with
      | exchange _ _ hold _ =>
        have apart : r.shadow ≠ old := by
          rintro rfl
          simp at hold
        refine ⟨_, htable, hshadow, ?_, apart⟩
        rwa [Store.set_other apart.symm, Store.set_other apart.symm] at hold

theorem Sql.Rebuild.size_of_executesAll {r : Rebuild} {old : Path}
    (h : ExecutesAll R σ (r.replacement old) σ') : σ'.size = σ.size := by
  obtain ⟨rows, htable, hshadow, hold, apart⟩ := fits_of_executesAll h
  obtain ⟨rows', rfl, hcomputes⟩ := (executesAll_replacement htable hshadow hold apart).1 h
  exact Store.size_set_of_length htable (length_of_computes hcomputes)

/-- The statements by which a table is transformed: one update, or the four of a replacement. -/
inductive Transforming : List Statement → Prop
  | update (u : Update) : Transforming [.update u]
  | replacement (r : Rebuild) (old : Path) : Transforming (r.replacement old)

/-- Whether a statement is one of those by which tables are transformed. -/
def Sql.Statement.transforms : Statement → Bool
  | .update _ | .createLike _ _ | .rebuild _ | .exchange _ _ _ | .drop _ => true
  | _ => false

theorem executesAll_of_performsAll {sts : List Statement} (h : ∀ st ∈ sts, st.transforms = true)
    (hx : PerformsAll R convert σ sts σ') : ExecutesAll R σ sts σ' := by
  induction hx with
  | nil σ => exact .nil σ
  | cons first _ ih =>
    refine .cons ?_ (ih fun st hst => h st (List.mem_cons_of_mem _ hst))
    cases first with
    | executes hx => exact hx
    | _ => cases h _ List.mem_cons_self

theorem Transforming.transforms {sts : List Statement} (h : Transforming sts) :
    ∀ st ∈ sts, st.transforms = true := by
  cases h <;> simp [Rebuild.replacement, Statement.transforms]

/-- Transformations leave every table with as many rows as it had. -/
theorem Transforming.size {sts : List Statement} (h : Transforming sts)
    (hx : PerformsAll R convert σ sts σ') : σ'.size = σ.size := by
  have executed := executesAll_of_performsAll h.transforms hx
  cases h with
  | update u =>
    obtain ⟨_, hu, rest⟩ := Folded.cons_iff.1 executed
    cases rest
    cases hu with
    | update hrows hchanges => exact Store.size_set_of_length hrows hchanges.length_eq.symm
  | replacement r old => exact Rebuild.size_of_executesAll executed

theorem size_of_transforming {parts : List (List Statement)} (h : ∀ p ∈ parts, Transforming p)
    (hx : PerformsAll R convert σ parts.flatten σ') : σ'.size = σ.size := by
  induction parts generalizing σ with
  | nil =>
    cases hx
    rfl
  | cons part parts ih =>
    rw [List.flatten_cons] at hx
    obtain ⟨σ₁, first, rest⟩ := Folded.append_iff.1 hx
    rw [ih (fun p hp => h p (List.mem_cons_of_mem _ hp)) rest,
      (h part List.mem_cons_self).size first]

end Transformations

section Existence

/-- A row with given contents, as long as no column is named twice. -/
theorem exists_row {P : Expr → Datum → Prop} {columns : List Ident} {values : List Expr}
    (distinct : (columns.map Ident.name).Nodup) (length : columns.length = values.length)
    (h : ∀ x ∈ values, ∃ v, P x v) :
    ∃ row : Row, List.Forall₂ (fun column x => ∃ v, row column.name = some v ∧ P x v) columns
      values := by
  induction columns generalizing values with
  | nil =>
    rw [List.length_nil, eq_comm, List.length_eq_zero_iff] at length
    subst length
    exact ⟨fun _ => none, .nil⟩
  | cons column columns ih =>
    obtain ⟨x, values, rfl⟩ := List.exists_cons_of_length_eq_add_one length.symm
    rw [List.map_cons, List.nodup_cons] at distinct
    obtain ⟨row, hrow⟩ := ih distinct.2 (Nat.succ.inj length) fun x hx =>
      h x (List.mem_cons_of_mem _ hx)
    obtain ⟨v, hv⟩ := h x List.mem_cons_self
    refine ⟨Function.update row column.name (some v), .cons ⟨v, by simp, hv⟩ ?_⟩
    refine (pairing_mem hrow).imp fun other x hx => ?_
    obtain ⟨inside, u, hu, hp⟩ := hx
    have apart : other.name ≠ column.name := by
      rintro same
      exact distinct.1 (same ▸ List.mem_map_of_mem inside)
    exact ⟨u, by rwa [Function.update_of_ne apart], hp⟩

/-- Something can always be added by an insert that names no column twice. -/
theorem Sql.Insert.exists_adds (R : Rules) (convert : Conversion) (σ : Store) {i : Insert}
    (distinct : (i.columns.map Ident.name).Nodup) (length : i.columns.length = i.values.length) :
    ∃ added, i.Adds R convert σ added := by
  classical
  let w : Scene := ⟨R, σ, fun _ => .null, fun _ _ => 0⟩
  have filled : ∀ cells ∈ i.rows w, ∃ row, i.Fills R convert (w.env cells) row := by
    intro cells _
    refine exists_row distinct length fun x _ => ?_
    by_cases known : ∃ u, Stores R convert (w.env cells) x u
    · exact ⟨known.choose, fun _ => known.choose_spec⟩
    · exact ⟨.null, fun h => (known h).elim⟩
  obtain ⟨added, hadded⟩ := pairing_of_forall filled
  exact ⟨added, w, rfl, rfl, fun _ _ => by positivity, hadded⟩

end Existence
end SyntheticRows
