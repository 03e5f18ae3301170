import SyntheticRows.Proofs.Draw.Span
import SyntheticRows.Proofs.Run.ServedTables

/-!
# Databases that can serve

Whatever a run sends, there are databases that serve it. Rows can be drawn for each insert as long
as what the expressions store and what the draws determine go together, and a batch can be applied
to rows that have what it names.
-/
namespace SyntheticRows
open Sql Target

section Settling

variable {R : Rules} {convert : Conversion} {env : Env} {x y : Expr} {type : String} {s : Site}

/-- A content that the expression stores, and that some draws give where draws determine it. -/
def Sql.Expr.Settles (R : Rules) (convert : Conversion) (env : Env) (x : Expr) (v : Datum) : Prop :=
  ((∃ u, Stores R convert env x u) → Stores R convert env x v) ∧
    ∀ y type, x = .cast y type → (∀ s : Site, s.engine = R.engine → (y.value? s).isSome) →
      ∃ s u, s.engine = R.engine ∧ y.value? s = some u ∧ v = convert type u

namespace Sql.Expr

/-- Nothing is determined where names are used that some site does not know. -/
theorem exists_settled_of_hidden
    (h : ∀ y type, x = .cast y type → ∃ s : Site, s.engine = R.engine ∧ y.value? s = none) :
    ∃ v, x.Settles R convert env v := by
  have open_ : ∀ y type, x = .cast y type →
      ¬∀ s : Site, s.engine = R.engine → (y.value? s).isSome := by
    intro y type hx known
    obtain ⟨s, hs, none⟩ := h y type hx
    simpa [none] using known s hs
  by_cases known : ∃ u, Stores R convert env x u
  · exact ⟨known.choose, fun _ => known.choose_spec, fun y type hx hs => (open_ y type hx hs).elim⟩
  · exact ⟨.null, fun h => (known h).elim, fun y type hx hs => (open_ y type hx hs).elim⟩

/-- What is drawn can be taken where nothing is known of what is stored. -/
theorem exists_settled_of_silent (hs : s.engine = R.engine) (h : ∀ u, ¬Yields R env y u) :
    ∃ v, (cast y type).Settles R convert env v := by
  have unknown : ¬∃ u, Stores R convert env (cast y type) u := by
    rintro ⟨_, stored⟩
    obtain ⟨u, hu, -⟩ := Stores.cast_iff.1 stored
    exact h u hu
  cases value : y.value? s with
  | none =>
    refine exists_settled_of_hidden ?_
    rintro _ _ ⟨⟩
    exact ⟨s, hs, value⟩
  | some u =>
    refine ⟨convert type u, fun known => (unknown known).elim, ?_⟩
    rintro _ _ ⟨⟩ _
    exact ⟨s, u, hs, value, rfl⟩

theorem settles_of_known {u : Datum} (hs : s.engine = R.engine) (yields : Yields R env y u)
    (value : y.value? s = some u) : (cast y type).Settles R convert env (convert type u) := by
  refine ⟨fun _ => .cast yields, ?_⟩
  rintro _ _ ⟨⟩ _
  exact ⟨s, u, hs, value, rfl⟩

end Sql.Expr

end Settling

section Inserts

variable {R : Rules} {convert : Conversion} {σ : Store} {i : Insert} {t : Target} {now : ℤ}
  {table : Table} {path : Path}

/-- A row with given contents in the columns that are named, and no others. -/
theorem exists_row_over {P : Expr → Datum → Prop} {columns : List Ident} {values : List Expr}
    (distinct : (columns.map Ident.name).Nodup) (length : columns.length = values.length)
    (h : ∀ x ∈ values, ∃ v, P x v) :
    ∃ row : Row, List.Forall₂ (fun column x => ∃ v, row column.name = some v ∧ P x v) columns
      values ∧ ∀ n, (row n).isSome ↔ n ∈ columns.map Ident.name := by
  obtain ⟨row, hrow⟩ := exists_row distinct length h
  let cut : Row := fun n => if n ∈ columns.map Ident.name then row n else none
  refine ⟨cut, ?_, fun n => ?_⟩
  · refine (pairing_mem hrow).imp ?_
    rintro column x ⟨hc, v, hv, hp⟩
    exact ⟨v, (if_pos (List.mem_map_of_mem hc)).trans hv, hp⟩
  · by_cases hn : n ∈ columns.map Ident.name
    · obtain ⟨column, hc, rfl⟩ := List.mem_map.1 hn
      obtain ⟨_, _, v, hv, -⟩ := partner_right hrow hc
      have kept : cut column.name = some v := (if_pos hn).trans hv
      simp only [kept, Option.isSome_some, hn]
    · have gone : cut n = none := if_neg hn
      simp only [gone, Option.isSome_none, hn, Bool.false_eq_true]

/-- All values of the insert can be settled, whatever row they are for. -/
def Sql.Insert.Settled (R : Rules) (convert : Conversion) (i : Insert) : Prop :=
  ∀ env : Env, ∀ x ∈ i.values, ∃ v, x.Settles R convert env v

theorem Sql.Insert.exists_fulfilled {rows : List Row} (settled : i.Settled R convert)
    (distinct : (i.columns.map Ident.name).Nodup) (length : i.columns.length = i.values.length)
    (hrows : σ i.table = some rows) :
    ∃ added, Fulfils R convert σ (.insert i) (σ.set i.table (rows ++ added)) ∧
      ∀ row ∈ added, ∀ n, (row n).isSome ↔ n ∈ i.columns.map Ident.name := by
  let w : Scene := ⟨R, σ, fun _ => .null, fun _ _ => 0⟩
  obtain ⟨added, hadded⟩ := pairing_of_forall fun cells (_ : cells ∈ i.rows w) =>
    exists_row_over distinct length (settled (w.env cells))
  have filled : i.Adds R convert σ added := by
    refine ⟨w, rfl, rfl, fun _ _ => by positivity, hadded.imp fun cells row hrow => ?_⟩
    exact hrow.1.imp fun column x ⟨v, hv, settles⟩ => ⟨v, hv, settles.1⟩
  refine ⟨added, ⟨.insert hrows filled, ?_⟩, fun row hrow => ?_⟩
  · rintro _ more ⟨⟩ same row hrow
    rw [Store.rowsOf_set, Store.rowsOf_eq hrows, List.append_right_inj] at same
    subst same
    obtain ⟨cells, -, held, -⟩ := partner_left hadded hrow
    refine held.imp ?_
    rintro column x ⟨v, hv, -, drawn⟩ y type hx known
    obtain ⟨s, u, hs, hu, rfl⟩ := drawn y type hx known
    exact ⟨s, u, hs, hu, hv⟩
  · obtain ⟨cells, -, -, listed⟩ := partner_left hadded hrow
    exact listed

/-- Rows can be drawn for all inserts into the table. -/
def Table.Drawable (R : Rules) (convert : Conversion) (t : Target) (now : ℤ) (table : Table) :
    Prop :=
  ∀ (count : ℕ) (origin : ℤ) (i : Insert),
    t.insertRows now table count origin = .ok (.insert i) → i.Settled R convert

theorem map_name_of_idents {columns : List Column} {idents : List Ident}
    (h : List.Forall₂ (fun c ident => t.ident c.name = .ok ident) columns idents) :
    columns.map Column.name = (idents.map Ident.name).map .text := by
  induction h with
  | nil => rfl
  | cons first _ ih => rw [List.map_cons, List.map_cons, List.map_cons, ident_text first, ih]

/-- The inserts of chunks can be fulfilled if the table is there. -/
theorem exists_filled (drawable : table.Drawable R convert t now)
    (hpath : t.tableRef table.name = .ok path) {chunks : List (ℤ × ℕ)} {inserts : List Insert}
    (h : List.Forall₂ (fun b i => t.insertRows now table (b.2 : ℕ) b.1 = .ok (.insert i))
      chunks inserts) {rows : List Row} (hrows : σ path = some rows) :
    ∃ added, FulfilsAll R convert σ (inserts.map .insert) (σ.set path (rows ++ added)) ∧
      ∀ row ∈ added, row.IsOver (table.columns.map Column.name) := by
  induction h generalizing σ rows with
  | nil => exact ⟨[], by rw [List.append_nil, Store.set_self hrows]; exact .nil σ, nofun⟩
  | @cons b i _ _ first _ ih =>
    obtain ⟨hi, names⟩ := Target.names_of_insertRows first
    cases hpath.symm.trans hi
    obtain ⟨distinct, length⟩ := Target.lists_of_insertRows first
    obtain ⟨added, fulfils, listed⟩ :=
      i.exists_fulfilled (drawable _ _ i first) distinct length hrows
    obtain ⟨more, fulfilsMore, others⟩ :=
      ih (σ := σ.set i.table (rows ++ added)) Store.set_same
    rw [Store.set_set, List.append_assoc] at fulfilsMore
    refine ⟨added ++ more, .cons fulfils fulfilsMore, fun row hrow => ?_⟩
    rcases List.mem_append.1 hrow with hrow | hrow
    · intro n
      rw [listed row hrow n, map_name_of_idents names]
      simp
    · exact others row hrow

end Inserts

section Lite

variable {R : Rules} {convert : Conversion} {env : Env} {row x y : Expr} {now salt : ℤ}
  {tags tags' : Tags} {f type : String}

/-- A place on SQLite where no name is known. -/
def Site.unnamed : Site := { engine := .sqlite, draws := .middle, numerals := .digits }

/-- The value is not known at a place where no name is. -/
def Sql.Expr.IsHidden (x : Expr) : Prop := x.value? .unnamed = none

namespace Sql.Expr

theorem isHidden_call {args : List Expr} (h : ∀ vs, Site.unnamed.call f vs = none) :
    (call f args).IsHidden := by
  rw [IsHidden, value?]
  cases values? .unnamed args with
  | none => rfl
  | some vs => exact h vs

theorem isHidden_of_argument {args : List Expr} (h : x ∈ args) (hx : x.IsHidden) :
    (call f args).IsHidden := by
  have unknown : values? .unnamed args = none := by
    induction args with
    | nil => cases h
    | cons a args ih =>
      rw [values?]
      rcases List.mem_cons.1 h with rfl | h
      · rw [show x.value? _ = none from hx]
        rfl
      · rw [ih h]
        cases a.value? .unnamed <;> rfl
  rw [IsHidden, value?, unknown]
  rfl

theorem isHidden_paren (hx : x.IsHidden) : (paren x).IsHidden := value?_paren.trans hx

theorem isHidden_left {op : Operator} (hx : x.IsHidden) : (binary op x y).IsHidden := by
  rw [IsHidden, value?, show x.value? _ = none from hx]
  rfl

theorem isHidden_right {op : Operator} (hy : y.IsHidden) : (binary op x y).IsHidden := by
  rw [IsHidden, value?, show y.value? _ = none from hy]
  cases x.value? .unnamed <;> rfl

theorem isHidden_name {path : Path} : (name path).IsHidden := by
  rw [IsHidden, value?]
  rfl

theorem isHidden_shiftedRow {origin : ℤ} (hx : x.IsHidden) : (shiftedRow x origin).IsHidden := by
  unfold shiftedRow
  split
  · exact hx
  · exact isHidden_paren (isHidden_left hx)

end Sql.Expr
open Sql.Expr

namespace Generator

/-- Whether the generator puts more into a column than one literal. -/
def isVaried : Generator → Bool
  | constant _ | choice [_] | randomText 0 => false
  | _ => true

variable {g : Generator}

theorem yields_ofInt {i : ℤ} (h : Expr.ofInt i = .ok x) : Yields R env x (.number i) := by
  obtain ⟨l, hl, rfl⟩ := except_ok_of_map h
  obtain ⟨_, _, hl⟩ := except_ok_of_bind hl
  cases hl
  unfold Expr.operand
  split
  · exact .paren (.literal (.int i))
  · exact .literal (.int i)

/-- A remainder has no rule among those of transformations. -/
theorem silent_mod {a b : Expr} {u : Datum} (h : ∀ x, Yields R env a x → ∃ q, x = .number q)
    (h' : ∀ x, Yields R env b x → ∃ q, x = .number q) :
    ¬Yields R env (.binary .mod a b) u := by
  intro yields
  obtain ⟨x, y, hx, hy, operated⟩ := Yields.binary_iff.1 yields
  obtain ⟨p, rfl⟩ := h x hx
  obtain ⟨q, rfl⟩ := h' y hy
  cases operated

theorem silent_integer {n : ℤ} (tag : ℤ) (he : R.engine = .sqlite)
    (h : Engine.integer .sqlite n tag = .ok x) (u : Datum) : ¬Yields R env x u := by
  simp only [Engine.integer] at h
  split at h
  · obtain ⟨y, given, h⟩ := except_ok_of_bind h
    cases h
    rw [Yields.paren_iff]
    refine silent_mod (fun x hx => ?_) fun x hx => ?_
    · obtain ⟨m, -, rfl⟩ := (Engine.maskedRandom_yields he).1 hx
      exact ⟨_, rfl⟩
    · obtain ⟨l, hl, rfl⟩ := except_ok_of_map given
      obtain ⟨_, _, hl⟩ := except_ok_of_bind hl
      cases hl
      exact ⟨_, Yields.literal_iff.1 hx⟩
  · exact absurd h refuse_ne_ok

theorem exists_settled_of_sequence {s : Sequence} (hrow : row.IsHidden) (he : R.engine = .sqlite)
    (h : sequenceExpr s row = .ok x) : ∃ v, (Expr.cast x type).Settles R convert env v := by
  obtain ⟨step, _, h⟩ := except_ok_of_bind h
  obtain ⟨start, _, h⟩ := except_ok_of_bind h
  cases h
  refine exists_settled_of_hidden ?_
  rintro _ _ ⟨⟩
  exact ⟨.unnamed, he.symm, isHidden_paren (isHidden_right (isHidden_left hrow))⟩

theorem exists_settled_of_intRange {r : IntRange} (he : R.engine = .sqlite)
    (h : (intRangeExpr (.of .sqlite) r).run tags = .ok (x, tags')) :
    ∃ v, (Expr.cast x type).Settles R convert env v := by
  obtain ⟨low, _, first, later⟩ := Tagged.ok_of_bind h
  obtain ⟨hlow, rfl⟩ := Tagged.ok_of_lift first
  split at later
  · cases later
    have value : x.value? .unnamed = some (.number r.low) := by
      obtain ⟨l, hl, rfl⟩ := except_ok_of_map hlow
      obtain ⟨_, _, hl⟩ := except_ok_of_bind hl
      cases hl
      have whole : (Expr.literal (.int r.low)).value? .unnamed = some (.number r.low) := by
        rw [Expr.value?]
        show some (Datum.number _) = _
        rw [wholeOfChars_toString]
      unfold Expr.operand
      split
      · rw [Expr.value?_paren, whole]
      · exact whole
    exact ⟨_, settles_of_known he.symm (yields_ofInt hlow) value⟩
  · obtain ⟨tag, _, _, later⟩ := Tagged.ok_of_bind later
    obtain ⟨draw, _, second, last⟩ := Tagged.ok_of_bind later
    obtain ⟨hdraw, rfl⟩ := Tagged.ok_of_lift second
    cases last
    refine exists_settled_of_silent (s := .unnamed) he.symm fun u yields => ?_
    obtain ⟨_, v, -, hv, -⟩ := Yields.binary_iff.1 (Yields.paren_iff.1 yields)
    exact silent_integer tag he hdraw v hv

theorem exists_settled_of_choice {vs : List Value} (varied : (choice vs).isVaried = true)
    (he : R.engine = .sqlite) (h : (choiceExpr (.of .sqlite) vs).run tags = .ok (x, tags')) :
    ∃ v, (Expr.cast x type).Settles R convert env v := by
  match vs with
  | [] =>
    cases h
    exact ⟨_, settles_of_known (s := .unnamed) he.symm (.literal .null) Expr.value?_null⟩
  | [_] => cases varied
  | first :: second :: rest =>
    obtain ⟨items, _, _, later⟩ := Tagged.ok_of_bind h
    obtain ⟨tag, _, _, later⟩ := Tagged.ok_of_bind later
    rw [if_pos rfl] at later
    obtain ⟨draw, _, _, last⟩ := Tagged.ok_of_bind later
    cases last
    exact exists_settled_of_silent (s := .unnamed) he.symm fun u yields => by cases yields

theorem isHidden_of_choiceByLookup {vs : List Value} (some : vs ≠ [])
    (h : (choiceByLookupExpr (.of .sqlite) vs).run tags = .ok (x, tags')) : x.IsHidden := by
  obtain ⟨name, _, picked⟩ := Tagged.ok_of_choiceByLookup some h
  obtain ⟨_, engine, picked⟩ := except_ok_of_bind picked
  cases engine
  obtain ⟨draw, _, picked⟩ := except_ok_of_bind picked
  cases picked
  exact isHidden_of_argument List.mem_cons_self isHidden_name

theorem isHidden_of_floatRange {r : FloatRange}
    (h : (floatRangeExpr (.of .sqlite) r).run tags = .ok (x, tags')) : x.IsHidden := by
  obtain ⟨_, _, _, later⟩ := Tagged.ok_of_bind h
  obtain ⟨_, _, _, later⟩ := Tagged.ok_of_bind later
  obtain ⟨_, _, _, later⟩ := Tagged.ok_of_bind later
  obtain ⟨_, _, _, last⟩ := Tagged.ok_of_bind later
  cases last
  exact isHidden_call fun _ => rfl

theorem isHidden_of_randomText {length : ℕ}
    (h : (randomTextExpr (.of .sqlite) length).run tags = .ok (x, tags')) : x.IsHidden := by
  obtain ⟨_, _, engine, later⟩ := Tagged.ok_of_bind h
  cases engine
  obtain ⟨_, _, _, last⟩ := Tagged.ok_of_bind later
  cases last
  exact isHidden_call fun _ => rfl

theorem isHidden_of_span {s : Span}
    (h : (spanExpr (.of .sqlite) now s).run tags = .ok (x, tags')) : x.IsHidden := by
  have dated {seconds : Expr} (made : (Dialect.of .sqlite).fromEpoch seconds = .ok x) :
      x.IsHidden := by
    obtain ⟨_, engine, made⟩ := except_ok_of_bind made
    cases engine
    cases made
    exact isHidden_call fun _ => rfl
  rw [spanExpr_eq] at h
  obtain ⟨start, _, _, later⟩ := Tagged.ok_of_bind h
  obtain ⟨stop, _, _, later⟩ := Tagged.ok_of_bind later
  rcases lt_trichotomy stop start with before | rfl | after
  · rw [spanBetween_refused before] at later
    cases later
  · rw [spanBetween, if_neg (lt_irrefl stop), if_pos rfl] at later
    exact dated (Tagged.ok_of_lift later).1
  · rw [spanBetween, if_neg after.not_gt, if_neg after.ne'] at later
    obtain ⟨_, _, _, later⟩ := Tagged.ok_of_bind later
    obtain ⟨_, _, _, later⟩ := Tagged.ok_of_bind later
    exact dated (Tagged.ok_of_lift later).1

/-- What a generator that is not of one literal puts into a column of SQLite can be settled. -/
theorem exists_settled (he : R.engine = .sqlite) (hrow : row.IsHidden)
    (varied : g.isVaried = true)
    (h : (g.compile (.of .sqlite) now row).run tags = .ok (x, tags')) :
    ∃ v, (Expr.cast x type).Settles R convert env v := by
  have hidden (hx : x.IsHidden) : ∃ v, (Expr.cast x type).Settles R convert env v := by
    refine exists_settled_of_hidden ?_
    rintro _ _ ⟨⟩
    exact ⟨.unnamed, he.symm, hx⟩
  cases g with
  | sequence s => exact exists_settled_of_sequence hrow he (Tagged.ok_of_lift h).1
  | intRange r => exact exists_settled_of_intRange he h
  | floatRange r => exact hidden (isHidden_of_floatRange h)
  | randomText length =>
    cases length with
    | zero => cases varied
    | succ length => exact hidden (isHidden_of_randomText h)
  | choice vs => exact exists_settled_of_choice varied he h
  | choiceByLookup vs =>
    by_cases some : vs = []
    · subst some
      cases h
      exact ⟨_, settles_of_known (s := .unnamed) he.symm (.literal .null) Expr.value?_null⟩
    · exact hidden (isHidden_of_choiceByLookup some h)
  | constant v => cases varied
  | span s => exact hidden (isHidden_of_span h)
  | uuid =>
    obtain ⟨_, _, engine, last⟩ := Tagged.ok_of_bind h
    cases engine
    cases last
    exact hidden (isHidden_call fun _ => rfl)
  | other kind => cases h

end Generator

/-- A column's expression is that of its generator with the column's type, or no cast at all. -/
theorem Column.plain_or_wrapped {c : Column} {e : Engine}
    (h : c.expression (.of e) now row salt = .ok x) : (∀ y type, x ≠ .cast y type) ∨
      ∃ value tags tags', (c.generator.compile (.of e) now row).run tags = .ok (value, tags') ∧
        cast (.of e) value c = .ok x := by
  obtain ⟨⟨y, tags⟩, hrun, rfl⟩ := except_ok_of_map h
  unfold compile at hrun
  by_cases certain : (Number.int 1).le c.effectiveNullProbability = true
  · rw [if_pos certain] at hrun
    cases hrun
    exact .inl nofun
  · rw [if_neg certain] at hrun
    obtain ⟨value, _, made, later⟩ := Tagged.ok_of_bind hrun
    obtain ⟨casted, _, second, last⟩ := Tagged.ok_of_bind later
    obtain ⟨hcast, rfl⟩ := Tagged.ok_of_lift second
    by_cases sure : c.effectiveNullProbability.le (.int 0) = true
    · rw [if_pos sure] at last
      cases last
      exact .inr ⟨value, _, _, made, hcast⟩
    · rw [if_neg sure] at last
      obtain ⟨tag, _, _, last⟩ := Tagged.ok_of_bind last
      obtain ⟨p, _, _, last⟩ := Tagged.ok_of_bind last
      obtain ⟨wrapped, -⟩ := Tagged.ok_of_lift last
      obtain ⟨draw, _, wrapped⟩ := except_ok_of_bind wrapped
      left
      cases e <;> cases wrapped <;> nofun

theorem Column.exists_settled {c : Column} (he : R.engine = .sqlite) (hrow : row.IsHidden)
    (varied : c.generator.isVaried = true)
    (h : c.expression (.of .sqlite) now row salt = .ok x) :
    ∃ v, x.Settles R convert env v := by
  rcases plain_or_wrapped h with wrapped | ⟨value, _, _, made, hcast⟩
  · exact exists_settled_of_hidden fun y type hx => (wrapped y type hx).elim
  · obtain ⟨_, engine, hcast⟩ := except_ok_of_bind hcast
    cases engine
    split at hcast <;> cases hcast
    · exact exists_settled_of_hidden nofun
    · exact exists_settled_of_hidden nofun
    · exact c.generator.exists_settled he hrow varied made

/-- Rows can be drawn on SQLite for every table that is not filled with one literal alone. -/
theorem Table.drawable_of_sqlite {table : Table} {t : Target} (he : R.engine = .sqlite)
    (hd : t.dialect = .of .sqlite) (varied : ∀ c ∈ table.columns, c.generator.isVaried = true) :
    table.Drawable R convert t now := by
  intro count origin i h env x hx
  obtain ⟨_, source, ⟨⟩, made, inserted⟩ := Target.inserts_of_insertRows h
  rw [hd] at made
  obtain ⟨_, engine, made⟩ := except_ok_of_bind made
  cases engine
  obtain ⟨_, _, made⟩ := except_ok_of_bind made
  cases made
  obtain ⟨⟨c, place⟩, hc, compiled⟩ := partner_left inserted.values hx
  rw [hd] at compiled
  have there : c ∈ table.columns := by
    rw [← List.zipIdx_map_fst 0 table.columns]
    exact List.mem_map_of_mem hc
  exact c.exists_settled he (isHidden_shiftedRow isHidden_name) (varied c there) compiled

end Lite

/-- The event is a statement. -/
def Event.IsTold (e : Event) : Prop := ∃ st, e = .executed st

namespace Run

variable {R : Rules} {convert : Conversion} {t : Target} {c : Connection} {σ σ' : Store}
  {s s' : Session} {settings : GenerationSettings} {table : Table} {path : Path}

section Told

theorem serves_of_fulfilled {answers : List ResultSet} {events : List Event}
    (told : ∀ e ∈ events, e.IsTold)
    (h : FulfilsAll R convert σ (events.filterMap Event.statement?) σ') :
    Serves R convert t σ answers events σ' answers := by
  induction events generalizing σ with
  | nil =>
    cases h
    exact .nil
  | cons e events ih =>
    obtain ⟨st, rfl⟩ := told e List.mem_cons_self
    obtain ⟨σ₁, first, rest⟩ := Folded.cons_iff.1 h
    exact .executed first (ih (fun e he => told e (List.mem_cons_of_mem _ he)) rest)

/-- Statements with no query between them are served by what fulfils them. -/
theorem Exchanges.served {sts : List Statement} (h : Exchanges Event.IsTold s s')
    (sent : s'.statements = s.statements ++ sts) (hx : FulfilsAll R convert σ sts σ') :
    Served R convert t σ s σ' s' ∧ s'.database.results = s.database.results := by
  obtain ⟨events, hevents, told, taken⟩ := h
  have none : events.countP Event.asks = 0 := by
    refine List.countP_eq_zero.2 fun e he => ?_
    obtain ⟨st, rfl⟩ := told e he
    exact Bool.false_ne_true
  rw [none, List.drop_zero] at taken
  rw [Session.statements, hevents, List.filterMap_append, Session.statements,
    List.append_right_inj] at sent
  subst sent
  exact ⟨⟨events, hevents, taken ▸ serves_of_fulfilled told hx⟩, taken⟩

end Told

section Generation

/-- A table that is dropped and created is there with no rows. -/
theorem fulfilled_of_preparations {before : List Statement} (creates : settings.createTable = true)
    (ht : c.target.tableRef table.name = .ok path)
    (h : preparations c.target settings table true = before.map .ok) :
    FulfilsAll R convert σ before (σ.set path []) := by
  have plain {σ σ' : Store} {st : Statement} (hx : Performs R convert σ st σ')
      (none : ∀ i, st ≠ .insert i) : Fulfils R convert σ st σ' :=
    ⟨hx, fun i _ hi => (none i hi).elim⟩
  cases prepares_of_preparations ht creates h with
  | dropped =>
    have emptied : (σ.remove path).set path ((σ.remove path).rowsOf path) = σ.set path [] := by
      have gone : (σ.remove path).rowsOf path = [] := by simp [Store.rowsOf, Store.remove]
      rw [gone, Store.set, Store.remove, Function.update_idem]
      rfl
    rw [← emptied]
    refine .cons (plain (performs_drop.2 rfl) fun i same => ?_)
      (.cons (plain (performs_create.2 rfl) fun i same => ?_) (.nil _))
    · cases same
    · cases same
  | emptied first => cases first
  | kept first => cases first

/-- A generation into a table for which rows can be drawn can be served. -/
theorem exists_served_of_generateRows (creates : settings.createTable = true)
    (starts : settings.resumeSequences = false)
    (drawable : table.Drawable R convert c.target c.now) {rows : ℕ} {r : GenerateResult}
    (h : outcome (generateRows settings table rows true false) c s = (.ok r, s')) (σ : Store) :
    ∃ path held, c.target.tableRef table.name = .ok path ∧
      Served R convert c.target σ s (σ.set path held) s' ∧
      s'.database.results = s.database.results ∧
      ∀ row ∈ held, row.IsOver (table.columns.map Column.name) := by
  obtain ⟨before, origin, sizes, inserts, after, written⟩ := written_of_ok h
  obtain ⟨path, ht⟩ := tableRef_of_dropping written.prepared
  obtain ⟨held, filled, listed⟩ := exists_filled (σ := σ.set path []) drawable ht written.compiled
    Store.set_same
  rw [Store.set_set, List.nil_append] at filled
  have told := exchanging_generateRows (P := Event.IsTold) (fun st => ⟨st, rfl⟩)
    (fun resumes => absurd (starts.symm.trans resumes) Bool.false_ne_true) table rows true false
    c s r s' h
  have plain : after = [] := (Except.ok.inj written.maintained).symm
  have sent := written.sent
  rw [plain, List.append_nil, List.append_assoc] at sent
  obtain ⟨served, kept⟩ := told.served sent
    (Folded.append_iff.2 ⟨_, fulfilled_of_preparations creates ht written.prepared, filled⟩)
  exact ⟨path, held, ht, served, kept, listed⟩

end Generation

section Batches

variable {columns : List Value} {rows : List Row}

/-- Rows that a batch suits can go through all of its transformations. -/
theorem exists_transformed {b : Batch} (h : b.Suits t σ columns rows) :
    ∃ rows', List.Forall₂ (Transforms R t σ columns b.active) rows rows' := by
  refine pairing_of_forall fun row hrow => ?_
  obtain ⟨-, fits⟩ := h row hrow
  let drawn : List (Transformation × Chance) := b.active.map fun tr => (tr, ⟨0, 0, 0⟩)
  have drawnFits : ∀ a ∈ drawn, a.1.Fits t σ columns row := by
    intro a ha
    obtain ⟨tr, htr, rfl⟩ := List.mem_map.1 ha
    exact fits tr htr
  obtain ⟨row', hrow'⟩ := Simultaneous.exists_of_fits (R := R) drawnFits
  refine ⟨row', drawn, by simp [drawn, Function.comp_def], fun a ha => ?_, hrow'⟩
  obtain ⟨tr, _, rfl⟩ := List.mem_map.1 ha
  exact Chance.zero_isFor R.engine

theorem fulfilled_of_executed {sts : List Statement} (h : ExecutesAll R σ sts σ') :
    FulfilsAll R convert σ sts σ' :=
  h.imp fun _ _ _ hx => ⟨.executes hx, by rintro _ _ rfl; cases hx⟩

theorem isOver_of_transformed {trs : List Transformation} {rows' : List Row}
    (h : List.Forall₂ (Transforms R t σ columns trs) rows rows')
    (listed : ∀ row ∈ rows, row.IsOver columns) : ∀ row ∈ rows', row.IsOver columns := by
  intro row hrow n
  obtain ⟨before, hbefore, transforms⟩ := partner_left h hrow
  rw [transforms.isSome]
  exact listed before hbefore n

/-- Batches that suit the rows of their table can be served, on engines with one update for each. -/
theorem exists_served_of_applyBatches (hR : R.engine = c.config.driver)
    (hl : R.engine.taking = .limit) {strict : Bool} {result result' : TransformResult}
    {batches : List Batch} (ht : c.target.tableRef result.tableName = .ok path)
    (suits : ∀ b ∈ batches, ∀ (σ₁ : Store) (rows : List Row),
      (∀ other, other ≠ path → σ₁ other = σ other) → (∀ row ∈ rows, row.IsOver columns) →
        b.Suits c.target σ₁ columns rows)
    (hrows : σ path = some rows) (listed : ∀ row ∈ rows, row.IsOver columns)
    (h : outcome (applyBatches strict columns result batches) c s = (.ok result', s')) :
    ∃ rows', Served R convert c.target σ s (σ.set path rows') s' ∧
      s'.database.results = s.database.results ∧ ∀ row ∈ rows', row.IsOver columns := by
  induction batches generalizing result s σ rows with
  | nil =>
    cases h
    refine ⟨rows, ?_, rfl, listed⟩
    rw [Store.set_self hrows]
    exact ⟨[], (List.append_nil _).symm, .nil⟩
  | cons b rest ih =>
    obtain ⟨actions, s₂, result₁, s₁, compiled, events, results, hrun, named, later⟩ :=
      parts_of_applyBatches h
    have told : Exchanges Event.IsTold s s₁ := (Exchanges.nothing events results).trans
      (exchanging_runActions (fun st => ⟨st, rfl⟩) _ _ _ c s₂ _ _ hrun)
    have shared :
        Returns (c.target.sharedUpdate ⟨result.tableName, columns, strict⟩ b) actions := by
      have returned := returns_of_result compiled
      have hd : c.target.dialect = .of R.engine := congrArg Dialect.of hR.symm
      unfold batchActions at returned
      rw [hd] at returned
      cases he : R.engine with
      | postgresql | sqlite =>
        rw [he] at returned
        exact returned
      | trino | clickhouse =>
        rw [he] at hl
        cases hl
    obtain ⟨sts, rfl, executes⟩ := sharedUpdate_executes (congrArg Dialect.of hR.symm) hl ht shared
    obtain ⟨rows₁, transformed⟩ :=
      exists_transformed (R := R) (suits b List.mem_cons_self σ rows (fun _ _ => rfl) listed)
    have sent := statements_of_runActions hrun
    rw [Session.statements, Session.statements, events] at sent
    obtain ⟨served, kept⟩ := told.served sent
      (fulfilled_of_executed ((executes σ rows hrows _).2 ⟨rows₁, rfl, transformed⟩))
    obtain ⟨rows', served', kept', listed'⟩ := ih (by rwa [named])
      (fun b hb σ₁ rows same => suits b (List.mem_cons_of_mem _ hb) σ₁ rows fun other apart =>
        (same other apart).trans (Store.set_other apart))
      Store.set_same (isOver_of_transformed transformed listed) later
    rw [Store.set_set] at served'
    exact ⟨rows', served.trans served', kept'.trans kept, listed'⟩

variable (R convert)

/-- The columns are found in an answer that lists them. -/
theorem served_of_columnNames {table : Value} {listed : ResultSet} {answers : List ResultSet}
    (answered : s.database.results = listed :: answers)
    (ht : c.target.tableRef table = .ok path)
    (known : ∀ row ∈ σ.rowsOf path, row.IsOver (firstFields listed))
    (h : outcome (columnNames table) c s = (.ok columns, s')) :
    columns = firstFields listed ∧ s'.database.results = answers ∧
      Served R convert c.target σ s σ s' := by
  obtain ⟨q, hq, h⟩ := ok_of_lift_bind (of_target_bind h)
  obtain ⟨r, s₁, hr, h⟩ := ok_of_bind h
  cases h
  obtain ⟨sent, taken, rfl⟩ := asked_of_query hr
  have first : s.database.answer.1 = listed := by rw [Database.answer, answered]
  rw [answered, List.drop_one, List.tail_cons] at taken
  refine ⟨by rw [first], taken, _, sent, ?_⟩
  rw [answered, taken]
  refine .queried (fun asked other path' hasked same ht' => ?_) .nil
  -- the query names its table in the last of its parameters
  cases hq.symm.trans hasked
  have parameters := congrArg CatalogQuery.parameters same
  simp only [List.append_right_inj, List.cons.injEq, Prod.mk.injEq, and_true, true_and]
    at parameters
  subst parameters
  cases ht.symm.trans ht'
  exact known

theorem exists_served_of_applyTransformations (hR : R.engine = c.config.driver)
    (hl : R.engine.taking = .limit) {strict : Bool} {table : Value} {result : TransformResult}
    {batches : List Batch} (some : batches ≠ [])
    (full : ∀ b ∈ batches, b.transformations.isEmpty = false) {listed : ResultSet}
    {answers : List ResultSet} (answered : s.database.results = listed :: answers)
    (ht : c.target.tableRef table = .ok path)
    (suits : ∀ b ∈ batches, ∀ (σ₁ : Store) (rows : List Row),
      (∀ other, other ≠ path → σ₁ other = σ other) →
        (∀ row ∈ rows, row.IsOver (firstFields listed)) →
          b.Suits c.target σ₁ (firstFields listed) rows)
    (hrows : σ path = .some rows) (known : ∀ row ∈ rows, row.IsOver (firstFields listed))
    (h : outcome (applyTransformations strict table batches) c s = (.ok result, s')) :
    ∃ rows', Served R convert c.target σ s (σ.set path rows') s' ∧
      s'.database.results = answers ∧ ∀ row ∈ rows', row.IsOver (firstFields listed) := by
  obtain ⟨columns, s₁, -, hcolumns, h⟩ := parts_of_applyTransformations some full h
  obtain ⟨rfl, remaining, served⟩ := served_of_columnNames R convert answered ht
    (by rwa [Store.rowsOf_eq hrows]) hcolumns
  obtain ⟨rows', served', kept, known'⟩ :=
    exists_served_of_applyBatches hR hl (by exact ht) suits hrows known h
  exact ⟨rows', served.trans served', kept.trans remaining, known'⟩

end Batches
end Run
end SyntheticRows
