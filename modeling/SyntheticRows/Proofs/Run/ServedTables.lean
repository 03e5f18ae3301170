import SyntheticRows.Proofs.Run.Served

/-!
# Tables of a served run

What a generation and a batch leave in their table if the database serves them. A generation that
drops its table first numbers the rows from the start of its sequences, whatever was there before.
-/
namespace SyntheticRows
open Sql Target

section Draws

variable {e : Engine} {convert : Conversion} {s : Site} {x : Expr}

theorem Sql.Expr.value?_ofInt {i : ℤ} (fits : s.engine = .sqlite → -2 ^ 63 ≤ i ∧ i < 2 ^ 63)
    (h : ofInt i = .ok x) : x.value? s = some (.number i) := by
  obtain ⟨l, hl, rfl⟩ := except_ok_of_map h
  obtain ⟨_, _, hl⟩ := except_ok_of_bind hl
  cases hl
  have whole : (literal (.int i)).value? s = some (.number i) := value?_int fits
  unfold operand
  split
  · rw [value?_paren, whole]
  · exact whole

/-- A range draws one of its numbers. -/
theorem Generator.value?_intRange {r : IntRange} {tags tags' : Tags} (hs : s.engine = e)
    (fits : e = .sqlite → -2 ^ 63 ≤ r.low ∧ r.low < 2 ^ 63)
    (h : (intRangeExpr (.of e) r).run tags = .ok (x, tags')) :
    ∃ i : ℤ, r.low ≤ i ∧ i ≤ r.high ∧ x.value? s = some (.number i) := by
  have ordered := r.low_le_high
  obtain ⟨low, _, first, later⟩ := Tagged.ok_of_bind h
  obtain ⟨hlow, rfl⟩ := Tagged.ok_of_lift first
  have start : low.value? s = some (.number r.low) :=
    Expr.value?_ofInt (fun sqlite => fits (hs.symm.trans sqlite)) hlow
  split at later
  · cases later
    exact ⟨r.low, le_rfl, ordered, start⟩
  · obtain ⟨tag, _, _, later⟩ := Tagged.ok_of_bind later
    obtain ⟨draw, _, second, last⟩ := Tagged.ok_of_bind later
    obtain ⟨hdraw, rfl⟩ := Tagged.ok_of_lift second
    cases last
    obtain ⟨n, width⟩ := Int.eq_ofNat_of_zero_le (show 0 ≤ r.width by unfold IntRange.width; omega)
    rw [width] at hdraw
    unfold IntRange.width at width
    have hn : 0 < n := by omega
    have below := s.draws.place_lt e hn tag
    refine ⟨r.low + s.draws.place e n tag, by omega, by omega, ?_⟩
    rw [Expr.value?_paren, Expr.add, Expr.value?_binary start (Engine.value?_integer hs hn hdraw)]
    push_cast
    rfl

namespace Column

variable {c : Column}

/-- A column without nulls is its generator's expression with the column's type. -/
theorem plain_of_expression {now salt : ℤ} {row : Expr} (never : c.nullShare ≤ 0)
    (h : c.expression (.of e) now row salt = .ok x) :
    ∃ value tags, (c.generator.compile (.of e) now row).run (.ofSalt salt) = .ok (value, tags) ∧
      cast (.of e) value c = .ok x := by
  have real := effectiveNullProbability_isReal c
  obtain ⟨⟨y, tags⟩, hrun, rfl⟩ := except_ok_of_map h
  have uncertain : ¬(Number.int 1).le c.effectiveNullProbability = true := by
    rw [Number.le_iff (a := .int 1) trivial real]
    have bound : ¬(1 : ℚ) ≤ c.nullShare := by linarith
    simpa [Number.toRat, nullShare] using bound
  have sure : c.effectiveNullProbability.le (.int 0) = true := by
    rw [Number.le_iff (b := .int 0) real trivial]
    simpa [Number.toRat, nullShare] using never
  unfold compile at hrun
  rw [if_neg uncertain] at hrun
  obtain ⟨value, between, made, later⟩ := Tagged.ok_of_bind hrun
  obtain ⟨casted, _, second, last⟩ := Tagged.ok_of_bind later
  obtain ⟨hcast, rfl⟩ := Tagged.ok_of_lift second
  rw [if_pos sure] at last
  cases last
  exact ⟨value, _, made, hcast⟩

/-- Whole numbers are cast. -/
theorem cast_whole (whole : c.type = .integer ∨ c.type = .bigint) {y : Expr}
    (h : cast (.of e) x c = .ok y) : y = .cast x (c.conversion e) := by
  have casted : cast (.of e) x c = .ok (.cast x (c.conversion e)) := by
    rcases whole with type | type <;> cases e <;> simp [cast, conversion, type, Dialect.engine]
  exact (Except.ok.inj (casted.symm.trans h)).symm

end Column

/-- A column that draws whole numbers from a range, and no nulls. -/
structure Column.DrawsFrom (e : Engine) (c : Column) (r : IntRange) : Prop where
  generator : c.generator = .intRange r
  never : c.nullShare ≤ 0
  whole : c.type = .integer ∨ c.type = .bigint
  fits : e = .sqlite → -2 ^ 63 ≤ r.low ∧ r.low < 2 ^ 63

/-- The row has all columns of the table, and where they draw from a range, a number of it. -/
structure Table.Drew (e : Engine) (convert : Conversion) (table : Table) (row : Row) : Prop where
  columns : ∀ c ∈ table.columns, row.Has c.name
  drawn : ∀ c ∈ table.columns, ∀ r, c.DrawsFrom e r → ∃ (name : String) (i : ℤ),
    c.name = .text name ∧ r.low ≤ i ∧ i ≤ r.high ∧
      row name = some (convert (c.conversion e) (.number i))

variable {t : Target} {now : ℤ} {table : Table} {source : RowSource} {i : Insert}

theorem Target.Inserts.drew (h : t.Inserts now table source i) (he : t.dialect = .of e)
    (names : List.Forall₂ (fun c ident => t.ident c.name = .ok ident) table.columns i.columns)
    {R : Rules} {env : Env} {row : Row} (filled : i.Fills R convert env row)
    (drawn : i.Draws e convert row) : table.Drew e convert row where
  columns := by
    intro c hc
    obtain ⟨ident, hmem, named⟩ := partner_right names hc
    obtain ⟨x, hx, v, hv, -⟩ := partner_right filled hmem
    exact ⟨ident.name, ident_text named, by rw [hv]; rfl⟩
  drawn := by
    intro c hc r from_
    obtain ⟨place, hplace⟩ := List.mem_iff_getElem?.1 hc
    obtain ⟨ident, hident, named⟩ := partner_at names hplace
    have placed : table.columns.zipIdx[place]? = some (c, place) := by
      simp [List.getElem?_zipIdx, hplace]
    obtain ⟨x, hx, compiled⟩ := partner_at h.values placed
    obtain ⟨y, hy, draws⟩ := partner_at drawn hident
    cases hx.symm.trans hy
    rw [he] at compiled
    obtain ⟨value, tags, made, hcast⟩ := Column.plain_of_expression from_.never compiled
    rw [from_.generator] at made
    have ranges (s : Site) (hs : s.engine = e) :=
      Generator.value?_intRange hs from_.fits (r := r) made
    obtain ⟨s, u, hs, known, stored⟩ := draws value _ (Column.cast_whole from_.whole hcast)
      fun s hs => by
        obtain ⟨k, -, -, known⟩ := ranges s hs
        rw [known]
        rfl
    obtain ⟨k, low, high, known'⟩ := ranges s hs
    cases known.symm.trans known'
    exact ⟨ident.name, k, ident_text named, low, high, stored⟩

end Draws

section Generation

variable {e : Engine} {R : Rules} {convert : Conversion} {t : Target} {now : ℤ} {table : Table}
  {path other : Path} {σ σ₁ σ' : Store} {settings : GenerationSettings} {rows : ℕ}

/-- All rows that inserts add drew what their columns draw. -/
theorem drew_of_inserts (he : t.dialect = .of e) (hR : R.engine = e)
    (hpath : t.tableRef table.name = .ok path) {chunks : List (ℤ × ℕ)} {inserts : List Insert}
    (h : List.Forall₂ (fun b i => t.insertRows now table (b.2 : ℕ) b.1 = .ok (.insert i)) chunks
      inserts) (hx : FulfilsAll R convert σ (inserts.map .insert) σ') :
    ∀ row ∈ σ'.rowsOf path, row ∈ σ.rowsOf path ∨ table.Drew e convert row := by
  induction h generalizing σ with
  | nil =>
    cases hx
    exact fun row hrow => .inl hrow
  | @cons b i _ _ first _ ih =>
    obtain ⟨σ₁, hfirst, hrest⟩ := Folded.cons_iff.1 hx
    obtain ⟨before, added, hrows, hadds, rfl⟩ := performs_insert.1 hfirst.performs
    obtain ⟨hi, names⟩ := Target.names_of_insertRows first
    cases hpath.symm.trans hi
    obtain ⟨_, source, same, _, inserted⟩ := Target.inserts_of_insertRows first
    cases same
    have drawn := hfirst.drawn i added rfl (by rw [Store.rowsOf_set, Store.rowsOf_eq hrows])
    obtain ⟨w, rfl, _, _, filled⟩ := hadds
    intro row hrow
    rcases ih hrest row hrow with hrow | drew
    · rw [Store.rowsOf_set, List.mem_append] at hrow
      rcases hrow with hrow | hrow
      · exact .inl (by rwa [Store.rowsOf_eq hrows])
      · obtain ⟨_, _, fills⟩ := partner_left filled hrow
        exact .inr (inserted.drew he names fills (hR ▸ drawn row hrow))
    · exact .inr drew

theorem Store.Extends.elsewhere {added : List Row} (h : σ.Extends path added σ')
    (apart : other ≠ path) : σ' other = σ other := by
  rcases h with ⟨-, rfl⟩ | ⟨rows, -, rfl⟩
  · rfl
  · exact Store.set_other apart

theorem Store.exists_rows_of_mem {row : Row} (h : row ∈ σ.rowsOf path) :
    ∃ rows, σ path = some rows := by
  cases hrows : σ path with
  | none => simp [Store.rowsOf, hrows] at h
  | some rows => exact ⟨rows, rfl⟩

namespace Run

variable {c : Connection} {s s' : Session} {before : List Statement}

/-- Nothing is left of a table that is dropped first, and all of the others. -/
theorem emptied_of_preparations (ht : c.target.tableRef table.name = .ok path)
    (h : preparations c.target settings table true = before.map .ok)
    (hx : PerformsAll R convert σ before σ') :
    (σ' path = if settings.createTable then some [] else none) ∧
      ∀ other, other ≠ path → σ' other = σ other := by
  cases creates : settings.createTable with
  | true =>
    rw [(prepares_of_preparations ht creates h).store hx, Bool.true_or, if_pos rfl, if_pos rfl]
    exact ⟨Store.set_same, fun other apart => Store.set_other apart⟩
  | false =>
    simp only [preparations, creates, if_true, Bool.false_eq_true, if_false, Bool.not_true,
      Bool.and_false, List.append_nil] at h
    obtain ⟨dropped, rest, rfl, hdrop, hrest⟩ := List.map_eq_cons_iff.1 h.symm
    cases List.map_eq_nil_iff.1 hrest
    cases Target.dropTable_eq ht hdrop.symm
    simp only [Folded.cons_iff, Folded.nil_iff, performs_drop, exists_eq_left] at hx
    rw [hx, if_neg Bool.false_ne_true]
    exact ⟨by simp [Store.remove], fun other apart => Function.update_of_ne apart ..⟩

/-- An empty table has no extreme, so a sequence starts at its beginning. -/
theorem origin_of_empty {origin : ℤ} (ht : c.target.tableRef table.name = .ok path)
    (empty : σ.rowsOf path = [])
    (h : outcome (startingOrigin settings table) c s = (.ok origin, s'))
    (served : Served R convert c.target σ s σ' s') : σ' = σ ∧ origin = 0 := by
  unfold startingOrigin at h
  split at h
  · unfold resumeOrigin at h
    split at h
    · cases h
      exact ⟨served.eq_of_events rfl, rfl⟩
    · obtain ⟨q, hq, h⟩ := ok_of_lift_bind (of_target_bind h)
      obtain ⟨v, s₁, hfetch, h⟩ := ok_of_bind h
      obtain ⟨r, s₂, hr, hv⟩ := ok_of_bind (x := fetch q) (f := fun r => pure (firstField r)) hfetch
      cases hv
      have last : s' = s₁ ∧ (firstField r = .null → origin = 0) := by
        split at h
        · cases h
          exact ⟨rfl, fun _ => rfl⟩
        · next known =>
          obtain ⟨_, _, h⟩ := ok_of_lift_bind h
          obtain ⟨_, _, h⟩ := ok_of_lift_bind h
          cases h
          exact ⟨rfl, fun null => absurd null known⟩
      obtain ⟨rfl, zero⟩ := last
      obtain ⟨rfl, replies⟩ := served.of_fetch hr
      rw [← fetched_eq hr] at replies
      obtain ⟨ident, _, hq⟩ := except_ok_of_bind hq
      obtain ⟨path', hpath', hq⟩ := except_ok_of_bind hq
      cases ht.symm.trans hpath'
      cases hq
      refine ⟨rfl, zero ?_⟩
      rcases replies with ⟨x, hx, -⟩ | ⟨-, null⟩
      · simp [Store.contents, empty] at hx
      · exact null
  · cases h
    exact ⟨served.eq_of_events rfl, rfl⟩

/-- The table after a generation of so many rows that dropped it first. -/
structure Refilled (e : Engine) (convert : Conversion) (settings : GenerationSettings)
    (table : Table) (rows : ℕ) (path : Path) (σ σ' : Store) : Prop where
  numbers : settings.Counts e rows →
    List.Forall₂ (table.Numbers e convert) (ordinals 0 rows) (σ'.rowsOf path)
  drew : ∀ row ∈ σ'.rowsOf path, table.Drew e convert row
  elsewhere : ∀ other, other ≠ path → σ' other = σ other
  there : (σ' path).isSome = settings.createTable

/-- With a row to generate, the table is there afterwards. -/
theorem Refilled.exists_rows (h : Refilled e convert settings table rows path σ σ')
    (counts : settings.Counts e rows) (one : 1 ≤ rows) : ∃ held, σ' path = some held := by
  have several : 0 < (σ'.rowsOf path).length := by
    rw [← (h.numbers counts).length_eq, length_ordinals]
    exact one
  exact Store.exists_rows_of_mem (List.getElem_mem several)

theorem tableRef_of_dropping (h : preparations t settings table true = before.map .ok) :
    ∃ path, t.tableRef table.name = .ok path := by
  have dropped : t.dropTable table.name ∈ before.map Except.ok := by
    rw [← h]
    simp [preparations]
  obtain ⟨st, _, compiled⟩ := List.mem_map.1 dropped
  obtain ⟨path, ht, -⟩ := Target.dropTable_ok compiled.symm
  exact ⟨path, ht⟩

theorem refilled_of_generateRows (hR : R.engine = c.config.driver) {r : GenerateResult}
    (h : outcome (generateRows settings table rows true false) c s = (.ok r, s'))
    (served : Served R convert c.target σ s σ' s') :
    ∃ path, c.target.tableRef table.name = .ok path ∧
      Refilled c.config.driver convert settings table rows path σ σ' := by
  rw [generateRows_eq] at h
  obtain ⟨_, s₁, σ₁, hprep, served₁, h, served₂⟩ := served.bind (of_target_bind h)
    (exchanging_sendAll Event.told_any _)
    fun _ => exchanging_fillTable Event.told_any (fun _ _ => trivial) _ _ _
  obtain ⟨before, prepared, sent⟩ := statements_of_sendAll hprep
  obtain ⟨path, ht⟩ := tableRef_of_dropping prepared
  obtain ⟨emptied, others⟩ := emptied_of_preparations ht prepared
    (performsAll_of_fulfilsAll (served₁.fulfilled sent))
  have empty : σ₁.rowsOf path = [] := by
    rw [Store.rowsOf, emptied]
    split <;> rfl
  obtain ⟨origin, s₂, σ₂, hstart, served₃, h, served₄⟩ := served₂.bind (P := Event.Any) h
    (exchanging_startingOrigin _ fun _ _ => trivial) fun _ =>
      .bind (.lift _) fun _ => .bind (.lift _) fun _ =>
        .bind (exchanging_writeChunks Event.told_any _ _ _ _) fun r => .pure r
  obtain ⟨rfl, rfl⟩ := origin_of_empty ht empty hstart served₃
  obtain ⟨chunks, plan, h⟩ := ok_of_lift_bind h
  obtain ⟨sizes, rfl, divides⟩ := divides_of_planChunks plan
  obtain ⟨_, -, h⟩ := ok_of_lift_bind h
  obtain ⟨result, s₃, hwrite, h⟩ := ok_of_bind h
  cases h
  obtain ⟨inserts, compiled, sent, -⟩ := inserts_of_writeChunks hwrite
  have fulfilled := served₄.fulfilled sent
  obtain ⟨is, added, extended, continued, all⟩ := continues_of_inserts rfl hR ht
    (fun n hn => (divides.within n hn).1) compiled (performsAll_of_fulfilsAll fulfilled)
  have held : σ'.rowsOf path = added := by rw [extended.rowsOf, empty, List.nil_append]
  refine ⟨path, ht, fun counts => ?_, fun row hrow => ?_, fun other apart => ?_, ?_⟩
  · have numbered := all fun n hn => isCountable_of_divides divides counts hn
    rw [divides.sum] at numbered
    rw [held, ← numbered]
    exact continued.numbers
  · exact (drew_of_inserts rfl hR ht compiled fulfilled row hrow).resolve_left (by simp [empty])
  · rw [extended.elsewhere apart, others other apart]
  · rcases extended with ⟨-, rfl⟩ | ⟨rows, hrows, rfl⟩
    · rw [emptied]
      cases settings.createTable <;> rfl
    · rw [emptied] at hrows
      split at hrows
      · next creates => rw [Store.set_same, creates, Option.isSome_some]
      · cases hrows

end Run
end Generation

section Batches

variable {R : Rules} {convert : Conversion} {scope : Scope} {b : Batch} {actions : List Action}
  {path : Path}

/-- No transformation of the batch reads what another one assigns. -/
def Batch.Independent (b : Batch) (columns : List Value) : Prop :=
  ∀ tr ∈ b.active, ∀ other ∈ b.active, tr ≠ other →
    ∀ n ∈ tr.reads columns, n ∉ other.assigned

/-- The parts of such a batch do not see each other. -/
theorem Batch.Independent.unread (h : b.Independent scope.columns) : Unread scope b := by
  intro tr htr n hn assigned
  obtain ⟨other, hother, hassigned⟩ := List.mem_flatMap.1 assigned
  refine h tr (mem_active_of_remaining htr) other (mem_active_of_rebuilt hother) ?_ n hn hassigned
  rintro rfl
  have kept := (List.mem_filter.1 htr).2
  rw [(List.mem_filter.1 hother).2] at kept
  cases kept

/-- The rows have the columns that are known of the table, and all that the batch names. -/
def Batch.Suits (b : Batch) (t : Target) (σ : Store) (columns : List Value) (rows : List Row) :
    Prop :=
  ∀ row ∈ rows, row.IsOver columns ∧ ∀ tr ∈ b.active, tr.Fits t σ columns row

theorem Transformation.Fits.has {t : Target} {σ : Store} {columns : List Value} {row : Row}
    {tr : Transformation} (h : tr.Fits t σ columns row) : ∀ v ∈ tr.assignedColumns, row.Has v := by
  cases tr <;> simp_all [Transformation.Fits, Transformation.assignedColumns]

theorem Transforms.isSome {t : Target} {σ : Store} {columns : List Value} {row row' : Row}
    {trs : List Transformation} (h : Transforms R t σ columns trs row row') (n : String) :
    (row' n).isSome = (row n).isSome := by
  obtain ⟨_, _, _, h⟩ := h
  exact h.isSome n

/-- Executed on a table that the batch suits, the statements apply its transformations to each row
at once. -/
def Applies (R : Rules) (t : Target) (scope : Scope) (b : Batch) (trs : List Transformation)
    (path : Path) (sts : List Statement) : Prop :=
  ∀ σ σ' rows, σ path = some rows → b.Suits t σ scope.columns rows → ExecutesAll R σ sts σ' →
    ∃ rows', σ' = σ.set path rows' ∧
      List.Forall₂ (Transforms R t σ scope.columns trs) rows rows'

namespace Run

variable {c : Connection} {s s' : Session} {result result' : TransformResult}

theorem applies_of_replaceTable (he : R.engine = .clickhouse)
    (hn : (b.active.flatMap Transformation.assigned).Nodup)
    (ht : c.target.tableRef scope.table = .ok path)
    (h : outcome (replaceTable scope.columns ⟨scope.table, rebuiltPart scope b, scope.strict⟩) c s =
      (.ok (), s')) :
    ∃ pass, s'.statements = s.statements ++ pass ∧
      Applies R c.target scope b (rebuiltPart scope b) path pass := by
  obtain ⟨start, draft, r, old, hr, htable, -, -, sent⟩ := statements_of_replaceTable h
  cases ht.symm.trans htable
  refine ⟨_, sent, fun σ σ' rows hσ suits hx => ?_⟩
  -- that it was executed shows that both made up names were free
  obtain ⟨_, -, fresh, fresh', apart⟩ := Rebuild.fits_of_executesAll hx
  have distinct : ((rebuiltPart scope b).flatMap Transformation.assigned).Nodup :=
    (nodup_of_parts hn).1
  cases rows with
  | nil =>
    obtain ⟨rows', rfl, computed⟩ := (Rebuild.executesAll_replacement hσ fresh fresh' apart).1 hx
    obtain rfl := List.length_eq_zero_iff.1 (Rebuild.length_of_computes computed)
    exact ⟨[], rfl, .nil⟩
  | cons row rows =>
    obtain ⟨covers, fits⟩ := suits row List.mem_cons_self
    have assigned : ∀ tr ∈ rebuiltPart scope b, ∀ v ∈ tr.assignedColumns, v ∈ scope.columns := by
      intro tr htr v hv
      obtain ⟨n, rfl, there⟩ := (fits tr (mem_active_of_rebuilt htr)).has v hv
      exact (covers n).1 there
    have looked : ∀ l, .lookup l ∈ rebuiltPart scope b → l.IsThere c.target σ :=
      fun l hl => (fits _ (mem_active_of_rebuilt hl)).2.2
    exact Rebuild.transforms_of_replacement he hr distinct assigned looked hσ fresh fresh' apart
      (fun row hrow => (suits row hrow).1) hx

theorem applies_of_clickhouse (he : R.engine = .clickhouse)
    (hd : c.target.dialect = .of .clickhouse)
    (hb : b.checkAssignments scope.table = .ok ()) (independent : b.Independent scope.columns)
    (ht : c.target.tableRef scope.table = .ok path)
    (h : (c.target.batchActions scope b).result = .ok actions)
    (hrun : outcome (runActions scope.columns result actions) c s = (.ok result', s')) :
    ∃ sts, s'.statements = s.statements ++ sts ∧
      Applies R c.target scope b b.active path sts := by
  have distinct := Batch.assigned_nodup hb
  replace h := returns_of_result h
  unfold batchActions at h
  rw [hd] at h
  obtain ⟨known, assignments, hassignments, passes, hpasses, hactions⟩ :=
    clickhouseActions_returns h
  obtain ⟨update, rfl, finishes⟩ := exists_finishes he ht (updates_of_returns known hassignments)
    hactions
  obtain ⟨pass, sent, first⟩ : ∃ pass, s'.statements = s.statements ++ (pass ++ update) ∧
      Applies R c.target scope b (rebuiltPart scope b) path pass := by
    rcases hpasses with ⟨hnone, rfl⟩ | ⟨_, rfl⟩
    · rw [List.nil_append] at hrun
      refine ⟨[], statements_of_runActions hrun, fun σ σ' rows hσ _ hx => ⟨rows, ?_, ?_⟩⟩
      · rw [Folded.nil_iff.1 hx, Store.set_self hσ]
      · rw [hnone, Transforms.rows_nil]
    · obtain ⟨s₁, result₁, hreplace, hrest⟩ := ok_of_runActions_replace hrun
      obtain ⟨pass, sent, applies⟩ := applies_of_replaceTable he distinct ht hreplace
      exact ⟨pass, by rw [statements_of_runActions hrest, sent, List.append_assoc], applies⟩
  refine ⟨pass ++ update, sent, fun σ σ' rows hσ suits hx => ?_⟩
  obtain ⟨_, hpass, hupdate⟩ := Folded.append_iff.1 hx
  obtain ⟨mids, rfl, hmids⟩ := first _ _ _ hσ suits hpass
  obtain ⟨rows', rfl, hrows⟩ := (finishes σ mids σ').1 hupdate
  have inTurn : List.Forall₂ (InTurn R c.target σ scope b) rows rows' :=
    pairing_comp.2 ⟨mids, hmids, hrows⟩
  exact ⟨rows', rfl, inTurn.imp fun _ _ => (inTurn_iff distinct independent.unread).1⟩

/-- The statements of a batch whose transformations are independent apply them at once, whatever
the engine. -/
theorem applies_of_runActions (hR : R.engine = c.config.driver)
    (hb : b.checkAssignments scope.table = .ok ()) (independent : b.Independent scope.columns)
    (ht : c.target.tableRef scope.table = .ok path)
    (h : (c.target.batchActions scope b).result = .ok actions)
    (hrun : outcome (runActions scope.columns result actions) c s = (.ok result', s')) :
    ∃ sts, s'.statements = s.statements ++ sts ∧
      Applies R c.target scope b b.active path sts := by
  have hd : c.target.dialect = .of R.engine := congrArg Dialect.of hR.symm
  have updated (h : ∃ sts : List Statement, actions = sts.map .run ∧ ∀ σ rows,
      σ path = some rows → ∀ σ', ExecutesAll R σ sts σ' ↔ ∃ rows', σ' = σ.set path rows' ∧
        List.Forall₂ (Transforms R c.target σ scope.columns b.active) rows rows') :
      ∃ sts, s'.statements = s.statements ++ sts ∧
        Applies R c.target scope b b.active path sts := by
    obtain ⟨sts, rfl, executes⟩ := h
    exact ⟨sts, statements_of_runActions hrun, fun σ σ' rows hσ _ hx =>
      (executes σ rows hσ σ').1 hx⟩
  have compiled := returns_of_result h
  unfold batchActions at compiled
  cases he : R.engine with
  | clickhouse =>
    rw [he] at hd
    exact applies_of_clickhouse he hd hb independent ht h hrun
  | trino =>
    rw [hd, he] at compiled
    exact updated (trinoUpdates_executes he ht (Batch.assigned_nodup hb) compiled)
  | postgresql =>
    rw [hd, he] at compiled
    exact updated (sharedUpdate_executes hd (by rw [he]; rfl) ht compiled)
  | sqlite =>
    rw [hd, he] at compiled
    exact updated (sharedUpdate_executes hd (by rw [he]; rfl) ht compiled)

theorem tableName_of_runActions {columns : List Value}
    (h : outcome (runActions columns result actions) c s = (.ok result', s')) :
    result'.tableName = result.tableName := by
  induction actions generalizing s result with
  | nil =>
    cases h
    rfl
  | cons a rest ih =>
    cases a with
    | run st =>
      obtain ⟨_, _, _, h⟩ := ok_of_bind h
      exact ih h
    | replace p =>
      obtain ⟨_, _, _, h⟩ := ok_of_bind h
      have same := ih h
      exact same

theorem Transformed.transforms {sts : List Statement} (h : Transformed c sts) :
    ∀ st ∈ sts, st.transforms = true := by
  obtain ⟨parts, rfl, h⟩ := h
  intro st hst
  obtain ⟨p, hp, hst⟩ := List.mem_flatten.1 hst
  cases h p hp with
  | update u => exact (Transforming.update u).transforms st hst
  | @replacement r old _ _ => exact (Transforming.replacement r old).transforms st hst

/-- The first of several batches is compiled and run, and then the others are. -/
theorem parts_of_applyBatches {strict : Bool} {columns : List Value} {rest : List Batch}
    (h : outcome (applyBatches strict columns result (b :: rest)) c s = (.ok result', s')) :
    ∃ actions s₂ result₁ s₁,
      (c.target.batchActions ⟨result.tableName, columns, strict⟩ b).result = .ok actions ∧
      s₂.events = s.events ∧ s₂.database.results = s.database.results ∧
      outcome (runActions columns result actions) c s₂ = (.ok result₁, s₁) ∧
      result₁.tableName = result.tableName ∧
      outcome (applyBatches strict columns result₁ rest) c s₁ = (.ok result', s') := by
  obtain ⟨actions, logs, result₁, s₁, compiled, hrun, later⟩ := ok_of_firstBatch h
  exact ⟨actions, { s with logs }, result₁, s₁, compiled, rfl, rfl, hrun,
    tableName_of_runActions hrun, later⟩

/-- One batch of several, served. -/
theorem applied_of_applyBatches {strict : Bool} {columns : List Value} {rest : List Batch}
    {σ σ' : Store} (hR : R.engine = c.config.driver)
    (hb : b.checkAssignments result.tableName = .ok ()) (independent : b.Independent columns)
    (ht : c.target.tableRef result.tableName = .ok path)
    (h : outcome (applyBatches strict columns result (b :: rest)) c s = (.ok result', s'))
    (served : Served R convert c.target σ s σ' s') :
    ∃ result₁ s₁ σ₁, outcome (applyBatches strict columns result₁ rest) c s₁ = (.ok result', s') ∧
      result₁.tableName = result.tableName ∧ Served R convert c.target σ s σ₁ s₁ ∧
      Served R convert c.target σ₁ s₁ σ' s' ∧
      ∀ rows, σ path = some rows → b.Suits c.target σ columns rows →
        ∃ rows', σ₁ = σ.set path rows' ∧
          List.Forall₂ (Transforms R c.target σ columns b.active) rows rows' := by
  obtain ⟨actions, s₂, result₁, s₁, compiled, events, results, hrun, named, later⟩ :=
    parts_of_applyBatches h
  have first : Exchanges Event.Any s s₁ := (Exchanges.nothing events results).trans
    (exchanging_runActions Event.told_any _ _ _ c s₂ _ _ hrun)
  obtain ⟨σ₁, served₁, served₂⟩ :=
    served.split first (exchanging_applyBatches Event.told_any _ _ _ _ c s₁ _ _ later)
  obtain ⟨sts, sent, applies⟩ := applies_of_runActions hR hb independent ht compiled hrun
  obtain ⟨sts', sent', transformed⟩ :=
    transformed_of_runActions (cases_of_batchActions (returns_of_result compiled)) hrun
  obtain rfl := List.append_cancel_left (sent'.symm.trans sent)
  rw [Session.statements, Session.statements, events] at sent
  have executed := executesAll_of_performsAll transformed.transforms
    (performsAll_of_fulfilsAll (served₁.fulfilled sent))
  exact ⟨result₁, s₁, σ₁, later, named, served₁, served₂,
    fun rows hσ suits => applies σ σ₁ rows hσ suits executed⟩

theorem columns_of_columnNames {table : Value} {columns : List Value} {σ σ' : Store}
    (h : outcome (columnNames table) c s = (.ok columns, s'))
    (served : Served R convert c.target σ s σ' s') :
    σ' = σ ∧ ∀ path, c.target.tableRef table = .ok path → ∀ row ∈ σ.rowsOf path,
      row.IsOver columns := by
  obtain ⟨q, hq, h⟩ := ok_of_lift_bind (of_target_bind h)
  obtain ⟨r, s₁, hr, h⟩ := ok_of_bind h
  cases h
  obtain ⟨rfl, describes⟩ := served.of_query hr
  exact ⟨rfl, fun path ht => describes q table path hq rfl ht⟩

/-- Batches that all do something are checked, and then applied to the columns that are found. -/
theorem parts_of_applyTransformations {strict : Bool} {table : Value} {batches : List Batch}
    (some : batches ≠ []) (full : ∀ b ∈ batches, b.transformations.isEmpty = false)
    (h : outcome (applyTransformations strict table batches) c s = (.ok result, s')) :
    ∃ columns s₁, (∀ b ∈ batches, b.checkAssignments table = .ok ()) ∧
      outcome (columnNames table) c s = (.ok columns, s₁) ∧
      outcome (applyBatches strict columns { tableName := table } batches) c s₁ =
        (.ok result, s') := by
  have kept : batches.filter (!·.transformations.isEmpty) = batches :=
    List.filter_eq_self.2 fun b hb => by rw [full b hb]; rfl
  unfold applyTransformations at h
  rw [kept] at h
  have several : ¬batches.isEmpty = true := fun none => some (List.isEmpty_iff.1 none)
  simp only [several] at h
  obtain ⟨_, s₁, hchecked, h⟩ := ok_of_bind h
  obtain ⟨_, hr, all⟩ := outcome_checkAll table batches c s
  cases hr.symm.trans hchecked
  obtain ⟨columns, s₂, hcolumns, h⟩ := ok_of_bind h
  exact ⟨columns, s₂, all.1 rfl, hcolumns, h⟩

theorem served_of_applyTransformations {strict : Bool} {table : Value} {batches : List Batch}
    {σ σ' : Store} (some : batches ≠ [])
    (full : ∀ b ∈ batches, b.transformations.isEmpty = false)
    (h : outcome (applyTransformations strict table batches) c s = (.ok result, s'))
    (served : Served R convert c.target σ s σ' s') :
    ∃ columns s₁, (∀ b ∈ batches, b.checkAssignments table = .ok ()) ∧
      (∀ path, c.target.tableRef table = .ok path → ∀ row ∈ σ.rowsOf path, row.IsOver columns) ∧
      Served R convert c.target σ s σ s₁ ∧ Served R convert c.target σ s₁ σ' s' ∧
      outcome (applyBatches strict columns { tableName := table } batches) c s₁ =
        (.ok result, s') := by
  obtain ⟨columns, s₁, checked, hcolumns, h⟩ := parts_of_applyTransformations some full h
  obtain ⟨σ₁, served₁, served₂⟩ := served.split (P := Event.Any) (Q := Event.Any)
    (exchanging_columnNames table (fun _ => trivial) c s _ _ hcolumns)
    (exchanging_applyBatches Event.told_any _ _ _ _ c s₁ _ _ h)
  obtain ⟨rfl, described⟩ := columns_of_columnNames hcolumns served₁
  exact ⟨columns, s₁, checked, described, served₁, served₂, h⟩

section Steps

variable {settings : GenerationSettings} {p p' : Progress} {σ σ' : Store}

/-- A table that is generated for the first time is dropped, if the settings say so, and filled. -/
theorem parts_of_generate {g : GenerateStep} (drops : settings.dropFirst = true)
    (new : g.table.name.memberOf p.generated = false)
    (h : outcome (runStep settings p (.generate g)) c s = (.ok p', s')) :
    p'.generated = g.table.name :: p.generated ∧ ∃ r s₁,
      outcome (generateRows settings g.table g.rowCount true false) c s = (.ok r, s₁) ∧
      if g.batches.isEmpty then s' = s₁ else ∃ result,
        outcome (applyTransformations settings.strictTemplates g.table.name g.batches) c s₁ =
          (.ok result, s') := by
  obtain ⟨_, run, rfl⟩ := stepRun_of_runStep h
  have dropping : (settings.dropFirst && !g.table.name.memberOf p.generated) = true := by
    rw [drops, new]
    rfl
  refine ⟨rfl, ?_⟩
  cases run with
  | generate hrows none =>
    rw [dropping] at hrows
    exact ⟨_, _, hrows, by rw [none, if_pos rfl]⟩
  | generateAndTransform hrows some hrun =>
    rw [dropping] at hrows
    refine ⟨_, _, hrows, ?_⟩
    rw [some, if_neg Bool.false_ne_true]
    exact ⟨_, hrun⟩

theorem parts_of_transform {g : TransformStep}
    (h : outcome (runStep settings p (.transform g)) c s = (.ok p', s')) :
    ∃ t, outcome (applyTransformations settings.strictTemplates g.tableName g.batches) c s =
      (.ok t, s') := by
  obtain ⟨_, run, -⟩ := stepRun_of_runStep h
  cases run with
  | transform hrun => exact ⟨_, hrun⟩

theorem served_of_generate {g : GenerateStep} (hR : R.engine = c.config.driver)
    (drops : settings.dropFirst = true)
    (new : g.table.name.memberOf p.generated = false)
    (h : outcome (runStep settings p (.generate g)) c s = (.ok p', s'))
    (served : Served R convert c.target σ s σ' s') :
    p'.generated = g.table.name :: p.generated ∧ ∃ path s₁ σ₁,
      c.target.tableRef g.table.name = .ok path ∧
      Refilled c.config.driver convert settings g.table g.rowCount path σ σ₁ ∧
      Served R convert c.target σ s σ₁ s₁ ∧ Served R convert c.target σ₁ s₁ σ' s' ∧
      if g.batches.isEmpty then s' = s₁ else ∃ result,
        outcome (applyTransformations settings.strictTemplates g.table.name g.batches) c s₁ =
          (.ok result, s') := by
  obtain ⟨generated, r, s₁, hrows, later⟩ := parts_of_generate drops new h
  have first : Exchanges Event.Any s s₁ :=
    exchanging_generateRows Event.told_any (fun _ _ => trivial) _ _ _ _ c s r s₁ hrows
  have second : Exchanges Event.Any s₁ s' := by
    split at later
    · rw [later]
      exact .refl s₁
    · obtain ⟨result, hrun⟩ := later
      exact exchanging_applyTransformations _ _ _ c s₁ _ _ hrun
  obtain ⟨σ₁, served₁, served₂⟩ := served.split first second
  obtain ⟨path, ht, refilled⟩ := refilled_of_generateRows hR hrows served₁
  exact ⟨generated, path, s₁, σ₁, ht, refilled, served₁, served₂, later⟩

/-- The maintenance at the end of a scenario leaves the store as its steps left it. -/
theorem served_of_runScenario {scenario : Scenario} {result : ScenarioResult}
    (h : outcome (runScenario settings scenario) c s = (.ok result, s'))
    (served : Served R convert c.target σ s σ' s') :
    ∃ p s₁, outcome (scenario.steps.foldlM (runStep settings)
        { result := { name := scenario.name } }) c s = (.ok p, s₁) ∧
      Served R convert c.target σ s σ' s₁ ∧ Served R convert c.target σ' s₁ σ' s' := by
  obtain ⟨p, s₁, hsteps, -, hafter⟩ := parts_of_runScenario h
  have stepping : Exchanges Event.Any s s₁ := exchanging_runSteps _ _ _ c s p s₁ hsteps
  obtain ⟨σ₁, served₁, served₂⟩ := served.split stepping
    (exchanging_optimizes Event.told_any _ c s₁ _ _ hafter)
  obtain ⟨after, sent, maintains⟩ := maintenance_of_optimizes hafter
  obtain rfl := (performsAll_maintenance maintains).1
    (performsAll_of_fulfilsAll (served₂.fulfilled sent))
  exact ⟨p, s₁, hsteps, served₁, served₂⟩

end Steps
end Run
end Batches
end SyntheticRows