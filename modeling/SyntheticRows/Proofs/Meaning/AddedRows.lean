import SyntheticRows.Proofs.Meaning.Effect

/-!
# Rows that chunks add

The inserts of a generation add rows with ordinals that go up, and each sequence column of a row
holds what belongs to the ordinal of the row. Where the engine counts all chunks to their end, no
ordinal is left out.
-/
namespace SyntheticRows
open Sql

/-- Each sequence column of the row holds what it can hold at the ordinal. -/
def Table.Numbers (e : Engine) (convert : Conversion) (table : Table) (i : ℤ) (row : Row) : Prop :=
  ∀ c ∈ table.columns, ∀ s, c.generator = .sequence s →
    ∃ name v, c.name = .text name ∧ row name = some v ∧ c.Holds e convert s i v

/-- Rows were added at the end of a table. -/
def Store.Extends (σ : Store) (path : Path) (added : List Row) (σ' : Store) : Prop :=
  added = [] ∧ σ' = σ ∨ ∃ rows, σ path = some rows ∧ σ' = σ.set path (rows ++ added)

namespace Store.Extends

variable {σ σ₁ σ' : Store} {path other : Path} {added more rows : List Row}

theorem trans (h : σ.Extends path added σ₁) (h' : σ₁.Extends path more σ') :
    σ.Extends path (added ++ more) σ' := by
  rcases h with ⟨rfl, rfl⟩ | ⟨rows, hrows, rfl⟩
  · exact h'
  · rcases h' with ⟨rfl, rfl⟩ | ⟨rows', hrows', rfl⟩
    · exact .inr ⟨rows, hrows, by rw [List.append_nil]⟩
    · rw [set_same, Option.some.injEq] at hrows'
      subst hrows'
      exact .inr ⟨rows, hrows, by rw [set_set, List.append_assoc]⟩

theorem rowsOf (h : σ.Extends path added σ') : σ'.rowsOf path = σ.rowsOf path ++ added := by
  rcases h with ⟨rfl, rfl⟩ | ⟨rows, hrows, rfl⟩
  · rw [List.append_nil]
  · rw [rowsOf_set, rowsOf_eq hrows]

theorem eq_set (h : σ.Extends path added σ') (hrows : σ path = some rows) :
    σ' = σ.set path (rows ++ added) := by
  rcases h with ⟨rfl, rfl⟩ | ⟨rows', hrows', rfl⟩
  · rw [List.append_nil, set_self hrows]
  · cases hrows.symm.trans hrows'
    rfl

end Store.Extends

namespace Target

variable {t : Target} {now : ℤ} {table : Table} {e : Engine} {R : Rules} {convert : Conversion}
  {source : RowSource} {i : Insert}

/-- A row that an insert fills for an ordinal. -/
theorem Inserts.numbers (h : t.Inserts now table source i) (he : t.dialect = .of e)
    (names : List.Forall₂ (fun c ident => t.ident c.name = .ok ident) table.columns i.columns)
    {w : Scene} (hw : w.rules.engine = e) {cells : Cells}
    (bounded : ∀ tag, w.rand cells tag < 2 ^ 32) {k : ℤ}
    (means : Denotes w.rules (w.env cells) source.row (some (.number k))) {row : Row}
    (filled : i.Fills w.rules convert (w.env cells) row) : table.Numbers e convert k row := by
  intro c hc s hg
  obtain ⟨place, hplace⟩ := List.mem_iff_getElem?.1 hc
  obtain ⟨ident, hident, named⟩ := partner_at names hplace
  obtain ⟨x, hx, compiled⟩ := h.compiled he hplace hg
  obtain ⟨y, hy, v, hv, stored⟩ := partner_at filled hident
  cases hx.symm.trans hy
  have stores (u : Datum) : Stores w.rules convert (w.env cells) x u ↔
      ∃ q, e.Drawn (w.env cells) ((place + 1) * 1000 + 1) q ∧ u = c.content e convert s k q :=
    compiled.stores_iff hw (bounded _) means
  obtain ⟨q₀, drawn₀⟩ := e.exists_drawn (w.env cells) ((place + 1) * 1000 + 1)
  obtain ⟨q, drawn, rfl⟩ := (stores v).1 (stored ⟨_, (stores _).2 ⟨q₀, drawn₀, rfl⟩⟩)
  exact ⟨ident.name, _, ident_text named, hv, q, drawn.isDraw (bounded _), rfl⟩

/-- The rows of an insert have the ordinals that its source counts. -/
theorem Inserts.numbers_of_adds (h : t.Inserts now table source i) (he : t.dialect = .of e)
    (names : List.Forall₂ (fun c ident => t.ident c.name = .ok ident) table.columns i.columns)
    (hR : R.engine = e) {n : ℕ} {origin : ℤ} (counts : source.Counts n origin) {σ : Store}
    {added : List Row} (adds : i.Adds R convert σ added) :
    List.Forall₂ (table.Numbers e convert) (ordinals origin n) added := by
  obtain ⟨w, rfl, rfl, bounded, filled⟩ := adds
  obtain ⟨definitions, lists, hd, hs⟩ := h.reads
  have read := counts.rows w definitions lists
  rw [← hd, ← hs, ← h.condition] at read
  refine (pairing_comp.2 ⟨i.rows w, read.flip, filled⟩).imp fun k row hrow => ?_
  obtain ⟨cells, means, fills⟩ := hrow
  exact h.numbers he names hR (bounded cells) means fills

variable {n : ℕ} {origin : ℤ}

/-- The rows that one chunk adds; all of its ordinals, if the engine counts them to the end. -/
theorem numbers_of_insertRows (he : t.dialect = .of e) (hR : R.engine = e) (hn : 0 < n)
    (h : t.insertRows now table n origin = .ok (.insert i)) {σ : Store} {added : List Row}
    (adds : i.Adds R convert σ added) :
    ∃ m ≤ n, List.Forall₂ (table.Numbers e convert) (ordinals origin m) added ∧
      (RowSource.IsCountable e n → m = n) := by
  obtain ⟨_, source, same, made, inserted⟩ := inserts_of_insertRows h
  cases same
  rw [he] at made
  obtain ⟨m, most, counts, all⟩ := RowSource.exists_counts hn made
  exact ⟨m, most, inserted.numbers_of_adds he (names_of_insertRows h).2 hR counts adds, all⟩

end Target

section Ordinals

variable {origin i : ℤ} {n : ℕ}

theorem mem_ordinals : i ∈ ordinals origin n ↔ origin < i ∧ i ≤ origin + n := by
  simp only [ordinals, List.mem_map, List.mem_range]
  constructor
  · rintro ⟨k, hk, rfl⟩
    omega
  · rintro ⟨above, below⟩
    exact ⟨(i - origin - 1).toNat, by omega, by omega⟩

theorem length_ordinals : (ordinals origin n).length = n := by simp [ordinals]

theorem pairwise_ordinals : (ordinals origin n).Pairwise (· < ·) := by
  rw [ordinals, List.pairwise_map]
  exact List.pairwise_lt_range.imp fun h => by omega

end Ordinals

/-- Rows with ordinals between an origin and the end of the last chunk after it. -/
structure Table.Continues (e : Engine) (convert : Conversion) (table : Table) (origin : ℤ)
    (rows : ℕ) (is : List ℤ) (added : List Row) : Prop where
  numbers : List.Forall₂ (table.Numbers e convert) is added
  increasing : is.Pairwise (· < ·)
  above : ∀ i ∈ is, origin < i
  within : ∀ i ∈ is, i ≤ origin + rows

namespace Table.Continues

variable {e : Engine} {convert : Conversion} {table : Table} {origin : ℤ} {m n : ℕ}
  {is js : List ℤ} {added more : List Row}

theorem nil : table.Continues e convert origin 0 [] [] := ⟨.nil, .nil, nofun, nofun⟩

theorem append (h : table.Continues e convert origin m is added)
    (h' : table.Continues e convert (origin + m) n js more) :
    table.Continues e convert origin (m + n) (is ++ js) (added ++ more) where
  numbers := List.rel_append h.numbers h'.numbers
  increasing := by
    refine List.pairwise_append.2 ⟨h.increasing, h'.increasing, fun i hi j hj => ?_⟩
    exact (h.within i hi).trans_lt (h'.above j hj)
  above := by
    intro i hi
    rcases List.mem_append.1 hi with hi | hi
    · exact h.above i hi
    · have := h'.above i hi
      omega
  within := by
    intro i hi
    rcases List.mem_append.1 hi with hi | hi
    · have := h.within i hi
      omega
    · have := h'.within i hi
      push_cast
      omega

theorem of_ordinals (least : m ≤ n)
    (h : List.Forall₂ (table.Numbers e convert) (ordinals origin m) added) :
    table.Continues e convert origin n (ordinals origin m) added where
  numbers := h
  increasing := pairwise_ordinals
  above := fun i hi => (mem_ordinals.1 hi).1
  within := fun i hi => (mem_ordinals.1 hi).2.trans (by omega)

end Table.Continues

section Chunks

variable {t : Target} {now : ℤ} {table : Table} {e : Engine} {R : Rules} {convert : Conversion}
  {origin : ℤ} {sizes : List ℕ} {inserts : List Insert} {path : Path} {σ σ' : Store}

/-- The rows that the chunks of a generation add. -/
theorem continues_of_inserts (he : t.dialect = .of e) (hR : R.engine = e)
    (hpath : t.tableRef table.name = .ok path) (some : ∀ n ∈ sizes, 0 < n)
    (h : List.Forall₂ (fun b i => t.insertRows now table (b.2 : ℕ) b.1 = .ok (.insert i))
      (blocks origin sizes) inserts)
    (hx : PerformsAll R convert σ (inserts.map .insert) σ') :
    ∃ is added, σ.Extends path added σ' ∧
      table.Continues e convert origin sizes.sum is added ∧
      ((∀ n ∈ sizes, RowSource.IsCountable e n) → is = ordinals origin sizes.sum) := by
  induction sizes generalizing origin inserts σ with
  | nil =>
    cases h
    cases hx
    exact ⟨[], [], .inl ⟨rfl, rfl⟩, .nil, fun _ => rfl⟩
  | cons n rest ih =>
    cases h with
    | @cons _ i _ _ first others =>
      obtain ⟨σ₁, hfirst, hrest⟩ := Folded.cons_iff.1 hx
      obtain ⟨rows, added, hrows, hadds, rfl⟩ := performs_insert.1 hfirst
      obtain ⟨hi, _⟩ := Target.names_of_insertRows first
      cases hpath.symm.trans hi
      obtain ⟨m, most, numbers, all⟩ :=
        Target.numbers_of_insertRows he hR (some n List.mem_cons_self) first hadds
      obtain ⟨js, more, extended, continued, last⟩ :=
        ih (fun n hn => some n (List.mem_cons_of_mem _ hn)) others hrest
      refine ⟨ordinals origin m ++ js, added ++ more, ?_, ?_, fun countable => ?_⟩
      · exact Store.Extends.trans (.inr ⟨rows, hrows, rfl⟩) extended
      · rw [List.sum_cons]
        exact (Table.Continues.of_ordinals most numbers).append continued
      · rw [all (countable n List.mem_cons_self),
          last fun n hn => countable n (List.mem_cons_of_mem _ hn), List.sum_cons, ordinals_add]

end Chunks

section Existence

/-- Different names of columns make different identifiers. -/
theorem nodup_names {t : Target} {columns : List Column} {idents : List Ident}
    (distinct : distinctNames (columns.map Column.name) = true)
    (h : List.Forall₂ (fun c ident => t.ident c.name = .ok ident) columns idents) :
    (idents.map Ident.name).Nodup := by
  induction h with
  | nil => exact List.nodup_nil
  | @cons c ident columns idents hc rest ih =>
    simp only [List.map_cons, distinctNames, Bool.and_eq_true, List.all_eq_true,
      List.forall_mem_map] at distinct
    rw [List.map_cons, List.nodup_cons]
    refine ⟨fun twice => ?_, ih distinct.2⟩
    obtain ⟨other, hother, same⟩ := List.mem_map.1 twice
    obtain ⟨c', hc', named⟩ := partner_left rest hother
    have apart := distinct.1 c' hc'
    rw [Target.ident_text named, Target.ident_text hc, same] at apart
    simp [Value.same] at apart

/-- An insert names no column twice, and it has a value for each of them. -/
theorem Target.lists_of_insertRows {t : Target} {now : ℤ} {table : Table} {n : ℕ} {origin : ℤ}
    {i : Insert} (h : t.insertRows now table n origin = .ok (.insert i)) :
    (i.columns.map Ident.name).Nodup ∧ i.columns.length = i.values.length := by
  obtain ⟨_, _, _, _, ⟨⟩, _, _, _, columns, values, _⟩ := Target.parts_of_insertRows h
  refine ⟨nodup_names table.distinct columns, ?_⟩
  rw [← columns.length_eq, ← values.length_eq, List.length_zipIdx]

/-- The inserts of chunks can be performed if the table is there. -/
theorem exists_inserted {t : Target} {now : ℤ} {table : Table} {path : Path}
    (hpath : t.tableRef table.name = .ok path) (R : Rules) (convert : Conversion)
    {chunks : List (ℤ × ℕ)} {inserts : List Insert}
    (h : List.Forall₂ (fun b i => t.insertRows now table (b.2 : ℕ) b.1 = .ok (.insert i))
      chunks inserts) {σ : Store} {rows : List Row} (hrows : σ path = some rows) :
    ∃ added, PerformsAll R convert σ (inserts.map .insert) (σ.set path (rows ++ added)) := by
  induction h generalizing σ rows with
  | nil => exact ⟨[], by rw [List.append_nil, Store.set_self hrows]; exact .nil σ⟩
  | @cons b i _ _ first _ ih =>
    cases hpath.symm.trans (Target.names_of_insertRows first).1
    obtain ⟨distinct, length⟩ := Target.lists_of_insertRows first
    obtain ⟨added, hadds⟩ := i.exists_adds R convert σ distinct length
    have filled : σ.set i.table (rows ++ added) i.table = some (rows ++ added) := Store.set_same
    obtain ⟨more, hmore⟩ := ih filled
    rw [Store.set_set, List.append_assoc] at hmore
    exact ⟨added ++ more, .cons (.insert hrows hadds) hmore⟩

end Existence
end SyntheticRows
