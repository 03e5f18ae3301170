import SyntheticRows.Proofs.Lookup.Hoisted
import SyntheticRows.Proofs.Lookup.Reference
import SyntheticRows.Proofs.Meaning.Insert

/-!
# Lookup columns

A column that picks from a list refers to the name of its own list and to no other, and the insert
defines this name once, from the first list with the same JSON text. This is right for the column if
its own list would be written the same.
-/
namespace SyntheticRows
open Sql

/-- The column at a place refers to one name, which the insert defines once, from the list. -/
structure Sql.Insert.ReadsFrom (i : Insert) (e : Engine) (place : ℕ) (list : List Value)
    (d : Definition) : Prop where
  refers : ∃ x, i.values[place]? = some x ∧ x.heads = [d.name]
  once : i.definitions.filter (·.name == d.name) = [d]
  defined : (Dialect.of e).lookupDefinition d.name list = .ok d

/-- A column reads one definition. -/
theorem Sql.Insert.ReadsFrom.unique {i : Insert} {e : Engine} {place : ℕ} {list list' : List Value}
    {d d' : Definition} (h : i.ReadsFrom e place list d) (h' : i.ReadsFrom e place list' d') :
    d = d' := by
  obtain ⟨x, hx, heads⟩ := h.refers
  obtain ⟨x', hx', heads'⟩ := h'.refers
  obtain rfl : x = x' := Option.some.inj (hx.symm.trans hx')
  have named : d.name = d'.name := by simpa using heads.symm.trans heads'
  have once := h.once
  rw [named, h'.once] at once
  exact (List.singleton_inj.1 once).symm

/-- The definition is what the list would be defined as under its name. -/
def Sql.Definition.Serves (d : Definition) (e : Engine) (list : List Value) : Prop :=
  ∃ own, (Dialect.of e).lookupDefinition d.name list = .ok own ∧ own.render e = d.render e

namespace RowSource

variable {e : Engine} {n origin : ℤ} {source : RowSource}

/-- A row source defines a counter at most. -/
theorem definitions_of_make (h : make (.of e) n origin = .ok source) :
    ∀ d ∈ source.definitions, d.name = "seq" := by
  obtain ⟨_, engine, h⟩ := except_ok_of_bind h
  cases engine
  obtain ⟨_, _, h⟩ := except_ok_of_bind h
  cases e with
  | postgresql | clickhouse | sqlite =>
    obtain rfl := Except.ok.inj h
    simp [Definition.name]
  | trino =>
    have none : source.definitions = [] := by
      simp only [trino] at h
      split at h
      · obtain rfl := Except.ok.inj h
        rfl
      · obtain ⟨sources, _, h⟩ := except_ok_of_bind h
        obtain rfl := Except.ok.inj h
        rfl
    simp [none]

end RowSource

namespace Target

variable {t : Target} {e : Engine} {now : ℤ} {table : Table} {n origin : ℤ} {i : Insert} {place : ℕ}
  {c : Column} {vs : List Value}

theorem readsFrom_of_insertRows (he : t.dialect = .of e)
    (h : t.insertRows now table n origin = .ok (.insert i))
    (faithful : Set.InjOn digestName {p | p ∈ table.lookupPayloads})
    (hc : table.columns[place]? = some c) (hg : c.generator = .choiceByLookup vs) (hvs : vs ≠ [])
    (hp : c.effectiveNullProbability.lt (.int 1) = true) :
    ∃ payload first d, lookupPayload vs = .ok payload ∧ table.firstList? payload = some first ∧
      d.name = digestName payload ∧ i.ReadsFrom e place first d := by
  obtain ⟨_, source, kept, _, ⟨⟩, made, gathered, defined, _, computed, _, definitions, _⟩ :=
    parts_of_insertRows h
  rw [he] at made defined computed
  have placed : table.columns.zipIdx[place]? = some (c, place) := by
    simp [List.getElem?_zipIdx, hc]
  obtain ⟨x, hx, compiled⟩ := partner_at computed placed
  obtain ⟨payload, written, heads⟩ := Column.heads_of_lookup hg hvs hp compiled
  have member := Table.mem_lookupLists (List.mem_of_getElem? hc) hg hvs hp
  obtain ⟨first, found⟩ := Table.exists_firstList member written
  obtain ⟨distinct, there⟩ := Table.find?_lookups gathered faithful
    (Table.mem_lookupPayloads member written)
  rw [found] at there
  obtain ⟨d, own, only⟩ := filter_definitions defined distinct there
  have named : d.name = digestName payload := Dialect.name_of_lookupDefinition own
  -- The row source puts its own definitions in front of those of the lists.
  have counter : source.definitions.filter (·.name == digestName payload) = [] := by
    rw [List.filter_eq_nil_iff]
    intro d' inside
    simpa [RowSource.definitions_of_make made d' inside] using
      (digestName_ne_counter payload).symm
  refine ⟨payload, first, d, written, found, named, ⟨x, hx, by rw [named, heads]⟩, ?_, ?_⟩
  · rw [named, definitions, List.filter_append, counter, only, List.nil_append]
  · rw [named, own]

/-- A column that picks from a list refers to one name of the insert, which is defined once, from
the first list of the table with the same JSON text. The definition is right for the column exactly
if its own list would be written alike. -/
theorem serves_iff_of_lookupColumn (he : t.dialect = .of e)
    (h : t.insertRows now table n origin = .ok (.insert i))
    (faithful : Set.InjOn digestName {p | p ∈ table.lookupPayloads})
    (hc : table.columns[place]? = some c) (hg : c.generator = .choiceByLookup vs) (hvs : vs ≠ [])
    (hp : c.effectiveNullProbability.lt (.int 1) = true) :
    ∃ payload first d, lookupPayload vs = .ok payload ∧ table.firstList? payload = some first ∧
      i.ReadsFrom e place first d ∧ (d.Serves e vs ↔ e.WritesAlike vs first) := by
  obtain ⟨payload, first, d, written, found, _, reads⟩ :=
    readsFrom_of_insertRows he h faithful hc hg hvs hp
  exact ⟨payload, first, d, written, found, reads, Dialect.lookupDefinition_alike_iff written
    (Table.payload_of_firstList found) reads.defined⟩

theorem lt_one_of_not_nullable (h : c.nullable = false) :
    c.effectiveNullProbability.lt (.int 1) = true := by
  rw [Column.effectiveNullProbability, if_neg (by simp [h])]
  decide +kernel

section Shades

def shades : List Value := [.text "amber", .text "teal"]

/-- Two columns share a list, a third one has a list of numbers. -/
def shadeTable : Table :=
  { name := .text "paints"
    columns := [
      { name := .text "base", type := .string, generator := .choiceByLookup shades },
      { name := .text "trim", type := .string, generator := .choiceByLookup shades },
      { name := .text "coats", type := .integer, generator := .choiceByLookup [.int 1, .int 2] }] }

theorem shadeTable_compiles :
    (insertRows { dialect := .of .postgresql } 0 shadeTable (3 : ℕ) 0).toOption.isSome = true ∧
      ∀ p ∈ shadeTable.lookupPayloads, ∀ q ∈ shadeTable.lookupPayloads,
        digestName p = digestName q → p = q := by
  decide +kernel

/-- The second of the columns reads the definition of the first one, and rightly so. -/
theorem serves_of_sharedShades : ∃ i : Insert,
    insertRows { dialect := .of .postgresql } 0 shadeTable (3 : ℕ) 0 = .ok (.insert i) ∧
      Set.InjOn digestName {p | p ∈ shadeTable.lookupPayloads} ∧
      ∃ d, i.ReadsFrom .postgresql 1 shades d ∧ d.Serves .postgresql shades := by
  obtain ⟨compiles, each⟩ := shadeTable_compiles
  have faithful : Set.InjOn digestName {p | p ∈ shadeTable.lookupPayloads} :=
    fun p hp q hq => each p hp q hq
  obtain ⟨st, h⟩ := except_ok_of_isSome compiles
  obtain ⟨i, _, rfl, _⟩ := inserts_of_insertRows h
  have trim : shadeTable.columns[1]? = some shadeTable.columns[1] := rfl
  obtain ⟨payload, first, d, written, found, reads, right⟩ :=
    serves_iff_of_lookupColumn (e := .postgresql) rfl h faithful trim rfl
      (show shades ≠ [] by simp [shades]) (lt_one_of_not_nullable rfl)
  have lists : shadeTable.lookupLists = [shades, shades, [.int 1, .int 2]] := by
    simp [Table.lookupLists, Column.lookupValues?, lt_one_of_not_nullable, shadeTable, shades]
  have own : shadeTable.firstList? payload = some shades := by
    simp [Table.firstList?, lists, written, Except.toOption]
  obtain rfl : shades = first := Option.some.inj (own.symm.trans found)
  refine ⟨i, h, faithful, d, reads, right.2 ?_⟩
  exact .cons ⟨rfl, rfl⟩ (.cons ⟨rfl, rfl⟩ .nil)

end Shades

section Visits

def visit : DateTime := ⟨⟨2024, 1, 2, by decide⟩, ⟨3, 4, 5, 0, by decide⟩, none⟩

/-- A list of one point in time, and a list of one text that spells it. -/
def visitTable : Table :=
  { name := .text "visits"
    columns := [
      { name := .text "entered", type := .datetime
        generator := .choiceByLookup [.datetime visit] },
      { name := .text "remark", type := .string
        generator := .choiceByLookup [.text "2024-01-02 03:04:05"] }] }

theorem visitTable_compiles :
    (insertRows { dialect := .of .postgresql } 0 visitTable (1 : ℕ) 0).toOption.isSome = true := by
  decide +kernel

theorem visitTable_lists : visitTable.lookupLists =
    [[.datetime visit], [.text "2024-01-02 03:04:05"]] := by
  simp [Table.lookupLists, Column.lookupValues?, lt_one_of_not_nullable, visitTable]

theorem lookupPayload_visit : (lookupPayload [.datetime visit]).toOption =
    (lookupPayload [.text "2024-01-02 03:04:05"]).toOption := by
  decide +kernel

/-- There is only one JSON text, so no two of them can have the same name. -/
theorem visitTable_faithful : Set.InjOn digestName {p | p ∈ visitTable.lookupPayloads} := by
  have alone : ∀ p ∈ visitTable.lookupPayloads,
      (lookupPayload [.text "2024-01-02 03:04:05"]).toOption = some p := by
    intro p hp
    obtain ⟨vs, member, written⟩ := List.mem_filterMap.1 hp
    rw [visitTable_lists, List.mem_pair] at member
    rcases member with rfl | rfl
    · rw [← lookupPayload_visit, written]
    · exact written
  intro p hp q hq _
  exact Option.some.inj ((alone p hp).symm.trans (alone q hq))

/-- The column of texts reads an array of points in time. -/
theorem misread_of_spelledMoment : ¬∀ (t : Target) (e : Engine) (now : ℤ) (table : Table)
    (n origin : ℤ) (i : Insert) (place : ℕ) (c : Column) (vs : List Value), t.dialect = .of e →
    t.insertRows now table n origin = .ok (.insert i) →
    Set.InjOn digestName {p | p ∈ table.lookupPayloads} →
    table.columns[place]? = some c → c.generator = .choiceByLookup vs → vs ≠ [] →
    c.effectiveNullProbability.lt (.int 1) = true →
    ∃ list d, i.ReadsFrom e place list d ∧ d.Serves e vs := by
  intro claim
  obtain ⟨st, h⟩ := except_ok_of_isSome visitTable_compiles
  obtain ⟨i, _, rfl, _⟩ := inserts_of_insertRows h
  have remark : visitTable.columns[1]? = some visitTable.columns[1] := rfl
  have sure : visitTable.columns[1].effectiveNullProbability.lt (.int 1) = true :=
    lt_one_of_not_nullable rfl
  obtain ⟨list, d, reads, serves⟩ := claim _ .postgresql _ _ _ _ i 1 _ _ rfl h visitTable_faithful
    remark rfl (by simp) sure
  obtain ⟨payload, first, d', written, found, _, reads'⟩ :=
    readsFrom_of_insertRows (e := .postgresql) rfl h visitTable_faithful remark rfl (by simp) sure
  obtain rfl := reads.unique reads'
  have alike := (Dialect.lookupDefinition_alike_iff written (Table.payload_of_firstList found)
    reads'.defined).1 serves
  have spelled : (lookupPayload [.datetime visit]).toOption = some payload := by
    rw [lookupPayload_visit, written]
    rfl
  have own : visitTable.firstList? payload = some [.datetime visit] := by
    simp [Table.firstList?, visitTable_lists, spelled]
  obtain rfl : [Value.datetime visit] = first := Option.some.inj (own.symm.trans found)
  cases alike with
  | cons moments _ => exact absurd moments.2 (by decide)

end Visits

end Target
end SyntheticRows
