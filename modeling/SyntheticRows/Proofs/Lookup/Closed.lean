import SyntheticRows.Proofs.Lookup.Column
import SyntheticRows.Proofs.Run.ResumedSeries

/-!
# Closed inserts

The values of an insert refer to nothing but what the insert brings into reach, and the lists that
it defines are exactly those that its columns refer to, each of them once. Joining them leaves the
number of rows as it is.
-/
namespace SyntheticRows
open Sql

namespace Sql

/-- The name under which the contents of a source are referred to. -/
def Source.name : Source → String
  | series _ => "g"
  | numbers _ => "number"
  | counter => "seq"
  | level number _ _ => "_g" ++ toString number
  | lookup name => name

/-- A name that stands for an array in all of the statement. -/
def Definition.arrayName? : Definition → Option String
  | arrayName name _ => some name
  | counter _ | arrayRow _ _ | jsonRow _ _ => none

/-- How many rows a definition has, if it is a relation. -/
def Definition.height? : Definition → Option ℕ
  | counter limit => some (countFrom limit 1).length
  | arrayRow _ _ | jsonRow _ _ => some 1
  | arrayName _ _ => none

/-- What the values of an insert can refer to: the sources, and the arrays that have a name. A
definition that is a relation has to be a source before it can be referred to. -/
def Insert.scope (i : Insert) : List String :=
  i.sources.map Source.name ++ i.definitions.filterMap Definition.arrayName?

/-- A name of the form that lists have. -/
def IsListName (name : String) : Prop := "_lookup_".toList <+: name.toList

instance (name : String) : Decidable (IsListName name) :=
  inferInstanceAs (Decidable ("_lookup_".toList <+: name.toList))

theorem isListName_digestName (payload : String) : IsListName (digestName payload) := by
  rw [IsListName, digestName, String.toList_append]
  exact List.prefix_append _ _

theorem isListName_of_lookupName {vs : List Value} {name : String}
    (h : lookupName vs = .ok name) : IsListName name := by
  obtain ⟨payload, _, rfl⟩ := except_ok_of_map h
  exact isListName_digestName payload

theorem not_isListName_level (level : ℕ) : ¬IsListName ("_g" ++ toString level) := by
  rw [IsListName, String.toList_append]
  simp [List.cons_prefix_cons]

/-- The ordinal of a source refers to the source itself, and nothing of it looks like a list. -/
structure RowSource.Named (source : RowSource) : Prop where
  row : source.row.heads ⊆ source.sources.map Source.name
  distinct : (source.sources.map Source.name).Nodup
  unlisted : ∀ s ∈ source.sources, ¬IsListName s.name ∧ ∀ name, s ≠ .lookup name
  own : source.definitions = [] ∨ ∃ limit, source.definitions = [.counter limit]

end Sql

namespace Dialect

variable {e : Engine} {name : String} {vs : List Value} {d : Definition}
  {kept : List (String × List Value)} {lists : List Definition}

/-- A list is defined by an array of its own name on ClickHouse, and elsewhere by one row. -/
theorem parts_of_lookupDefinition (h : (of e).lookupDefinition name vs = .ok d) :
    d.arrayName? = (if e = .clickhouse then some name else none) ∧
      d.height? = if e = .clickhouse then none else some 1 := by
  by_cases he : e = .sqlite
  · subst he
    obtain ⟨payload, _, _, rfl⟩ := lookupDefinition_sqlite.1 h
    exact ⟨rfl, rfl⟩
  · obtain ⟨ls, _, rfl⟩ := (lookupDefinition_array he).1 h
    rw [arrayDefinition]
    split <;> exact ⟨rfl, rfl⟩

theorem arrayNames_of_lookupDefinitions
    (h : List.Forall₂ (fun l d => (of e).lookupDefinition l.1 l.2 = .ok d) kept lists) :
    lists.filterMap Definition.arrayName? =
      if e = .clickhouse then kept.map Prod.fst else [] := by
  induction h with
  | nil => simp
  | cons first _ ih =>
    rw [List.filterMap_cons, (parts_of_lookupDefinition first).1, ih]
    by_cases he : e = .clickhouse <;> simp [he]

end Dialect

namespace RowSource

variable {e : Engine} {count origin : ℤ} {source : Sql.RowSource}

theorem heads_shiftedRow (row : Expr) (origin : ℤ) : (shiftedRow row origin).heads = row.heads := by
  unfold shiftedRow
  split <;> simp [Expr.heads, Expr.add, Expr.int]

theorem heads_levelTerm (levels level : ℕ) :
    (levelTerm levels level).heads = ["_g" ++ toString level] := by
  simp only [levelTerm]
  split <;> rfl

theorem heads_levelOrdinal (m : ℕ) :
    (levelOrdinal (m + 1)).heads = (List.range (m + 1)).map fun k => "_g" ++ toString k := by
  have terms (ks : List ℕ) : (ks.map fun k => levelTerm (m + 1) (k + 1)).flatMap Expr.heads =
      ks.map fun k => "_g" ++ toString (k + 1) := by
    rw [List.flatMap_map, List.map_eq_flatMap]
    exact List.flatMap_congr fun k _ => heads_levelTerm (m + 1) (k + 1)
  simp [levelOrdinal, Expr.heads, Expr.add, Expr.nat, Expr.int, Expr.heads_chain, heads_levelTerm,
    terms, List.range_succ_eq_map]

theorem named_of_trino (many : ¬count ≤ sequenceLimit) (h : trino count origin = .ok source) :
    source.Named := by
  obtain ⟨n, rfl⟩ := Int.eq_ofNat_of_zero_le (show 0 ≤ count by omega)
  obtain ⟨m, levels, _⟩ := levelCount_least (n := n) (by omega)
  unfold trino at h
  rw [if_neg many, Int.toNat_natCast, levels] at h
  obtain ⟨sources, hsources, h⟩ := except_ok_of_bind h
  obtain rfl := Except.ok.inj h
  obtain ⟨a, _, rfl⟩ := sources_of_levels hsources
  have names : (Source.level 0 0 (a - 1) :: (List.range' 1 (m + 1)).map fun level =>
      Source.level level 0 (sequenceLimit - 1)).map Source.name =
        (List.range (m + 2)).map fun k => "_g" ++ toString k := by
    rw [List.range_eq_range', List.range'_succ, List.map_cons, List.map_map]
    rfl
  refine ⟨?_, ?_, ?_, .inl rfl⟩
  · rw [heads_shiftedRow, heads_levelOrdinal, names]
    exact List.Subset.refl _
  · rw [names]
    exact List.nodup_range.map (numbered_injective "_g")
  · intro s hs
    rcases List.mem_cons.1 hs with rfl | hs
    · exact ⟨not_isListName_level 0, by simp⟩
    · obtain ⟨level, _, rfl⟩ := List.mem_map.1 hs
      exact ⟨not_isListName_level level, by simp⟩

theorem named_of_make (h : make (.of e) count origin = .ok source) : source.Named := by
  obtain ⟨_, engine, h⟩ := except_ok_of_bind h
  cases engine
  obtain ⟨_, _, h⟩ := except_ok_of_bind h
  have single {s : Source} {definitions : List Definition} {row : Expr}
      (hrow : row.heads = [s.name]) (hs : ¬IsListName s.name ∧ ∀ name, s ≠ .lookup name)
      (own : definitions = [] ∨ ∃ limit, definitions = [.counter limit]) :
      Sql.RowSource.Named { definitions, sources := [s], row } :=
    ⟨by simp [hrow], List.nodup_singleton _, by simpa using hs, own⟩
  cases e with
  | postgresql =>
    obtain rfl := Except.ok.inj h
    have plain : ¬IsListName "g" := by decide
    exact single (heads_shiftedRow _ _) ⟨plain, by simp⟩ (.inl rfl)
  | clickhouse =>
    obtain rfl := Except.ok.inj h
    have plain : ¬IsListName "number" := by decide
    exact single rfl ⟨plain, by simp⟩ (.inl rfl)
  | sqlite =>
    obtain rfl := Except.ok.inj h
    have plain : ¬IsListName "seq" := by decide
    exact single (heads_shiftedRow _ _) ⟨plain, by simp⟩ (.inr ⟨count, rfl⟩)
  | trino =>
    by_cases few : count ≤ sequenceLimit
    · simp only [trino, if_pos few] at h
      obtain rfl := Except.ok.inj h
      exact single (heads_shiftedRow _ _) ⟨not_isListName_level 0, by simp⟩ (.inl rfl)
    · exact named_of_trino few h

end RowSource

theorem Column.PicksUnder.unique {c : Column} {name name' : String} (h : c.PicksUnder name)
    (h' : c.PicksUnder name') : name = name' := by
  obtain ⟨vs, hg, _, _, named⟩ := h
  obtain ⟨vs', hg', _, _, named'⟩ := h'
  obtain rfl : vs = vs' := Generator.choiceByLookup.inj (hg.symm.trans hg')
  exact Except.ok.inj (named.symm.trans named')

namespace Table

variable {t : Table} {kept : List (String × List Value)} {name : String}

theorem hasName_iff {values : List Value} :
    hasName name values = true ↔ lookupName values = .ok name := by
  cases h : lookupName values <;> simp [hasName, h, Except.toOption]

/-- The lists of a table have different names, those under which its columns pick. -/
theorem names_of_lookups (h : t.lookups = .ok kept) : (kept.map Prod.fst).Nodup ∧
    ∀ name, name ∈ kept.map Prod.fst ↔ ∃ c ∈ t.columns, c.PicksUnder name := by
  rw [lookups_eq] at h
  obtain ⟨distinct, first⟩ := foldlM_keepFirst h List.nodup_nil
  refine ⟨distinct, fun name => ?_⟩
  have there : name ∈ kept.map Prod.fst ↔ (kept.find? (·.1 == name)).isSome = true := by
    simp [List.find?_isSome]
  have listed : (t.lookupLists.find? (hasName name)).isSome = true ↔
      ∃ values ∈ t.lookupLists, lookupName values = .ok name := by
    simp only [List.find?_isSome, hasName_iff]
  rw [there, first, List.find?_nil, Option.none_or, Option.isSome_map, listed]
  constructor
  · rintro ⟨values, member, named⟩
    obtain ⟨c, hc, picks⟩ := List.mem_filterMap.1 member
    obtain ⟨hg, hvs, uncertain⟩ := Column.lookupValues?_iff.1 picks
    exact ⟨c, hc, values, hg, hvs, uncertain, named⟩
  · rintro ⟨c, hc, values, hg, hvs, uncertain, named⟩
    have picks := Column.lookupValues?_iff.2 ⟨hg, hvs, uncertain⟩
    exact ⟨values, List.mem_filterMap.2 ⟨c, hc, picks⟩, named⟩

end Table

/-- Each column refers to the list under whose name it picks, and to no other list. -/
def RefersToPicks (columns : List Column) (values : List Expr) : Prop :=
  List.Forall₂ (fun c x => ∀ name, IsListName name → (name ∈ x.heads ↔ c.PicksUnder name))
    columns values

theorem RefersToPicks.exists_iff {columns : List Column} {values : List Expr}
    (h : RefersToPicks columns values) {name : String} (listed : IsListName name) :
    (∃ x ∈ values, name ∈ x.heads) ↔ ∃ c ∈ columns, c.PicksUnder name := by
  constructor
  · rintro ⟨x, hx, head⟩
    obtain ⟨c, hc, refers⟩ := partner_left h hx
    exact ⟨c, hc, (refers name listed).1 head⟩
  · rintro ⟨c, hc, picks⟩
    obtain ⟨x, hx, refers⟩ := partner_right h hc
    exact ⟨x, hx, (refers name listed).2 picks⟩

/-- The insert defines the lists that its columns pick from, and nothing in it is out of reach. A
column that is always null, or whose list is empty, neither refers to a list nor adds one. -/
structure Sql.Insert.Hoists (i : Insert) (columns : List Column) : Prop where
  refers : RefersToPicks columns i.values
  defines : ∀ name, IsListName name →
    ((∃ d ∈ i.definitions, d.name = name) ↔ ∃ c ∈ columns, c.PicksUnder name)
  closed : ∀ name, IsListName name →
    ((∃ x ∈ i.values, name ∈ x.heads) ↔ ∃ d ∈ i.definitions, d.name = name)
  /-- No definition has the name of another one, the counter of the rows included. -/
  once : (i.definitions.map Definition.name).Nodup
  within : ∀ x ∈ i.values, x.heads ⊆ i.scope
  distinct : i.scope.Nodup
  /-- A list that is joined is a relation of one row. -/
  joined : ∀ name, .lookup name ∈ i.sources →
    ∃ d ∈ i.definitions, d.name = name ∧ d.height? = some 1

/-- The parts of an insert: the source of its rows, the lists of the table with their definitions,
and the values. -/
structure Sql.Insert.BuiltFrom (i : Insert) (now : ℤ) (table : Table) (e : Engine)
    (source : RowSource) (kept : List (String × List Value)) (lists : List Definition) : Prop where
  gathered : table.lookups = .ok kept
  defined : List.Forall₂ (fun l d => (Dialect.of e).lookupDefinition l.1 l.2 = .ok d) kept lists
  computed : List.Forall₂ (fun c x => ∃ salt, c.expression (.of e) now source.row salt = .ok x)
    table.columns i.values
  definitions_eq : i.definitions = source.definitions ++ lists
  sources_eq : i.sources = source.sources ++
    (if e = .clickhouse then [] else kept.map Prod.fst).map Source.lookup
  condition_eq : i.condition = source.condition

namespace Sql.Insert.BuiltFrom

variable {i : Insert} {now : ℤ} {table : Table} {e : Engine} {source : RowSource}
  {kept : List (String × List Value)} {lists : List Definition} {name : String}

theorem names_lists (h : i.BuiltFrom now table e source kept lists) :
    lists.map Definition.name = kept.map Prod.fst := by
  rw [← List.forall₂_eq_eq_eq, List.forall₂_map_left_iff, List.forall₂_map_right_iff]
  exact h.defined.flip.imp fun d l defined => Dialect.name_of_lookupDefinition defined

theorem scope_eq (h : i.BuiltFrom now table e source kept lists) (named : source.Named) :
    i.scope = source.sources.map Source.name ++ kept.map Prod.fst := by
  have own : source.definitions.filterMap Definition.arrayName? = [] := by
    rcases named.own with none | ⟨limit, counter⟩
    · rw [none]
      rfl
    · rw [counter]
      rfl
  have joined (names : List String) : (names.map Source.lookup).map Source.name = names := by
    simp [Function.comp_def, Source.name]
  rw [Insert.scope, h.sources_eq, h.definitions_eq, List.map_append, joined, List.filterMap_append,
    own, Dialect.arrayNames_of_lookupDefinitions h.defined]
  split <;> simp

theorem isListName_of_mem (h : i.BuiltFrom now table e source kept lists)
    (member : name ∈ kept.map Prod.fst) : IsListName name := by
  obtain ⟨_, _, vs, _, _, _, named⟩ := ((Table.names_of_lookups h.gathered).2 name).1 member
  exact isListName_of_lookupName named

theorem not_isListName_of_mem (named : source.Named)
    (member : name ∈ source.sources.map Source.name) : ¬IsListName name := by
  obtain ⟨s, hs, rfl⟩ := List.mem_map.1 member
  exact (named.unlisted s hs).1

theorem refers (h : i.BuiltFrom now table e source kept lists) (named : source.Named) :
    RefersToPicks table.columns i.values := by
  refine h.computed.imp fun c x ⟨salt, compiled⟩ name listed => ?_
  rcases Column.heads_of_column compiled with ⟨own, picks, heads⟩ | ⟨none, heads⟩
  · rw [heads, List.mem_singleton]
    exact ⟨fun same => same ▸ picks, fun picks' => picks'.unique picks⟩
  · refine ⟨fun head => ?_, fun picks => (none name picks).elim⟩
    exact (not_isListName_of_mem named (named.row (heads head)) listed).elim

theorem defines (h : i.BuiltFrom now table e source kept lists) (named : source.Named)
    (listed : IsListName name) :
    (∃ d ∈ i.definitions, d.name = name) ↔ ∃ c ∈ table.columns, c.PicksUnder name := by
  have own : ¬∃ d ∈ source.definitions, d.name = name := by
    rintro ⟨d, hd, rfl⟩
    rcases named.own with none | ⟨limit, counter⟩
    · simp [none] at hd
    · rw [counter, List.mem_singleton] at hd
      subst hd
      exact absurd listed (show ¬IsListName "seq" by decide)
  rw [← (Table.names_of_lookups h.gathered).2, h.definitions_eq, ← h.names_lists, List.mem_map]
  simp only [List.mem_append, or_and_right, exists_or, own, false_or]

theorem within (h : i.BuiltFrom now table e source kept lists) (named : source.Named) :
    ∀ x ∈ i.values, x.heads ⊆ i.scope := by
  intro x hx
  rw [h.scope_eq named]
  obtain ⟨c, hc, salt, compiled⟩ := partner_left h.computed hx
  rcases Column.heads_of_column compiled with ⟨own, picks, heads⟩ | ⟨_, heads⟩
  · have member := ((Table.names_of_lookups h.gathered).2 own).2 ⟨c, hc, picks⟩
    rw [heads, List.cons_subset]
    exact ⟨List.mem_append_right _ member, List.nil_subset _⟩
  · exact fun name head => List.mem_append_left _ (named.row (heads head))

theorem distinct (h : i.BuiltFrom now table e source kept lists) (named : source.Named) :
    i.scope.Nodup := by
  rw [h.scope_eq named]
  refine named.distinct.append (Table.names_of_lookups h.gathered).1 fun name first second => ?_
  exact not_isListName_of_mem named first (h.isListName_of_mem second)

theorem once (h : i.BuiltFrom now table e source kept lists) (named : source.Named) :
    (i.definitions.map Definition.name).Nodup := by
  have names := (Table.names_of_lookups h.gathered).1
  rw [h.definitions_eq, List.map_append, h.names_lists]
  rcases named.own with none | ⟨limit, counter⟩
  · simpa [none] using names
  · rw [counter]
    refine List.nodup_cons.2 ⟨fun clash => ?_, names⟩
    exact absurd (h.isListName_of_mem clash) (show ¬IsListName "seq" by decide)

theorem joined (h : i.BuiltFrom now table e source kept lists) (named : source.Named)
    (member : .lookup name ∈ i.sources) :
    ∃ d ∈ i.definitions, d.name = name ∧ d.height? = some 1 := by
  rw [h.sources_eq, List.mem_append] at member
  rcases member with own | list
  · exact ((named.unlisted _ own).2 name rfl).elim
  · by_cases he : e = .clickhouse
    · simp [he] at list
    · rw [if_neg he, List.mem_map] at list
      obtain ⟨_, inside, same⟩ := list
      obtain rfl := Source.lookup.inj same
      obtain ⟨l, hl, rfl⟩ := List.mem_map.1 inside
      obtain ⟨d, hd, defined⟩ := partner_right h.defined hl
      have height := (Dialect.parts_of_lookupDefinition defined).2
      rw [if_neg he] at height
      refine ⟨d, ?_, Dialect.name_of_lookupDefinition defined, height⟩
      rw [h.definitions_eq]
      exact List.mem_append_right _ hd

theorem hoists (h : i.BuiltFrom now table e source kept lists) (named : source.Named) :
    i.Hoists table.columns where
  refers := h.refers named
  defines _ := h.defines named
  closed _ listed := ((h.refers named).exists_iff listed).trans (h.defines named listed).symm
  once := h.once named
  within := h.within named
  distinct := h.distinct named
  joined _ := h.joined named

end Sql.Insert.BuiltFrom

namespace Target

variable {t : Target} {now : ℤ} {table : Table} {count origin : ℤ} {st : Statement}

theorem builtFrom_of_insertRows (h : t.insertRows now table count origin = .ok st) :
    ∃ i e source kept lists, st = .insert i ∧ t.dialect = .of e ∧
      RowSource.make (.of e) count origin = .ok source ∧
      i.BuiltFrom now table e source kept lists := by
  obtain ⟨i, source, kept, lists, same, made, gathered, defined, _, computed, _, definitions,
    sources, condition⟩ := parts_of_insertRows h
  obtain ⟨e, engine, _⟩ := except_ok_of_bind made
  have he : t.dialect = .of e := by
    cases hd : t.dialect with
    | core => rw [hd] at engine; cases engine
    | of own => rw [hd] at engine; cases engine; rfl
  rw [he] at made defined computed sources
  refine ⟨i, e, source, kept, lists, same, he, made, gathered, defined, ?_, definitions, ?_,
    condition⟩
  · rw [← List.zipIdx_map_fst 0 table.columns, List.forall₂_map_left_iff]
    exact computed.imp fun c x compiled => ⟨_, compiled⟩
  · rw [sources]
    cases e <;> simp [insertSources]

/-- The rows of an insert are those of its source. -/
theorem length_rows_of_insertRows (h : t.insertRows now table count origin = .ok st) :
    ∃ i e, st = .insert i ∧ t.dialect = .of e ∧
      ∀ w, (i.rows w).length = RowSource.height e count := by
  obtain ⟨i, e, source, kept, lists, rfl, he, made, built⟩ := builtFrom_of_insertRows h
  refine ⟨i, e, rfl, he, fun w => ?_⟩
  rw [Insert.rows, built.definitions_eq, built.sources_eq, built.condition_eq]
  exact RowSource.length_rows_of_make made w _ _

/-- Whatever an insert is compiled for, its columns refer to the lists that it defines, each of them
under a name of its own that nothing else has, and joining the lists does not change the number of
its rows. That is the number it was compiled for unless the engine's source does not attain it. -/
theorem hoists_of_insertRows (h : t.insertRows now table count origin = .ok st) :
    ∃ i e, st = .insert i ∧ t.dialect = .of e ∧ i.Hoists table.columns ∧
      ∀ w, (i.rows w).length = RowSource.height e count ∧
        (RowSource.Attains e count → ((i.rows w).length : ℤ) = count) := by
  obtain ⟨i, e, source, kept, lists, rfl, he, made, built⟩ := builtFrom_of_insertRows h
  obtain ⟨_, _, same, he', rows⟩ := length_rows_of_insertRows h
  cases same
  cases he.symm.trans he'
  refine ⟨i, e, rfl, he, built.hoists (RowSource.named_of_make made), fun w => ⟨rows w, ?_⟩⟩
  intro attained
  rw [rows w]
  exact RowSource.height_eq attained

/-- Two columns that share a list, and one with another, beside SQLite's counter. -/
theorem hoists_of_sharedShades : ∃ st,
    insertRows { dialect := .of .sqlite } 0 shadeTable 3 0 = .ok st ∧
      ∃ i, st = .insert i ∧ i.Hoists shadeTable.columns ∧ ∀ w, (i.rows w).length = 3 := by
  obtain ⟨st, h⟩ := except_ok_of_isSome
    (x := insertRows { dialect := .of .sqlite } 0 shadeTable 3 0) (by decide +kernel)
  obtain ⟨i, e, same, he, hoists, rows⟩ := hoists_of_insertRows h
  obtain rfl : .sqlite = e := Dialect.of.inj he
  exact ⟨st, h, i, same, hoists, fun w => by exact_mod_cast (rows w).2 (show 1 ≤ 3 by decide)⟩

theorem height_beyondLevels : RowSource.height .trino Run.beyondLevels = 10 ^ 16 := by
  have levels := Run.levelCount_beyondLevels
  have quotient := Run.quotient_beyondLevels
  simp only [RowSource.height, RowSource.levelsHeight, Int.toNat_natCast, levels]
  rw [if_neg (by decide), if_neg (by decide), quotient]
  rfl

/-- On Trino, the outermost of five levels of sequences is one entry short. -/
theorem short_of_beyondLevels : ¬∀ (t : Target) (now : ℤ) (table : Table) (count origin : ℤ)
    (i : Insert) (w : Scene), 0 ≤ count → t.insertRows now table count origin = .ok (.insert i) →
    ((i.rows w).length : ℤ) = count := by
  intro claim
  obtain ⟨one, hone⟩ := except_ok_of_isSome
    (x := insertRows { dialect := .of .trino } 0 shadeTable 1 0) (by decide +kernel)
  obtain ⟨source, made⟩ := Run.exists_source_beyondLevels
  obtain ⟨st, h⟩ := insertRows_ok_of_ok hone made
  obtain ⟨i, e, rfl, he, rows⟩ := length_rows_of_insertRows h
  obtain rfl : .trino = e := Dialect.of.inj he
  let w : Scene := ⟨.plain .trino, Store.only [] [], fun _ => .null, fun _ _ => 0⟩
  have all := claim _ _ _ _ _ i w (by decide) h
  rw [rows w, height_beyondLevels] at all
  exact absurd all (by decide)

end Target
end SyntheticRows
