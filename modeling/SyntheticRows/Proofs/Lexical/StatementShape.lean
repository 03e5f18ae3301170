import SyntheticRows.Proofs.Lexical.Generation
import SyntheticRows.Proofs.Lookup.Hoisted

/-!
# Shapes of statements

The statement that creates a table and the one that fills it have the same tokens, kind by kind,
when the texts of the table are renamed: no text gets out of its token.
-/
namespace SyntheticRows
open Sql

/-- Every part of a row source can be read to its end. -/
structure Sql.RowSource.Readable (e : Engine) (rows : RowSource) : Prop where
  definitions : ∀ d ∈ rows.definitions, SameTokens e (d.render e) (d.render e)
  sources : ∀ s ∈ rows.sources, SameTokens e s.render s.render
  row : SameShape e rows.row rows.row
  condition : ∀ x ∈ rows.condition, SameShape e x x

namespace RowSource
open SameShape

variable {e : Engine} {rows : Sql.RowSource} {count origin : ℤ}

theorem sameShape_shiftedRow (he : e ≠ .clickhouse) {row : Expr} (h : SameShape e row row)
    (origin : ℤ) : SameShape e (shiftedRow row origin) (shiftedRow row origin) := by
  unfold shiftedRow
  split
  · exact h
  · exact paren (binary _ h (int he origin))

/-- The numbers of a relation. -/
theorem sameShape_numbers {relation : String} (h : IsName e relation) :
    SameShape e (.name [.bare relation, .bare "n"]) (.name [.bare relation, .bare "n"]) :=
  field h h ⟨by cases e <;> rfl, by rintro _ ⟨⟩; rfl⟩

theorem isName_level (k : ℕ) : IsName e ("_g" ++ toString k) := by
  have written : ("_g" ++ toString k).toList = '_' :: 'g' :: natDigits k := by
    have digits : toString k = String.ofList (natDigits k) := Nat.repr_eq_ofList_toDigits
    simp [digits, String.toList_append]
  refine .bare ?_ (by simp) (by simp)
  rw [written]
  simp only [List.forall_mem_cons]
  refine ⟨by cases e <;> rfl, by cases e <;> rfl, fun c hc => ?_⟩
  have digit : c.isDigit = true := allDigits_natDigits k c hc
  exact inWord_of_isAlphanum (by simp [Char.isAlphanum, digit])

theorem sameShape_levelName (k : ℕ) : SameShape e (levelName k) (levelName k) :=
  sameShape_numbers (isName_level k)

theorem sameShape_levelOrdinal (he : e ≠ .clickhouse) (levels : ℕ) :
    SameShape e (levelOrdinal levels) (levelOrdinal levels) := by
  have term (k : ℕ) : SameShape e (levelTerm levels k) (levelTerm levels k) := by
    by_cases heavy : levelWeight levels k > 1
    · simp only [levelTerm, if_pos heavy]
      exact binary _ (sameShape_levelName k) (nat he _)
    · simp only [levelTerm, if_neg heavy]
      exact sameShape_levelName k
  refine paren (binary _ (chain _ (term 0) ?_) (nat he 1))
  rw [List.forall₂_same]
  intro x hx
  obtain ⟨k, _, rfl⟩ := List.mem_map.1 hx
  exact term (k + 1)

theorem render_level (k : ℕ) (first last : ℤ) : (Source.level k first last).render =
    "UNNEST(sequence(" ++ toString first ++ ", " ++ toString last ++ ")) AS " ++
      ("_g" ++ toString k) ++ "(n)" := by
  have front (s : String) : s ++ ")) AS _g" = s ++ ")) AS " ++ "_g" := by
    have parts : ")) AS _g" = ")) AS " ++ "_g" := by decide
    rw [String.append_assoc, parts]
  unfold Source.render
  simp only [front]
  simp only [String.append_assoc]

theorem sameTokens_level (k : ℕ) (first last : ℤ) :
    SameTokens .trino (Source.level k first last).render (Source.level k first last).render := by
  have level : SameTokens .trino ("_g" ++ toString k) ("_g" ++ toString k) :=
    ⟨_, (isName_level k).word, (isName_level k).word⟩
  have opening : Engine.opens .trino "UNNEST(sequence(" = true := rfl
  have bounds := ((SameTokens.int .trino first).opened opening).between (g := ", ") rfl
    (.int .trino last)
  rw [render_level]
  exact (bounds.between (g := ")) AS ") rfl level).closed (g := "(n)") rfl

theorem level_of_levelSource {levels k : ℕ} {s : Source} (h : levelSource count levels k = .ok s) :
    ∃ last, s = .level k 0 last := by
  by_cases outermost : k = 0
  · simp only [levelSource, if_pos outermost] at h
    obtain ⟨last, _, h⟩ := except_ok_of_bind h
    exact ⟨last - 1, (Except.ok.inj h).symm⟩
  · simp only [levelSource, if_neg outermost] at h
    exact ⟨sequenceLimit - 1, (Except.ok.inj h).symm⟩

theorem readable_trino (h : trino count origin = .ok rows) : rows.Readable .trino := by
  have he : Engine.trino ≠ .clickhouse := by decide
  unfold trino at h
  split at h
  · cases h
    refine ⟨nofun, ?_, sameShape_shiftedRow he (sameShape_levelName 0) origin, nofun⟩
    simpa using sameTokens_level 0 1 count
  · obtain ⟨sources, made, h⟩ := except_ok_of_bind h
    cases h
    have ordinal : SameShape .trino _ _ := sameShape_levelOrdinal he (levelCount count.toNat)
    refine ⟨nofun, fun s hs => ?_, sameShape_shiftedRow he ordinal origin, ?_⟩
    · obtain ⟨k, _, hk⟩ := partner_left (forall₂_of_mapM made) hs
      obtain ⟨last, rfl⟩ := level_of_levelSource hk
      exact sameTokens_level k 0 last
    · rintro _ ⟨⟩
      exact binary _ ordinal (int he count)

theorem readable_of_make (he : e ≠ .clickhouse) (h : make (.of e) count origin = .ok rows) :
    rows.Readable e := by
  obtain ⟨_, known, h⟩ := except_ok_of_bind h
  cases known
  obtain ⟨_, _, h⟩ := except_ok_of_bind h
  cases e with
  | clickhouse => exact absurd rfl he
  | trino => exact readable_trino h
  | postgresql =>
    cases h
    have opening : Engine.opens .postgresql "generate_series(1::bigint, " = true := rfl
    have series := ((SameTokens.int .postgresql count).opened opening).closed
      (g := "::bigint) AS g(n)") rfl
    have relation : IsName .postgresql "g" := ⟨rfl, by rintro _ ⟨⟩; rfl⟩
    refine ⟨nofun, ?_, sameShape_shiftedRow he (sameShape_numbers relation) origin, nofun⟩
    intro s hs
    obtain rfl := List.mem_singleton.1 hs
    exact series
  | sqlite =>
    cases h
    have relation : IsName .sqlite "seq" := ⟨rfl, by rintro _ ⟨⟩; rfl⟩
    refine ⟨?_, ?_, sameShape_shiftedRow he (sameShape_numbers relation) origin, nofun⟩
    · intro d hd
      obtain rfl := List.mem_singleton.1 hd
      exact .counter count
    · intro s hs
      obtain rfl := List.mem_singleton.1 hs
      exact .refl rfl

end RowSource

section Names

variable {e : Engine} {target : Target} {f : String → String} {v w : Value} {c c' : Column}

/-- A text is a name whatever it says. -/
theorem agree_ident (hd : target.dialect = .of e) (h : SameButText v w) :
    Agree (fun _ _ => True) (target.ident v) (target.ident w) := by
  cases h with
  | text hs ht =>
    rw [Target.ident, Target.ident, hd, Dialect.ident_of_text hs.nonempty hs.nulFree,
      Dialect.ident_of_text ht.nonempty ht.nulFree]
    exact .ok trivial
  | same v => exact .same fun _ _ => trivial

theorem given_of_qualifiers {q : Path} (h : target.qualifiers = .ok q) :
    ∀ n ∈ q, ∃ i, n = .given i := by
  unfold Target.qualifiers at h
  split at h
  · obtain ⟨catalog, _, h⟩ := except_ok_of_bind h
    obtain ⟨schema, _, h⟩ := except_ok_of_bind h
    cases h
    simp
  · cases h
    simp

theorem agree_tableRef (he : e ≠ .clickhouse) (hd : target.dialect = .of e)
    (h : SameButText v w) : Agree (fun p p' => SameTokens e (Path.render e p) (Path.render e p'))
      (target.tableRef v) (target.tableRef w) := by
  refine .bindSame fun q hq => (agree_ident hd h).bind fun i i' _ => .ok ?_
  have names (i : Ident) : ∀ n ∈ q ++ [.given i], IsName e (n.render e) := by
    intro n hn
    rcases List.mem_append.1 hn with qualifier | table
    · obtain ⟨j, rfl⟩ := given_of_qualifiers hq n qualifier
      exact isName_given he j
    · obtain rfl := List.mem_singleton.1 table
      exact isName_given he i
  exact .path (by simp) (names i) (names i')

theorem closes_definition (e : Engine) (type : ColumnType) (notNull : Bool) :
    e.closes (" " ++ e.physicalType type ++ (if notNull then " NOT NULL" else "")) = true := by
  cases e <;> cases type <;> cases notNull <;> rfl

theorem agree_definition (he : e ≠ .clickhouse) (hd : target.dialect = .of e)
    (h : c.Renamed f c') (hn : SameButText c.name (c.name.renamed f)) :
    Agree (fun d d' => SameTokens e (d.render e) (d'.render e)) (c.definition target)
      (c'.definition target) := by
  rw [Column.definition, Column.definition, h.name, hd]
  refine (agree_ident hd hn).bind fun i i' _ => .ok ?_
  refine .column he ?_ ?_ ?_
  · simp only [physicalType_eq he, h.type]
  · simp only [h.nullable]
  · simp only [physicalType_eq he]
    exact closes_definition e c.type _

end Names

section Lookups

variable {e : Engine} {f : String → String} {t t' : Table} {vs ws : List Value}

/-- Different lists of a table have different names. -/
def Table.NamesApart (t : Table) : Prop :=
  ∀ vs ∈ t.lookupLists, ∀ ws ∈ t.lookupLists, ∀ name, lookupName vs = .ok name →
    lookupName ws = .ok name → vs = ws

theorem eq_of_coincides {v w : Value} (hw : w.text?.isSome = true) (hv : v.text?.isSome = true)
    (h : v.Coincides w) : w = v := by
  cases v with
  | text s =>
    cases w with
    | text t =>
      obtain ⟨_, first, second⟩ := h.form
      cases first
      have same : Json.writeText t = Json.writeText s := Except.ok.inj second
      have chars : (Json.writeText t).toList ++ [] = (Json.writeText s).toList ++ [] := by rw [same]
      rw [(Json.writeText_append_inj chars).1]
    | _ => cases hw
  | _ => cases hv

/-- For lists of texts this only takes digests that differ for different JSON texts. -/
theorem Table.namesApart_of_digests (texts : ∀ vs ∈ t.lookupLists, ∀ v ∈ vs, v.text?.isSome = true)
    (faithful : Set.InjOn digestName {p | p ∈ t.lookupPayloads}) : t.NamesApart := by
  intro vs hvs ws hws name hv hw
  rw [lookupName_eq] at hv hw
  obtain ⟨p, written, rfl⟩ := except_ok_of_map hv
  obtain ⟨q, written', same⟩ := except_ok_of_map hw
  have payload {vs : List Value} {p : String} (hvs : vs ∈ t.lookupLists)
      (written : lookupPayload vs = .ok p) : p ∈ t.lookupPayloads :=
    List.mem_filterMap.2 ⟨vs, hvs, by rw [written]; rfl⟩
  obtain rfl := faithful (payload hws written') (payload hvs written) same
  have scalar {v : Value} (h : v.text?.isSome = true) : v.isScalar = true := by
    cases v <;> first | rfl | cases h
  have coincide := Dialect.coincides_of_payload written written'
    (fun v hv => scalar (texts vs hvs v hv)) (fun w hw => scalar (texts ws hws w hw))
  have left := (List.forall₂_and_left _ _).2 ⟨texts vs hvs, coincide⟩
  have both := (List.forall₂_and_left _ _).2 ⟨texts ws hws, left.flip⟩
  have equal : List.Forall₂ (· = ·) ws vs := both.imp fun w v h => eq_of_coincides h.1 h.2.1 h.2.2
  rw [List.forall₂_eq_eq_eq] at equal
  exact equal.symm

theorem isName_of_lookupName {name : String} (h : lookupName vs = .ok name) : IsName e name := by
  rw [lookupName_eq] at h
  obtain ⟨payload, _, rfl⟩ := except_ok_of_map h
  exact isName_digestName payload

theorem Column.Renamed.lookupValues? {c c' : Column} (h : c.Renamed f c') :
    c'.lookupValues? = c.lookupValues?.map (List.map (Value.renamed f)) := by
  have probability : c'.effectiveNullProbability = c.effectiveNullProbability := by
    rw [Column.effectiveNullProbability, Column.effectiveNullProbability, h.nullable,
      h.nullProbability]
  unfold Column.lookupValues?
  rw [h.generator, probability]
  cases c.generator with
  | choiceByLookup values => cases values <;> simp [Generator.renamed, apply_ite]
  | _ => rfl

theorem Table.Renamed.lookupLists (h : t.Renamed f t') :
    t'.lookupLists = t.lookupLists.map (List.map (Value.renamed f)) := by
  have lists {cs cs' : List Column} (h : List.Forall₂ (Column.Renamed f) cs cs') :
      cs'.filterMap Column.lookupValues? =
        (cs.filterMap Column.lookupValues?).map (List.map (Value.renamed f)) := by
    induction h with
    | nil => rfl
    | @cons c _ _ _ first _ ih =>
      simp only [List.filterMap_cons, first.lookupValues?]
      cases c.lookupValues? <;> simp [ih]
  exact lists h.columns

theorem Table.mem_givens_of_lookupLists (hvs : vs ∈ t.lookupLists) {v : Value} (hv : v ∈ vs) :
    v ∈ t.givens := by
  obtain ⟨c, hc, picked⟩ := List.mem_filterMap.1 hvs
  refine Table.mem_givens hc (Column.mem_givens ?_)
  unfold Column.lookupValues? at picked
  split at picked
  · next generator =>
    obtain ⟨_, same⟩ := Option.ite_none_right_eq_some.1 picked
    obtain rfl := Option.some.inj same
    rw [generator]
    exact hv
  · cases picked

/-- A list of a table and its renamed one under their names. -/
structure Table.Hoists (f : String → String) (t : Table) (l l' : String × List Value) : Prop where
  member : l.2 ∈ t.lookupLists
  renamed : l'.2 = l.2.map (Value.renamed f)
  named : lookupName l.2 = .ok l.1
  named' : lookupName l'.2 = .ok l'.1

theorem Table.Renames.sameButText_list (hf : t.Renames f) (hvs : vs ∈ t.lookupLists) :
    List.Forall₂ SameButText vs (vs.map (Value.renamed f)) := by
  rw [List.forall₂_map_right_iff, List.forall₂_same]
  exact fun v hv => hf.sameButText (Table.mem_givens_of_lookupLists hvs hv)

section Apart

variable (h : t.Renamed f t') (hf : t.Renames f) (apart : t.NamesApart) (apart' : t'.NamesApart)
include h hf apart apart'

/-- Lists have one name together with their renamed ones. -/
theorem sameName_iff {l l' : String × List Value} {n n' : String} (hl : t.Hoists f l l')
    (hvs : vs ∈ t.lookupLists) (hn : lookupName vs = .ok n)
    (hn' : lookupName (vs.map (Value.renamed f)) = .ok n') : l.1 = n ↔ l'.1 = n' := by
  have member {vs : List Value} (hvs : vs ∈ t.lookupLists) :
      vs.map (Value.renamed f) ∈ t'.lookupLists := by
    rw [h.lookupLists]
    exact List.mem_map_of_mem hvs
  have named' := hl.named'
  rw [hl.renamed] at named'
  constructor
  · intro same
    have lists := apart _ hl.member _ hvs n (same ▸ hl.named) hn
    rw [lists, hn'] at named'
    exact (Except.ok.inj named').symm
  · intro same
    have lists := apart' _ (member hl.member) _ (member hvs) n' (same ▸ named') hn'
    have named := hl.named
    have given {vs : List Value} (hvs : vs ∈ t.lookupLists) : ∀ v ∈ vs, v ∈ t.givens :=
      fun _ => Table.mem_givens_of_lookupLists hvs
    rw [hf.map_inj (given hl.member) (given hvs) lists, hn] at named
    exact (Except.ok.inj named).symm

theorem agree_keepFirst {found found' : List (String × List Value)}
    (hs : List.Forall₂ (t.Hoists f) found found') (hvs : vs ∈ t.lookupLists) :
    Agree (List.Forall₂ (t.Hoists f)) (Table.keepFirst found vs)
      (Table.keepFirst found' (vs.map (Value.renamed f))) := by
  have names := agree_lookupName (e := .trino) (hf.sameButText_list hvs)
  refine names.attach.bind fun n n' named => .ok ?_
  obtain ⟨_, hn, hn'⟩ := named
  have there : found.any (·.1 == n) = found'.any (·.1 == n') := by
    induction hs with
    | nil => rfl
    | cons hl _ ih =>
      have same := sameName_iff h hf apart apart' hl hvs hn hn'
      rw [List.any_cons, List.any_cons, ih, beq_eq_beq.2 same]
  rw [there]
  split
  · exact hs
  · exact List.rel_append hs (.cons ⟨hvs, rfl, hn, hn'⟩ .nil)

/-- The lists of the renamed table are kept where those of the table are. -/
theorem agree_lookups : Agree (List.Forall₂ (t.Hoists f)) t.lookups t'.lookups := by
  have lists : List.Forall₂ (fun vs ws => vs ∈ t.lookupLists ∧ vs.map (Value.renamed f) = ws)
      t.lookupLists t'.lookupLists := by
    rw [h.lookupLists, List.forall₂_map_right_iff, List.forall₂_same]
    exact fun vs hvs => ⟨hvs, rfl⟩
  rw [Table.lookups_eq, Table.lookups_eq]
  refine .foldlM lists .nil fun found found' vs ws hs both => ?_
  obtain ⟨hvs, rfl⟩ := both
  exact agree_keepFirst h hf apart apart' hs hvs

end Apart
/-- What is defined under two names from a list and its renamed one. -/
theorem agree_lookupDefinition (he : e ≠ .clickhouse) {n n' : String} (hn : IsName e n)
    (hn' : IsName e n') (h : List.Forall₂ SameButText vs ws) :
    Agree (fun d d' => SameTokens e (d.render e) (d'.render e))
      ((Dialect.of e).lookupDefinition n vs) ((Dialect.of e).lookupDefinition n' ws) := by
  have names : SameTokens e n n' := ⟨_, hn.word, hn'.word⟩
  have arrays (hs : e ≠ .sqlite) :
      Agree (fun d d' => SameTokens e (d.render e) (d'.render e))
        (Definition.arrayRow n <$> vs.mapM (Dialect.of e).literal)
        (Definition.arrayRow n' <$> ws.mapM (Dialect.of e).literal) :=
    (Agree.mapM h fun _ _ => agree_literal he).map fun _ _ items => .arrayRow hs names items
  cases e with
  | clickhouse => exact absurd rfl he
  | postgresql | trino => exact arrays (by decide)
  | sqlite =>
    refine .of_iff ?_ fun d d' hd hd' => ?_
    · rw [definition_ok_iff, definition_ok_iff]
      simp only [Engine.defines, if_true]
      exact encodes_iff h
    · obtain ⟨payload, nulFree, _, rfl⟩ := Dialect.lookupDefinition_sqlite.1 hd
      obtain ⟨payload', nulFree', _, rfl⟩ := Dialect.lookupDefinition_sqlite.1 hd'
      exact .jsonRow names (.text nulFree nulFree')

end Lookups

section Statements

variable {e : Engine} {target : Target} {f : String → String} {t t' : Table}
  {now count origin : ℤ}

/-- The columns in pairs, with what is known of the texts of each. -/
theorem renamed_columns (h : t.Renamed f t') (hf : t.Renames f) :
    List.Forall₂ (fun c c' => c.Renamed f c' ∧ ∀ v ∈ c.givens, SameButText v (v.renamed f))
      t.columns t'.columns := by
  refine (pairing_mem h.columns).imp fun c c' both => ?_
  exact ⟨both.2, fun v hv => hf.sameButText (Table.mem_givens both.1 hv)⟩

theorem createTable_eq (he : e ≠ .clickhouse) (hd : target.dialect = .of e) (t : Table) :
    target.createTable t = (do
      let columns ← t.columns.mapM (Column.definition target)
      let path ← target.tableRef t.name
      return .createTable path columns (if e = .trino then .parquet else .standard)) := by
  obtain ⟨d, catalog, schema⟩ := target
  cases hd
  cases e with
  | clickhouse => exact absurd rfl he
  | _ => rfl

theorem agree_createTable (he : e ≠ .clickhouse) (hd : target.dialect = .of e)
    (h : t.Renamed f t') (hf : t.Renames f) :
    Agree (fun s s' => SameTokens e (s.render e) (s'.render e)) (target.createTable t)
      (target.createTable t') := by
  have table : SameButText t.name (t.name.renamed f) := hf.sameButText (List.mem_cons_self ..)
  have columns : Agree (List.Forall₂ fun d d' => SameTokens e (d.render e) (d'.render e))
      (t.columns.mapM (Column.definition target)) (t'.columns.mapM (Column.definition target)) :=
    .mapM (renamed_columns h hf) fun c c' both =>
      agree_definition he hd both.1 (both.2 _ (List.mem_cons_self ..))
  have storage : e.closes ((if e = .trino then .parquet else .standard : Storage).render e) =
      true := by cases e <;> rfl
  rw [createTable_eq he hd, createTable_eq he hd, h.name]
  exact columns.bind fun _ _ definitions => (agree_tableRef he hd table).bind fun _ _ path =>
    .ok (.createTable path definitions storage)

/-- The sources of an insert with the names of its lists. -/
theorem sameTokens_sources {rows : Sql.RowSource} (he : e ≠ .clickhouse)
    (readable : rows.Readable e) {names names' : List String}
    (h : List.Forall₂ (SameTokens e) names names') :
    List.Forall₂ (SameTokens e) ((Target.insertSources (.of e) rows names).map Source.render)
      ((Target.insertSources (.of e) rows names').map Source.render) := by
  have listed (names : List String) : (Target.insertSources (.of e) rows names).map Source.render =
      rows.sources.map Source.render ++ names := by
    have own : names.map (Source.render ∘ Source.lookup) = names := List.map_id' _
    cases e with
    | clickhouse => exact absurd rfl he
    | _ => simp only [Target.insertSources, List.map_append, List.map_map, own]
  rw [listed, listed]
  exact List.rel_append (pairing_map (List.forall₂_same.2 readable.sources)) h

theorem agree_insertRows (he : e ≠ .clickhouse) (hd : target.dialect = .of e)
    (h : t.Renamed f t') (hf : t.Renames f) (apart : t.NamesApart) (apart' : t'.NamesApart) :
    Agree (fun s s' => SameTokens e (s.render e) (s'.render e))
      (target.insertRows now t count origin) (target.insertRows now t' count origin) := by
  have table : SameButText t.name (t.name.renamed f) := hf.sameButText (List.mem_cons_self ..)
  have columns := renamed_columns h hf
  unfold Target.insertRows
  rw [hd, h.name]
  refine .bindSame fun rows made => ?_
  have readable := RowSource.readable_of_make he made
  refine (agree_lookups h hf apart apart').bind fun found found' hoisted => ?_
  have definitions : Agree (List.Forall₂ fun d d' => SameTokens e (d.render e) (d'.render e))
      (found.mapM fun l => (Dialect.of e).lookupDefinition l.1 l.2)
      (found'.mapM fun l => (Dialect.of e).lookupDefinition l.1 l.2) :=
    .mapM hoisted fun l l' hl =>
      agree_lookupDefinition he (isName_of_lookupName hl.named) (isName_of_lookupName hl.named')
        (hl.renamed ▸ hf.sameButText_list hl.member)
  refine definitions.bind fun ds ds' defined => ?_
  have names : Agree (List.Forall₂ fun _ _ => True)
      (t.columns.mapM fun c => target.ident c.name)
      (t'.columns.mapM fun c => target.ident c.name) :=
    .mapM columns fun c c' both => both.1.name ▸ agree_ident hd (both.2 _ (List.mem_cons_self ..))
  refine names.bind fun is is' idents => ?_
  have values : Agree (List.Forall₂ (SameShape e))
      (t.columns.zipIdx.mapM fun c => c.1.expression (.of e) now rows.row (c.2 + 1))
      (t'.columns.zipIdx.mapM fun c => c.1.expression (.of e) now rows.row (c.2 + 1)) := by
    refine .mapM (pairing_zipIdx columns 0) fun c c' both => ?_
    rw [← both.2]
    exact agree_expression he both.1.1 readable.row
      (fun v hv => both.1.2 v (Column.mem_givens hv)) (c.2 + 1)
  refine values.bind fun xs xs' shapes => (agree_tableRef he hd table).bind fun p p' path => ?_
  refine .ok (Insert.SameParts.render ⟨path, ?_, ?_, ?_, shapes, ?_⟩)
  · exact pairing_map (idents.imp fun i i' _ => ⟨_, tokens_quote he i, tokens_quote he i'⟩)
  · rw [List.map_append, List.map_append]
    refine List.rel_append (pairing_map ?_) (pairing_map defined)
    exact List.forall₂_same.2 readable.definitions
  · refine sameTokens_sources he readable (pairing_map (hoisted.imp fun l l' hl => ?_))
    exact ⟨_, (isName_of_lookupName hl.named).word, (isName_of_lookupName hl.named').word⟩
  · rw [List.forall₂_same]
    simpa using readable.condition

/-- Renaming the texts of a table leaves the kinds of the tokens of its statements as they are, one
by one: for any count and origin both statements can be read, or neither is made. -/
theorem sameTokens_of_renamed (he : e ≠ .clickhouse) (hd : target.dialect = .of e)
    (h : t.Renamed f t') (hf : t.Renames f) (apart : t.NamesApart) (apart' : t'.NamesApart) :
    Agree (fun s s' => SameTokens e (s.render e) (s'.render e)) (target.createTable t)
        (target.createTable t') ∧
      ∀ now count origin, Agree (fun s s' => SameTokens e (s.render e) (s'.render e))
        (target.insertRows now t count origin) (target.insertRows now t' count origin) :=
  ⟨agree_createTable he hd h hf, fun _ _ _ => agree_insertRows he hd h hf apart apart'⟩

/-- Columns that draw from texts, two of them from the same list. -/
def plainTable : Table where
  name := .text "colors"
  columns := [
    ⟨.text "first", .string, .choiceByLookup [.text "red", .text "blue"], false, .zero, rfl⟩,
    ⟨.text "second", .string, .choiceByLookup [.text "red", .text "blue"], false, .zero, rfl⟩,
    ⟨.text "third", .string, .choiceByLookup [.text "red", .text "green"], false, .zero, rfl⟩,
    ⟨.text "fourth", .string, .choice [.text "red", .text "pink"], false, .zero, rfl⟩]

/-- The same columns, where each text ends in quotes, a backslash and the start of a comment. -/
def oddTable : Table where
  name := .text "colors'\"\\--"
  columns := [
    ⟨.text "first'\"\\--", .string,
      .choiceByLookup [.text "red'\"\\--", .text "blue'\"\\--"], false, .zero, rfl⟩,
    ⟨.text "second'\"\\--", .string,
      .choiceByLookup [.text "red'\"\\--", .text "blue'\"\\--"], false, .zero, rfl⟩,
    ⟨.text "third'\"\\--", .string,
      .choiceByLookup [.text "red'\"\\--", .text "green'\"\\--"], false, .zero, rfl⟩,
    ⟨.text "fourth'\"\\--", .string,
      .choice [.text "red'\"\\--", .text "pink'\"\\--"], false, .zero, rfl⟩]

theorem sameTokens_of_oddTable :
    Engine.postgresql ≠ .clickhouse ∧ plainTable.Renamed (· ++ "'\"\\--") oddTable ∧
      plainTable.Renames (· ++ "'\"\\--") ∧ plainTable.NamesApart ∧ oddTable.NamesApart ∧
      Agree (fun s s' => SameTokens .postgresql (s.render .postgresql) (s'.render .postgresql))
        (Target.createTable { dialect := .of .postgresql } plainTable)
        (Target.createTable { dialect := .of .postgresql } oddTable) ∧
      ∀ now count origin,
        Agree (fun s s' => SameTokens .postgresql (s.render .postgresql) (s'.render .postgresql))
          (Target.insertRows { dialect := .of .postgresql } now plainTable count origin)
          (Target.insertRows { dialect := .of .postgresql } now oddTable count origin) := by
  have renamed : plainTable.Renamed (· ++ "'\"\\--") oddTable := by
    refine ⟨rfl, .cons ?_ (.cons ?_ (.cons ?_ (.cons ?_ .nil)))⟩ <;> exact ⟨rfl, rfl, rfl, rfl, rfl⟩
  have renames : plainTable.Renames (· ++ "'\"\\--") :=
    ⟨fun _ _ _ _ same => (String.append_left_inj _).1 same, by decide⟩
  have faithful : ∀ p ∈ plainTable.lookupPayloads, ∀ q ∈ plainTable.lookupPayloads,
      digestName p = digestName q → p = q := by decide +kernel
  have faithful' : ∀ p ∈ oddTable.lookupPayloads, ∀ q ∈ oddTable.lookupPayloads,
      digestName p = digestName q → p = q := by decide +kernel
  have apart : plainTable.NamesApart :=
    Table.namesApart_of_digests (by decide +kernel) fun p hp q hq => faithful p hp q hq
  have apart' : oddTable.NamesApart :=
    Table.namesApart_of_digests (by decide +kernel) fun p hp q hq => faithful' p hp q hq
  exact ⟨by decide, renamed, renames, apart, apart',
    sameTokens_of_renamed (by decide) rfl renamed renames apart apart'⟩

end Statements
end SyntheticRows
