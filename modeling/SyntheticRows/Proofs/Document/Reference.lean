import SyntheticRows.Document.Reading
import SyntheticRows.Proofs.Document.Entries
import SyntheticRows.Proofs.Pairing

/-!
# References to tables

A step that generates rows looks its reference up among the declared tables and works on the table
under the name that the declaration gives. A step that transforms rows takes the reference itself
for the name. The two mean the same table exactly if the declaration gives no other name.
-/
namespace SyntheticRows

namespace Value

/-- What a document declares under a key of its tables; of equal keys the last one counts. -/
def declaration? (v : Value) (key : String) : Option Value :=
  match v.content? "tables" with
  | some (.mapping entries) => find? entries.reverse key
  | _ => none

/-- What a document says of the step at a place of its scenario. -/
def step? (v : Value) (place : ℕ) : Option Value := do
  let steps ← (← v.content? "scenario").content? "steps"
  (← steps.items?)[place]?

/-- The step is to generate rows of the table with a key. -/
def Generates (step : Value) (key : String) : Prop :=
  ∃ spec, step.content? "generate" = some spec ∧ spec.content? "table" = some (.text key)

/-- The step is to transform rows of the table with a key. -/
def Transforms (step : Value) (key : String) : Prop :=
  step.content? "generate" = none ∧
    ∃ spec, step.content? "transform" = some spec ∧ spec.content? "table" = some (.text key)

/-- The name that a declaration gives, or else its key. -/
def declaredName (declaration : Value) (key : String) : Value :=
  (declaration.content? "name").getD (.text key)

end Value

namespace Document

/-- The step at a place of the scenario. -/
def step? (d : Document) (place : ℕ) : Option Step := d.scenario.bind (·.steps[place]?)

variable {v declaration step default : Value} {d : Document} {tables start : Tables}
  {entries : Entries} {key context : String} {place : ℕ} {s : Step} {t : Table}

/-- Reads the columns of a table of known name. -/
def readColumns (context : String) (name description : Value) : Value → Except Error Table
  | .list items => items.mapM (readColumn context) >>= fun columns =>
    Table.make name columns description
  | _ => refuse (.columnsNotList name)

theorem readTable_mapping : readTable default (.mapping entries) =
    if (getD entries "name" default).isPresent then
      (getD entries "name" default).shown >>= fun text =>
        require entries "columns" ("table " ++ text) >>=
          readColumns ("table " ++ text ++ " column") (getD entries "name" default)
            (getD entries "description" .null)
    else refuse (.missingKey "table" "name") := by
  simp only [readTable, asMapping, except_ok_bind]
  cases (getD entries "name" default).isPresent with
  | false => rfl
  | true =>
    simp only [Bool.not_true, if_true, if_false, Bool.false_eq_true]
    congr 1

theorem name_of_make {name description : Value} {columns : List Column}
    (h : Table.make name columns description = .ok t) : t.name = name := by
  unfold Table.make at h
  split at h
  · split at h
    · split at h
      · cases h
      · cases h; rfl
    · exact absurd h refuse_ne_ok
  · exact absurd h refuse_ne_ok

theorem name_of_readTable (h : readTable default v = .ok t) :
    t.name = (v.content? "name").getD default := by
  obtain ⟨entries, mapping, _⟩ := except_ok_of_bind h
  obtain rfl := asMapping_ok_iff.1 mapping
  rw [readTable_mapping] at h
  split at h
  · obtain ⟨_, _, h⟩ := except_ok_of_bind h
    obtain ⟨given, _, h⟩ := except_ok_of_bind h
    cases given with
    | list items =>
      obtain ⟨columns, _, h⟩ := except_ok_of_bind h
      exact name_of_make h
    | _ => exact absurd h refuse_ne_ok
  · exact absurd h refuse_ne_ok

section Tables

/-- The table that a key refers to. -/
def Tables.get? (tables : Tables) (key : String) : Option Table :=
  (tables.find? fun e => (Value.text key).same e.1).map Prod.snd

/-- Reads a declaration and sets it among the tables. -/
def declare (tables : Tables) (entry : Value × Value) : Except Error Tables := do
  return Value.insertEntry entry.1 (← readTable entry.1 entry.2) tables

/-- A table is found after a declaration if it is the one declared, or was found before. -/
theorem get?_declare {entry : Value × Value} (key : String)
    (h : declare start entry = .ok tables) : ∃ t, readTable entry.1 entry.2 = .ok t ∧
      tables.get? key = if (Value.text key).same entry.1 then some t else start.get? key := by
  obtain ⟨t, read, h⟩ := except_ok_of_bind h
  cases h
  exact ⟨t, read, Value.find_insertEntry⟩

/-- The last declaration of a key is the one that counts. -/
theorem get?_foldlM_declare (h : entries.foldlM declare start = .ok tables) :
    (∀ declaration, Value.find? entries.reverse key = some declaration →
      ∃ t, readTable (.text key) declaration = .ok t ∧ tables.get? key = some t) ∧
    (Value.find? entries.reverse key = none → tables.get? key = start.get? key) := by
  induction entries generalizing start with
  | nil => cases h; simp [Value.find?]
  | cons entry entries ih =>
    rw [List.foldlM_cons] at h
    obtain ⟨middle, first, h⟩ := except_ok_of_bind h
    obtain ⟨t, read, found⟩ := get?_declare key first
    obtain ⟨later, kept⟩ := ih h
    rw [List.reverse_cons, Value.find?_append]
    cases there : Value.find? entries.reverse key with
    | some declaration => simpa [there] using later declaration there
    | none =>
      rw [kept there, found, Value.find?_cons, Option.none_or]
      split
      · rename_i own
        rw [Value.text_same] at own
        exact ⟨fun declaration hd => ⟨t, by cases hd; rw [own, read], rfl⟩, by simp⟩
      · exact ⟨by simp [Value.find?], fun _ => rfl⟩

end Tables

section Steps

theorem table_of_make {rows : Value} {batches : List Batch} {g : GenerateStep}
    (h : GenerateStep.make t rows batches = .ok g) : g.table = t := by
  obtain ⟨_, _, h⟩ := except_ok_of_bind h
  obtain ⟨_, _, h⟩ := except_ok_of_bind h
  split at h
  · exact absurd h refuse_ne_ok
  · cases h; rfl

theorem get?_of_resolveTable (h : resolveTable tables context (.text key) = .ok t) :
    tables.get? key = some t := by
  simp only [resolveTable] at h
  split at h
  · rename_i found
    cases h
    rw [Tables.get?, found, Option.map_some]
  · exact absurd h refuse_ne_ok

theorem readStep_of_generate {spec : Value} (h : step.content? "generate" = some spec) :
    readStep tables context step = readGenerate tables context spec := by
  obtain ⟨entries, rfl, found⟩ := Value.entries_of_content? h
  simp only [readStep, asMapping, except_ok_bind, found]

theorem readStep_of_transform {spec : Value} (hg : step.content? "generate" = none)
    (h : step.content? "transform" = some spec) :
    readStep tables context step = readTransform context spec := by
  obtain ⟨entries, rfl, found⟩ := Value.entries_of_content? h
  simp only [Value.content?] at hg
  simp only [readStep, asMapping, except_ok_bind, hg, found]

/-- A step that generates rows works on the table that its reference is resolved to. -/
theorem tableName_of_generates (h : readStep tables context step = .ok s)
    (hg : step.Generates key) : ∃ g, s = .generate g ∧ tables.get? key = some g.table := by
  obtain ⟨spec, hspec, reference⟩ := hg
  rw [readStep_of_generate hspec] at h
  obtain ⟨entries, rfl, found⟩ := Value.entries_of_content? reference
  simp only [readGenerate, asMapping, except_ok_bind, require, found] at h
  obtain ⟨table, resolved, h⟩ := except_ok_of_bind h
  obtain ⟨rows, _, h⟩ := except_ok_of_bind h
  obtain ⟨batches, _, h⟩ := except_ok_of_bind h
  obtain ⟨g, made, h⟩ := except_ok_of_bind h
  cases h
  refine ⟨g, rfl, ?_⟩
  rw [table_of_make made]
  exact get?_of_resolveTable resolved

/-- A step that transforms rows works on the table that its reference spells. -/
theorem tableName_of_transforms (h : readStep tables context step = .ok s)
    (ht : step.Transforms key) : ∃ t, s = .transform t ∧ t.tableName = .text key := by
  obtain ⟨other, spec, hspec, reference⟩ := ht
  rw [readStep_of_transform other hspec] at h
  obtain ⟨entries, rfl, found⟩ := Value.entries_of_content? reference
  simp only [readTransform, asMapping, except_ok_bind, require, found] at h
  obtain ⟨name, spelled, h⟩ := except_ok_of_bind h
  obtain ⟨batches, _, h⟩ := except_ok_of_bind h
  cases h
  cases spelled
  exact ⟨_, rfl, rfl⟩

end Steps

section Documents

/-- What was read are the tables and the scenario of a mapping. -/
theorem parts_of_read (h : read v = .ok d) : ∃ entries, v = .mapping entries ∧
    readTables ((section? entries "tables").getD (.mapping [])) = .ok d.tables ∧
    (section? entries "scenario").mapM (readScenario d.tables) = .ok d.scenario := by
  obtain ⟨entries, mapping, h⟩ := except_ok_of_bind h
  obtain ⟨tables, declared, h⟩ := except_ok_of_bind h
  obtain ⟨_, _, h⟩ := except_ok_of_bind h
  obtain ⟨_, _, h⟩ := except_ok_of_bind h
  obtain ⟨scenario, told, h⟩ := except_ok_of_bind h
  cases h
  exact ⟨entries, asMapping_ok_iff.1 mapping, declared, told⟩

theorem table?_of_read (h : read v = .ok d) (hd : v.declaration? key = some declaration) :
    ∃ t, readTable (.text key) declaration = .ok t ∧ d.table? key = some t := by
  obtain ⟨entries, rfl, declared, _⟩ := parts_of_read h
  simp only [Value.declaration?, Value.content?] at hd
  split at hd
  · rename_i given found
    have present : (Value.mapping given).isPresent = true := by
      cases given with
      | nil => cases hd
      | cons => rfl
    simp only [section?, found, Option.filter, present, if_true, Option.getD_some] at declared
    exact (get?_foldlM_declare declared).1 declaration hd
  · cases hd

/-- A section that has something under a key counts as there. -/
theorem section?_of_find? {name : String} {given : Entries} {w : Value}
    (found : Value.find? entries name = some (.mapping given))
    (there : Value.find? given key = some w) : section? entries name = some (.mapping given) := by
  have present : (Value.mapping given).isPresent = true := by
    cases given with
    | nil => cases there
    | cons => rfl
  simp [section?, found, present]

theorem step?_of_read (h : read v = .ok d) (hs : v.step? place = some step) :
    ∃ s context, d.step? place = some s ∧ readStep d.tables context step = .ok s := by
  obtain ⟨entries, rfl, _, told⟩ := parts_of_read h
  simp only [Value.step?, Option.bind_eq_bind, Option.bind_eq_some_iff] at hs
  obtain ⟨scenario, found, steps, there, items, listed, hs⟩ := hs
  obtain ⟨given, rfl, inside⟩ := Value.entries_of_content? there
  rw [section?_of_find? found inside] at told
  obtain ⟨scenario, read, whole⟩ := except_ok_of_map told
  obtain ⟨_, mapping, read⟩ := except_ok_of_bind read
  cases mapping
  obtain ⟨all, each, read⟩ := except_ok_of_bind read
  cases read
  rw [getD, inside, Option.getD_some, readEach_ok_iff] at each
  obtain ⟨items', listed', each⟩ := each
  obtain rfl : items = items' := Option.some.inj (listed.symm.trans listed')
  have placed : items.zipIdx[place]? = some (step, place) := by
    simp [List.getElem?_zipIdx, hs]
  obtain ⟨s, hs, read⟩ := partner_at each placed
  exact ⟨s, _, by simp [step?, ← whole, hs], read⟩

/-- The names under which two steps work on a table that both refer to by its key. -/
theorem tableNames_of_read (h : read v = .ok d) (hd : v.declaration? key = some declaration)
    {i j : ℕ} {generate transform : Value}
    (hi : v.step? i = some generate) (hg : generate.Generates key)
    (hj : v.step? j = some transform) (ht : transform.Transforms key) :
    ∃ g t, d.step? i = some (.generate g) ∧ d.step? j = some (.transform t) ∧
      g.table.name = declaration.declaredName key ∧ t.tableName = .text key := by
  obtain ⟨t, read, known⟩ := table?_of_read h hd
  obtain ⟨_, _, generated, readStep⟩ := step?_of_read h hi
  obtain ⟨g, rfl, resolved⟩ := tableName_of_generates readStep hg
  obtain rfl : t = g.table := Option.some.inj (known.symm.trans resolved)
  obtain ⟨_, _, transformed, readStep⟩ := step?_of_read h hj
  obtain ⟨t, rfl, spelled⟩ := tableName_of_transforms readStep ht
  exact ⟨g, t, generated, transformed, name_of_readTable read, spelled⟩

/-- Two steps that refer to one table by its key work on tables of one name exactly if the
declaration of the table gives no other name. -/
theorem sameTable_iff_of_read (h : read v = .ok d) (hd : v.declaration? key = some declaration)
    {i j : ℕ} {generate transform : Value}
    (hi : v.step? i = some generate) (hg : generate.Generates key)
    (hj : v.step? j = some transform) (ht : transform.Transforms key) :
    ∃ s t, d.step? i = some s ∧ d.step? j = some t ∧
      (s.tableName = t.tableName ↔
        ∀ name, declaration.content? "name" = some name → name = .text key) := by
  obtain ⟨g, t, generated, transformed, named, spelled⟩ := tableNames_of_read h hd hi hg hj ht
  refine ⟨_, _, generated, transformed, ?_⟩
  simp only [Step.tableName, named, spelled, Value.declaredName]
  cases declaration.content? "name" <;> simp

end Documents

section Ledgers

/-- A table of one column, with whatever else its declaration says. -/
def ledger (more : Entries) : Value :=
  .mapping (more ++ [(.text "columns", .list [.mapping [
    (.text "name", .text "entry"), (.text "type", .text "integer"),
    (.text "generator", .mapping [(.text "type", .text "uuid")])]])])

/-- A table that is filled and then transformed, both times under its key. -/
def ledgerDocument (more : Entries) : Value :=
  .mapping [
    (.text "tables", .mapping [(.text "ledger", ledger more)]),
    (.text "scenario", .mapping [(.text "steps", .list [
      .mapping [(.text "generate", .mapping [(.text "table", .text "ledger"),
        (.text "rows", .int 1)])],
      .mapping [(.text "transform", .mapping [(.text "table", .text "ledger")])]])])]

theorem ledger_declared (more : Entries) :
    (ledgerDocument more).declaration? "ledger" = some (ledger more) := rfl

theorem ledger_generates (more : Entries) :
    ∃ step, (ledgerDocument more).step? 0 = some step ∧ step.Generates "ledger" :=
  ⟨_, rfl, _, rfl, rfl⟩

theorem ledger_transforms (more : Entries) :
    ∃ step, (ledgerDocument more).step? 1 = some step ∧ step.Transforms "ledger" :=
  ⟨_, rfl, rfl, _, rfl, rfl⟩

theorem ledger_reads : (read (ledgerDocument [])).toOption.isSome = true := by
  decide +kernel

theorem sameTable_of_ledger : ∃ d s t, read (ledgerDocument []) = .ok d ∧ d.step? 0 = some s ∧
    d.step? 1 = some t ∧ s.tableName = t.tableName := by
  obtain ⟨d, h⟩ := except_ok_of_isSome ledger_reads
  obtain ⟨_, hi, hg⟩ := ledger_generates []
  obtain ⟨_, hj, ht⟩ := ledger_transforms []
  obtain ⟨s, t, generated, transformed, same⟩ :=
    sameTable_iff_of_read h (ledger_declared []) hi hg hj ht
  exact ⟨d, s, t, h, generated, transformed, same.2 (by intro name hn; cases hn)⟩

/-- The ledger under the name of a journal. -/
def asJournal : Entries := [(.text "name", .text "journal")]

theorem renamedLedger_reads : (read (ledgerDocument asJournal)).toOption.isSome = true := by
  decide +kernel

/-- The table is filled as the journal, and a ledger is transformed. -/
theorem otherTable_of_renamedLedger : ¬∀ (v : Value) (d : Document) (key : String)
    (declaration : Value) (i j : ℕ) (generate transform : Value) (s t : Step), read v = .ok d →
    v.declaration? key = some declaration →
    v.step? i = some generate → generate.Generates key →
    v.step? j = some transform → transform.Transforms key →
    d.step? i = some s → d.step? j = some t → s.tableName = t.tableName := by
  intro claim
  obtain ⟨d, h⟩ := except_ok_of_isSome renamedLedger_reads
  have declared := ledger_declared asJournal
  obtain ⟨_, hi, hg⟩ := ledger_generates asJournal
  obtain ⟨_, hj, ht⟩ := ledger_transforms asJournal
  obtain ⟨g, t, generated, transformed, named, spelled⟩ :=
    tableNames_of_read h declared hi hg hj ht
  have same : g.table.name = t.tableName :=
    claim _ _ _ _ _ _ _ _ _ _ h declared hi hg hj ht generated transformed
  have journal : (ledger asJournal).declaredName "ledger" = .text "journal" := rfl
  rw [named, spelled, journal] at same
  simp at same

end Ledgers

end Document
end SyntheticRows
