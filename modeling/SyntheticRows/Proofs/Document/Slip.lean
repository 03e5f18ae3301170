import SyntheticRows.Proofs.Document.StepSlip

/-!
# Slips in documents

The sections of a document are read one after the other: the tables, the database, the settings and
the scenario. A document is read, or what is wrong with it is reported, unless it slips in one of
its sections or has a number with too many digits for a report.
-/
namespace SyntheticRows

namespace Value

/-- The entries of a mapping. -/
def entries : Value → List (Value × Value)
  | mapping entries => entries
  | _ => []

/-- A section of a document; a null or empty one counts as not there. -/
def sectionAt (v : Value) (key : String) : Option Value := (v.content? key).filter isPresent

/-- The section of the tables. -/
def tables (v : Value) : Value := (v.sectionAt "tables").getD (mapping [])

/-- The value is a mapping with texts for keys. -/
def IsFields : Value → Prop
  | mapping entries => ∀ entry ∈ entries, ∃ s, entry.1 = text s
  | _ => False

/-- The value can be written in JSON as it is: no number but whole and finite ones, and no key but
texts, at any depth. -/
inductive IsJson : Value → Prop
  | null : IsJson null
  | bool (b : Bool) : IsJson (bool b)
  | int (i : Int) : IsJson (int i)
  | float {x : Double} : (Number.float x).isFinite = true → IsJson (float x)
  | text (s : String) : IsJson (text s)
  | list {items : List Value} : (∀ v ∈ items, IsJson v) → IsJson (list items)
  | mapping {entries : List (Value × Value)} : (mapping entries).IsFields →
    (∀ entry ∈ entries, IsJson entry.2) → IsJson (mapping entries)

theorem isJson_nil : (mapping []).IsJson := .mapping (by simp [IsFields]) (by simp)

theorem IsJson.cons {v : Value} {entries : List (Value × Value)} (s : String) (h : v.IsJson)
    (rest : (Value.mapping entries).IsJson) :
    (Value.mapping ((Value.text s, v) :: entries)).IsJson := by
  cases rest with
  | mapping keys contents =>
    refine .mapping (fun entry he => ?_) fun entry he => ?_ <;>
      rcases List.mem_cons.1 he with rfl | he
    · exact ⟨s, rfl⟩
    · exact keys entry he
    · exact h
    · exact contents entry he

end Value

namespace Document

/-- How the reader of the tables slips. -/
def TablesSlip (v : Value) : Error → Prop :=
  Slips.AtFirst (fun entry => readTable entry.1 entry.2) (fun entry => TableSlip entry.1 entry.2)
    v.entries

/-- How the reader of a document slips. -/
inductive DocumentSlip (v : Value) : Error → Prop
  | tables {e} : TablesSlip v.tables e → DocumentSlip v e
  | database {tables given} : readTables v.tables = .ok tables →
    v.sectionAt "database" = some given → ¬given.IsFields → DocumentSlip v .wrongKind
  | settings {tables database given} : readTables v.tables = .ok tables →
    (v.sectionAt "database").mapM (readSettings DatabaseConfig.ofFields) = .ok database →
    v.sectionAt "settings" = some given → ¬given.IsFields → DocumentSlip v .wrongKind
  | scenario {tables database settings given e} : readTables v.tables = .ok tables →
    (v.sectionAt "database").mapM (readSettings DatabaseConfig.ofFields) = .ok database →
    (v.sectionAt "settings").mapM (readSettings GenerationSettings.ofFields) = .ok settings →
    v.sectionAt "scenario" = some given → ScenarioSlip tables given e → DocumentSlip v e

variable {w : Prop} {v : Value} {entries : Entries} {e : Error} {start tables : Tables}

section Tables

/-- Tables are declared one after the other, up to the first that slips. -/
theorem foldlM_declare_slips (h : w → (Value.mapping entries).isWritable = true) :
    Slips w (TablesSlip (.mapping entries)) (entries.foldlM declare start) := by
  induction entries generalizing start with
  | nil => exact (Slips.ok start).never fun e => Slips.atFirst_nil
  | cons entry entries ih =>
    have parts (hw : w) := Value.entriesWritable_iff.1 (h hw)
    have rest (hw : w) : (Value.mapping entries).isWritable = true :=
      Value.entriesWritable_iff.2 fun e he => parts hw e (by simp [he])
    rw [List.foldlM_cons, declare, bind_assoc]
    refine (Slips.bind (readTable_slips (fun hw => (parts hw entry (by simp)).1)
      fun hw => (parts hw entry (by simp)).2) fun t _ => ih rest).congr fun e =>
        Slips.atFirst_cons

theorem readTables_slips (h : w → v.isWritable = true) :
    Slips w (TablesSlip v) (readTables v) := by
  cases v with
  | mapping entries => exact foldlM_declare_slips h
  | _ => exact asMapping_bind_slips (fun _ h => nomatch h) fun e h => absurd h Slips.atFirst_nil

theorem namesWritable_of_declare {entry : Value × Value} (named : NamesWritable start)
    (h : declare start entry = .ok tables) : NamesWritable tables := by
  obtain ⟨t, read, h⟩ := except_ok_of_bind h
  cases h
  intro e he
  rcases Value.mem_insertEntry he with set | old
  · rw [set]
    exact isWritable_name read
  · exact named e old

theorem namesWritable_of_foldlM (named : NamesWritable start)
    (h : entries.foldlM declare start = .ok tables) : NamesWritable tables := by
  induction entries generalizing start with
  | nil => cases h; exact named
  | cons entry entries ih =>
    rw [List.foldlM_cons] at h
    obtain ⟨middle, first, h⟩ := except_ok_of_bind h
    exact ih (namesWritable_of_declare named first) h

theorem namesWritable_of_readTables (h : readTables v = .ok tables) : NamesWritable tables := by
  obtain ⟨entries, _, h⟩ := except_ok_of_bind h
  exact namesWritable_of_foldlM (fun _ none => by cases none) h

end Tables

section Sections

variable {α : Type} {part : Option Value}

theorem asFields_of_isFields (h : v.IsFields) : asFields v = .ok v.entries := by
  cases v with
  | mapping entries =>
    refine if_pos (List.all_eq_true.2 fun entry he => ?_)
    obtain ⟨s, key⟩ := h entry he
    rw [key]
  | _ => exact h.elim

theorem asFields_of_not_isFields (h : ¬v.IsFields) : asFields v = .error .wrongKind := by
  cases v with
  | mapping entries =>
    refine if_neg fun all => h fun entry he => ?_
    have key := List.all_eq_true.1 all entry he
    split at key
    · rename_i s hs
      exact ⟨s, hs⟩
    · cases key
  | _ => rfl

theorem asFields_slips : Slips w (fun e => ¬v.IsFields ∧ e = .wrongKind) (asFields v) := by
  by_cases fields : v.IsFields
  · rw [asFields_of_isFields fields]
    exact (Slips.ok _).never fun e hs => hs.1 fields
  · rw [asFields_of_not_isFields fields]
    refine ⟨?_, fun e he => .inr (.inr ⟨fields, by cases he; rfl⟩)⟩
    rintro e ⟨_, rfl⟩
    exact ⟨rfl, by simp⟩

/-- What is wrong with the fields themselves is reported. -/
theorem readSettings_slips {ofFields : Settings.Fields → Except Rejection α} :
    Slips w (fun e => ¬v.IsFields ∧ e = .wrongKind) (readSettings ofFields v) := by
  refine Slips.before asFields_slips fun fields _ => ?_
  cases ofFields fields with
  | ok settings => exact Slips.ok settings
  | error rejection => exact ⟨fun _ h => h.elim, fun e he => .inl ⟨_, by cases he; rfl⟩⟩

/-- A section that is not there does not slip. -/
theorem section_slips {S : Value → Error → Prop} {read : Value → Except Error α}
    (h : ∀ given, part = some given → Slips w (S given) (read given)) :
    Slips w (fun e => ∃ given, part = some given ∧ S given e) (part.mapM read) := by
  cases part with
  | none => exact (Slips.ok none).never (by simp)
  | some given => exact (h given rfl).map.congr fun e => by simp

end Sections

theorem isWritable_sectionAt {key : String} {given : Value} (hv : v.isWritable = true)
    (h : v.sectionAt key = some given) : given.isWritable = true := by
  obtain ⟨found, _⟩ := Option.filter_eq_some_iff.1 h
  obtain ⟨entries, rfl, found⟩ := Value.entries_of_content? found
  exact Value.isWritable_find? hv found

theorem isWritable_tables (hv : v.isWritable = true) : v.tables.isWritable = true := by
  unfold Value.tables
  cases h : v.sectionAt "tables" with
  | none => rfl
  | some given => exact isWritable_sectionAt hv h

theorem read_mapping : read (.mapping entries) =
    readTables (Value.mapping entries).tables >>= fun tables =>
      ((Value.mapping entries).sectionAt "database").mapM
        (readSettings DatabaseConfig.ofFields) >>= fun database =>
      ((Value.mapping entries).sectionAt "settings").mapM
        (readSettings GenerationSettings.ofFields) >>= fun settings =>
      ((Value.mapping entries).sectionAt "scenario").mapM (readScenario tables) >>=
        fun scenario => .ok ⟨scenario, tables, database, settings.getD {}⟩ := rfl

theorem DocumentSlip.mapping (h : DocumentSlip v e) : ∃ entries, v = .mapping entries := by
  cases v with
  | mapping entries => exact ⟨entries, rfl⟩
  | _ =>
    cases h with
    | tables first => exact absurd first Slips.atFirst_nil
    | database _ there | settings _ _ there | scenario _ _ _ there => cases there

theorem read_slips : Slips (v.isWritable = true) (DocumentSlip v) (read v) := by
  refine asMapping_bind_slips (fun entries h => ?_) fun e hs => hs.mapping
  subst h
  change Slips _ _ (read (.mapping entries))
  rw [read_mapping]
  refine (Slips.bind (readTables_slips isWritable_tables) fun tables ht =>
    Slips.bind (section_slips fun _ _ => readSettings_slips) fun database hd =>
      Slips.bind (section_slips fun _ _ => readSettings_slips) fun settings hs =>
        Slips.before (section_slips fun given hg => readScenario_slips
          (namesWritable_of_readTables ht) fun hw => isWritable_sectionAt hw hg) fun _ _ =>
            Slips.ok _).congr fun e => ?_
  constructor
  · intro slip
    cases slip with
    | tables first => exact .inl first
    | database ht there wrong => exact .inr ⟨_, ht, .inl ⟨_, there, wrong, rfl⟩⟩
    | settings ht hd there wrong =>
      exact .inr ⟨_, ht, .inr ⟨_, hd, .inl ⟨_, there, wrong, rfl⟩⟩⟩
    | scenario ht hd hs there slip =>
      exact .inr ⟨_, ht, .inr ⟨_, hd, .inr ⟨_, hs, _, there, slip⟩⟩⟩
  · rintro (first | ⟨tables, ht, ⟨given, there, wrong, rfl⟩ | ⟨database, hd,
      ⟨given, there, wrong, rfl⟩ | ⟨settings, hs, given, there, slip⟩⟩⟩)
    · exact .tables first
    · exact .database ht there wrong
    · exact .settings ht hd there wrong
    · exact .scenario ht hd hs there slip

/-- A document is read, or what is wrong with it is reported, unless it has a number with too many
digits for a report, or slips; and it fails by a slip exactly if it has that slip. -/
theorem escapes_of_read (v : Value) :
    (∀ e, DocumentSlip v e → read v = .error e ∧ ∀ cause, e ≠ .configuration cause) ∧
    ∀ e, read v = .error e → (∃ cause, e = .configuration cause) ∨
      (e = .tooManyDigits ∧ v.isWritable = false) ∨ DocumentSlip v e := by
  refine ⟨read_slips.exactly, fun e he => ?_⟩
  simpa using read_slips.otherwise e he

/-- A table with a column that has no type. -/
def untypedStock : Value :=
  .mapping [(.text "tables", .mapping [(.text "stock", .mapping [(.text "columns", .list [
    .mapping [(.text "name", .text "unit"),
      (.text "generator", .mapping [(.text "type", .text "uuid")])]])])])]

theorem untypedStock_isJson : untypedStock.IsJson := by
  have generator := Value.IsJson.cons "type" (.text "uuid") Value.isJson_nil
  have column := Value.IsJson.cons "name" (.text "unit")
    (Value.IsJson.cons "generator" generator Value.isJson_nil)
  have columns : (Value.list [_]).IsJson := .list fun v hv => List.mem_singleton.1 hv ▸ column
  have stock := Value.IsJson.cons "columns" columns Value.isJson_nil
  exact .cons "tables" (.cons "stock" stock Value.isJson_nil) Value.isJson_nil

theorem untypedStock_slips : DocumentSlip untypedStock .missingEntry := by
  refine .tables ⟨[], _, [], rfl, by simp, .column rfl rfl rfl rfl ⟨[], _, [], rfl, by simp, ?_⟩⟩
  exact .untyped rfl rfl rfl

theorem missingEntry_of_untypedStock :
    DocumentSlip untypedStock .missingEntry ∧ read untypedStock = .error .missingEntry :=
  ⟨untypedStock_slips, ((escapes_of_read untypedStock).1 _ untypedStock_slips).1⟩

/-- The missing type is not reported, like other missing keys. -/
theorem escaped_of_untypedStock : ¬∀ v : Value, v.IsJson →
    (∃ d, read v = .ok d) ∨ ∃ cause, read v = .error (.configuration cause) := by
  intro claim
  obtain ⟨fails, proper⟩ := read_slips.exactly _ untypedStock_slips
  rcases claim untypedStock untypedStock_isJson with ⟨d, h⟩ | ⟨cause, h⟩
  · cases fails.symm.trans h
  · exact proper cause (Except.error.inj (fails.symm.trans h))

end Document
end SyntheticRows
