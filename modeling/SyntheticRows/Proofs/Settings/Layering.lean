import Mathlib.Tactic.MkIffOfInductiveProp
import SyntheticRows.CommandLine.Program
import SyntheticRows.Proofs.Compile.Failure
import SyntheticRows.Proofs.Run.Connecting
import SyntheticRows.Proofs.Value.Parts
import SyntheticRows.Run.Generator
import SyntheticRows.Settings.Generation

/-!
# Layered settings

Overrides over a record that was read before change the fields that they name, and those only. They
are refused exactly if one of them is refused by its field, or if the port that results is none for
the driver that results.
-/
namespace SyntheticRows

/-!
## Overridden fields

Where overrides are layered over fields that were read before, a field is read from its override,
and keeps its content where it has none.
-/
namespace Settings

/-- Entries by name, as fields. -/
def named (entries : List (String × Value)) : Fields := entries.map fun e => (.text e.1, e.2)

/-- What a field holds after overrides that may name it: what its reader makes of the override, and
what it held before if there is none. -/
def Holds {α : Type} (overrides : Fields) (name : String) (reader : Reader α)
    (before after : α) : Prop :=
  match Value.find? overrides name with
  | none => after = before
  | some v => reader v = .ok after

section Lookup

variable {fields : Fields} {base overrides : List (String × Value)} {name key : String} {v : Value}

theorem find?_eq :
    Value.find? fields name = (fields.find? ((Value.text name).same ·.1)).map Prod.snd := by
  unfold Value.find?
  congr 2
  funext e
  cases e.1 <;> simp [Value.same, eq_comm]

theorem find?_insertEntry : Value.find? (Value.insertEntry (.text key) v fields) name =
    if key = name then some v else Value.find? fields name := by
  rw [find?_eq, Value.find_insertEntry, ← find?_eq]
  by_cases same : key = name
  · rw [if_pos (Value.text_same.2 (same ▸ rfl)), if_pos same]
  · rw [if_neg fun alike => same (Value.text.inj (Value.text_same.1 alike)).symm, if_neg same]

theorem find?_cons : Value.find? (named ((key, v) :: base)) name =
    if key = name then some v else Value.find? (named base) name := by
  by_cases h : key = name <;> simp [named, Value.find?, h]

theorem find?_eq_none (h : name ∉ base.map Prod.fst) : Value.find? (named base) name = none := by
  induction base with
  | nil => rfl
  | cons e base ih =>
    obtain ⟨key, v⟩ := e
    simp only [List.map_cons, List.mem_cons, not_or] at h
    rw [find?_cons, if_neg (Ne.symm h.1), ih h.2]

theorem mem_of_find? (h : Value.find? (named base) name = some v) : (name, v) ∈ base := by
  induction base with
  | nil => cases h
  | cons e base ih =>
    obtain ⟨key, w⟩ := e
    rw [find?_cons] at h
    split at h
    · next same => cases h; exact same ▸ List.mem_cons_self
    · exact List.mem_cons_of_mem _ (ih h)

theorem find?_of_mem (once : (base.map Prod.fst).Nodup) (h : (name, v) ∈ base) :
    Value.find? (named base) name = some v := by
  induction base with
  | nil => cases h
  | cons e base ih =>
    obtain ⟨key, w⟩ := e
    rw [List.map_cons, List.nodup_cons] at once
    rw [find?_cons]
    rcases List.mem_cons.1 h with here | later
    · cases here; exact if_pos rfl
    · have other : key ≠ name := by
        rintro rfl
        exact once.1 (List.mem_map.2 ⟨_, later, rfl⟩)
      rw [if_neg other, ih once.2 later]

/-- A check of everything that is given under some names is a check of the entries. -/
theorem forall_find?_iff {names : List String} {check : String → Value → Bool}
    (once : (base.map Prod.fst).Nodup) :
    (∀ name ∈ names, ∀ v, Value.find? (named base) name = some v → check name v = true) ↔
      ¬∃ e ∈ base, e.1 ∈ names ∧ check e.1 e.2 = false := by
  constructor
  · rintro taken ⟨⟨name, v⟩, there, known, refused⟩
    have passed := taken name known v (find?_of_mem once there)
    exact Bool.noConfusion (passed.symm.trans refused)
  · intro none_refused name known v given
    by_contra refused
    exact none_refused ⟨(name, v), mem_of_find? given, known, Bool.eq_false_iff.2 refused⟩

/-- Each override is layered over what is there by then, so the induction is over the overrides,
for any fields below them. -/
theorem find?_layered (once : (overrides.map Prod.fst).Nodup) :
    Value.find? (layered base (named overrides)) name =
      (Value.find? (named overrides) name).or (Value.find? (named base) name) := by
  change Value.find? ((named overrides).foldl _ (named base)) name = _
  generalize named base = fields
  induction overrides generalizing fields with
  | nil => rfl
  | cons o overrides ih =>
    obtain ⟨key, v⟩ := o
    rw [List.map_cons, List.nodup_cons] at once
    have rest := ih once.2 (Value.insertEntry (.text key) v fields)
    rw [find?_insertEntry] at rest
    rw [find?_cons]
    refine rest.trans ?_
    by_cases same : key = name
    · subst same
      simp [find?_eq_none once.1]
    · simp [same]

/-- Leaving nulls out leaves nothing else out. -/
theorem given_named : ∃ kept, given (named overrides) = named kept ∧ kept.Sublist overrides ∧
    ∀ o, o ∈ kept ↔ o ∈ overrides ∧ o.2 ≠ .null := by
  classical
  refine ⟨overrides.filter fun o => o.2 ≠ .null, ?_, List.filter_sublist, fun o => by simp⟩
  rw [given, named, List.filter_map]
  refine congrArg (List.map _) (List.filter_congr fun o _ => ?_)
  obtain ⟨name, v⟩ := o
  cases v <;> simp

end Lookup

section Reading

variable {α : Type} {base overrides : List (String × Value)} {fields : Fields} {name : String}
  {reader : Reader α} {default before after other : α}

theorem readField_ok_iff :
    readField fields name reader default = .ok after ↔ Holds fields name reader default after := by
  unfold readField Holds
  cases Value.find? fields name with
  | none => simp [eq_comm]
  | some v => cases h : reader v <;> simp [Except.mapError, h]

theorem Holds.unique (h : Holds fields name reader before after)
    (h' : Holds fields name reader before other) : other = after := by
  rw [← readField_ok_iff] at h h'
  exact Except.ok.inj (h'.symm.trans h)

/-- A field is refused exactly if it is given with a value that its reader refuses. -/
theorem exists_holds_iff : (∃ after, Holds fields name reader before after) ↔
    ∀ v, Value.find? fields name = some v → (reader v).isOk = true := by
  unfold Holds
  cases Value.find? fields name with
  | none => simp
  | some v => cases h : reader v <;> simp [h, Except.isOk, Except.toBool]

/-- Over fields that gave a content, overrides are read as if that content were the default. -/
theorem holds_layered (once : (overrides.map Prod.fst).Nodup)
    (known : Holds (named base) name reader default before) :
    Holds (layered base (named overrides)) name reader default after ↔
      Holds (named overrides) name reader before after := by
  unfold Holds at known ⊢
  rw [find?_layered once]
  cases Value.find? (named overrides) name with
  | some v => rfl
  | none =>
    cases there : Value.find? (named base) name with
    | none =>
      rw [there] at known
      simp [known]
    | some w =>
      rw [there] at known
      simp [known, eq_comm]

/-- A check after reading comes on top of what the field holds. -/
theorem holds_checked {reader : Reader α} (check : α → Except String α)
    (fits : check default = .ok default) :
    Holds fields name (readChecked reader check) default after ↔
      ∃ content, Holds fields name reader default content ∧ check content = .ok after := by
  unfold Holds readChecked
  cases Value.find? fields name with
  | none => simp [fits, eq_comm]
  | some v =>
    cases first : reader v with
    | error p => simp [first, bind, Except.bind]
    | ok a => cases h : check a <;> simp [first, bind, Except.bind, Except.mapError, h]

end Reading

end Settings

/-! ## Records -/

open Settings

namespace Settings

variable {α ε ε' : Type} {x : Except ε α} {f : ε → ε'} {refused : Prop} {holds : α → Prop}

/-- How reading ends: refused under a condition, and otherwise with what is described, and nothing
else. -/
structure Decides (x : Except ε α) (refused : Prop) (holds : α → Prop) : Prop where
  refuses : (∃ e, x = .error e) ↔ refused
  gives : ∀ a, x = .ok a ↔ holds a

theorem mapError_ok_iff {a : α} : x.mapError f = .ok a ↔ x = .ok a := by
  cases x <;> simp [Except.mapError]

theorem Decides.mapError (h : Decides x refused holds) : Decides (x.mapError f) refused holds := by
  refine ⟨?_, fun a => mapError_ok_iff.trans (h.gives a)⟩
  rw [← h.refuses]
  cases x <;> simp [Except.mapError]

/-- What is refused is what nothing describes. -/
theorem decides_of_gives (gives : ∀ a, x = .ok a ↔ holds a) (accepted : (∃ a, holds a) ↔ ¬refused) :
    Decides x refused holds := by
  refine ⟨?_, gives⟩
  rw [← not_iff_not, ← accepted]
  simp only [← gives]
  cases x <;> simp

end Settings

namespace GenerationSettings

/-- Whether the field of this name takes a value. -/
def accepts (name : String) (v : Value) : Bool :=
  if name = "batch_size" then (readChecked (readOptional readInteger) positive v).isOk
  else (readBool v).isOk

/-- Every field holds its override, or what it held before. -/
@[mk_iff]
structure LayersTo (overrides : Fields) (s s' : GenerationSettings) : Prop where
  batchSize : Holds overrides "batch_size" (readChecked (readOptional readInteger) positive)
    s.batchSize s'.batchSize
  createTable : Holds overrides "create_table" readBool s.createTable s'.createTable
  dropFirst : Holds overrides "drop_first" readBool s.dropFirst s'.dropFirst
  truncateFirst : Holds overrides "truncate_first" readBool s.truncateFirst s'.truncateFirst
  resumeSequences : Holds overrides "resume_sequences" readBool s.resumeSequences
    s'.resumeSequences
  optimize : Holds overrides "optimize" readBool s.optimize s'.optimize
  strictTemplates : Holds overrides "strict_templates" readBool s.strictTemplates
    s'.strictTemplates
  showProgress : Holds overrides "show_progress" readBool s.showProgress s'.showProgress

variable {s s' : GenerationSettings} {overrides : List (String × Value)} {fields : Fields}

/-- Reading a record is layering its fields over the defaults. -/
theorem ofFields_ok_iff : ofFields fields = .ok s' ↔ LayersTo fields {} s' := by
  constructor
  · intro h
    have read := mapError_ok_iff.1 h
    obtain ⟨_, batchSize, read⟩ := except_ok_of_bind read
    obtain ⟨_, createTable, read⟩ := except_ok_of_bind read
    obtain ⟨_, dropFirst, read⟩ := except_ok_of_bind read
    obtain ⟨_, truncateFirst, read⟩ := except_ok_of_bind read
    obtain ⟨_, resumeSequences, read⟩ := except_ok_of_bind read
    obtain ⟨_, optimize, read⟩ := except_ok_of_bind read
    obtain ⟨_, strictTemplates, read⟩ := except_ok_of_bind read
    obtain ⟨_, showProgress, read⟩ := except_ok_of_bind read
    cases read
    exact ⟨readField_ok_iff.1 batchSize, readField_ok_iff.1 createTable,
      readField_ok_iff.1 dropFirst, readField_ok_iff.1 truncateFirst,
      readField_ok_iff.1 resumeSequences, readField_ok_iff.1 optimize,
      readField_ok_iff.1 strictTemplates, readField_ok_iff.1 showProgress⟩
  · rintro ⟨batchSize, createTable, dropFirst, truncateFirst, resumeSequences, optimize,
      strictTemplates, showProgress⟩
    rw [← readField_ok_iff] at *
    simp only [ofFields, batchSize, createTable, dropFirst, truncateFirst, resumeSequences,
      optimize, strictTemplates, showProgress]
    rfl

/-- A record reads back from its own fields. -/
theorem layersTo_toFields : LayersTo (named s.toFields) {} s where
  batchSize := by
    obtain ⟨_ | n, _, _, _, _, _, _, _⟩ := s
    · rfl
    · have pos : 0 < (n.val : Int).toNat := n.2
      have checked : positive (some (n.val : Int)) = .ok (some n) := dif_pos pos
      show (positive (some (n.val : Int))).mapError _ = _
      rw [checked]
      rfl
  createTable := rfl
  dropFirst := rfl
  truncateFirst := rfl
  resumeSequences := rfl
  optimize := rfl
  strictTemplates := rfl
  showProgress := rfl

theorem layersTo_layered (once : (overrides.map Prod.fst).Nodup) :
    LayersTo (layered s.toFields (named overrides)) {} s' ↔ LayersTo (named overrides) s s' := by
  have own := layersTo_toFields (s := s)
  rw [layersTo_iff, layersTo_iff, holds_layered once own.batchSize,
    holds_layered once own.createTable, holds_layered once own.dropFirst,
    holds_layered once own.truncateFirst, holds_layered once own.resumeSequences,
    holds_layered once own.optimize, holds_layered once own.strictTemplates,
    holds_layered once own.showProgress]

theorem exists_layersTo_iff : (∃ s', LayersTo fields s s') ↔
    ∀ name ∈ fieldNames, ∀ v, Value.find? fields name = some v → accepts name v = true := by
  constructor
  · rintro ⟨s', h⟩ name known v given
    simp only [fieldNames, List.mem_cons, List.not_mem_nil, or_false] at known
    rcases known with rfl | rfl | rfl | rfl | rfl | rfl | rfl | rfl
    · exact exists_holds_iff.1 ⟨_, h.batchSize⟩ v given
    · exact exists_holds_iff.1 ⟨_, h.createTable⟩ v given
    · exact exists_holds_iff.1 ⟨_, h.dropFirst⟩ v given
    · exact exists_holds_iff.1 ⟨_, h.truncateFirst⟩ v given
    · exact exists_holds_iff.1 ⟨_, h.resumeSequences⟩ v given
    · exact exists_holds_iff.1 ⟨_, h.optimize⟩ v given
    · exact exists_holds_iff.1 ⟨_, h.strictTemplates⟩ v given
    · exact exists_holds_iff.1 ⟨_, h.showProgress⟩ v given
  · intro taken
    obtain ⟨batchSize, h₁⟩ := exists_holds_iff.2 (taken "batch_size" (by decide))
    obtain ⟨createTable, h₂⟩ := exists_holds_iff.2 (taken "create_table" (by decide))
    obtain ⟨dropFirst, h₃⟩ := exists_holds_iff.2 (taken "drop_first" (by decide))
    obtain ⟨truncateFirst, h₄⟩ := exists_holds_iff.2 (taken "truncate_first" (by decide))
    obtain ⟨resumeSequences, h₅⟩ := exists_holds_iff.2 (taken "resume_sequences" (by decide))
    obtain ⟨optimize, h₆⟩ := exists_holds_iff.2 (taken "optimize" (by decide))
    obtain ⟨strictTemplates, h₇⟩ := exists_holds_iff.2 (taken "strict_templates" (by decide))
    obtain ⟨showProgress, h₈⟩ := exists_holds_iff.2 (taken "show_progress" (by decide))
    exact ⟨⟨batchSize, createTable, dropFirst, truncateFirst, resumeSequences, optimize,
      strictTemplates, showProgress⟩, h₁, h₂, h₃, h₄, h₅, h₆, h₇, h₈⟩

/-- A field refuses its override. -/
def Refused (overrides : List (String × Value)) : Prop :=
  ∃ o ∈ overrides, o.1 ∈ fieldNames ∧ o.2 ≠ .null ∧ accepts o.1 o.2 = false

theorem override_decides (once : (overrides.map Prod.fst).Nodup) :
    Decides (s.override (named overrides)) (Refused overrides)
      (LayersTo (given (named overrides)) s) := by
  obtain ⟨kept, given_eq, sublist, mem_kept⟩ := @given_named overrides
  have kept_once := once.sublist (sublist.map Prod.fst)
  have read : s.override (named overrides) = ofFields (layered s.toFields (named kept)) := by
    rw [override, given_eq]
    cases kept with
    | nil => exact (ofFields_ok_iff.2 layersTo_toFields).symm
    | cons o kept => rfl
  rw [read, given_eq]
  apply decides_of_gives
  · intro s'
    rw [ofFields_ok_iff, layersTo_layered kept_once]
  · rw [exists_layersTo_iff, forall_find?_iff kept_once]
    simp only [Refused, mem_kept]
    grind

/-- Over a call's overrides, a name that no field has is refused as well, null or not. -/
theorem withOverrides_decides (once : (overrides.map Prod.fst).Nodup) :
    Decides (s.withOverrides (named overrides))
      ((∃ o ∈ overrides, o.1 ∉ fieldNames) ∨ Refused overrides)
      (fun s' => (∀ o ∈ overrides, o.1 ∈ fieldNames) ∧
        LayersTo (given (named overrides)) s s') := by
  have names : (named overrides).map (·.1.display) = overrides.map Prod.fst := by
    simp [named, Value.display, Function.comp_def]
  have decided := override_decides (s := s) once
  by_cases known : ∀ o ∈ overrides, o.1 ∈ fieldNames
  · have no_unknown : ((overrides.map Prod.fst).filter (!fieldNames.contains ·)) = [] := by
      simpa [List.filter_eq_nil_iff] using fun o v => known (o, v)
    have read : s.withOverrides (named overrides) =
        (s.override (named overrides)).mapError fun r => .configuration (.invalidOverrides r) := by
      rw [withOverrides, names, no_unknown]
      rfl
    rw [read]
    have all_known : ¬∃ o ∈ overrides, o.1 ∉ fieldNames := by simpa using known
    refine ⟨?_, fun s' => ?_⟩
    · rw [decided.mapError.refuses, or_iff_right all_known]
    · rw [decided.mapError.gives, and_iff_right known]
  · have some_unknown :
        ((overrides.map Prod.fst).filter (!fieldNames.contains ·)).isEmpty = false := by
      simpa [List.isEmpty_eq_false_iff, List.filter_eq_nil_iff] using known
    have unknown : ∃ o ∈ overrides, o.1 ∉ fieldNames := by simpa using known
    apply decides_of_gives
    · intro s'
      rw [withOverrides, names, some_unknown]
      exact iff_of_false refuse_ne_ok fun h => known h.1
    · exact iff_of_false (fun ⟨_, h⟩ => known h.1) fun h => h (.inl unknown)

end GenerationSettings

namespace DatabaseConfig

def fieldNames : List String := (toFields {}).map Prod.fst

/-- Whether the field of this name takes a value, whatever the driver. -/
def accepts (name : String) (v : Value) : Bool :=
  if name = "driver" then (readDriver v).isOk
  else if name = "port" then (readOptional readInteger v).isOk
  else if name = "ssl_mode" then (readOptional readText v).isOk
  else (readText v).isOk

/-- A port that a driver can have. -/
def PortFits (driver : Engine) (port : Option Int) : Prop :=
  driver = .sqlite ∨ ∀ p, port = some p → 1 ≤ p ∧ p ≤ 65535

/-- Every field holds its override, or what it held before. -/
@[mk_iff]
structure LayersTo (overrides : Fields) (c c' : DatabaseConfig) : Prop where
  driver : Holds overrides "driver" readDriver c.driver c'.driver
  host : Holds overrides "host" readText c.host c'.host
  port : Holds overrides "port" (readOptional readInteger) c.port c'.port
  database : Holds overrides "database" readText c.database c'.database
  username : Holds overrides "username" readText c.username c'.username
  password : Holds overrides "password" readText c.password c'.password
  catalog : Holds overrides "catalog" readText c.catalog c'.catalog
  schema : Holds overrides "schema_name" readText c.schema c'.schema
  sslMode : Holds overrides "ssl_mode" (readOptional readText) c.sslMode c'.sslMode

variable {c c' : DatabaseConfig} {base overrides : List (String × Value)} {fields : Fields}

theorem checkPort_ok_iff {driver : Engine} {port checked : Option Int} :
    checkPort driver port = .ok checked ↔ checked = port ∧ PortFits driver port := by
  unfold checkPort PortFits
  cases port with
  | none => simp [eq_comm]
  | some p =>
    simp only [Option.some.injEq, forall_eq']
    split
    · next fits => rw [and_iff_left fits, Except.ok.injEq, eq_comm]
    · next unfit => simp [unfit]

/-- Reading a record is layering its fields over the defaults and checking the port that
results. -/
theorem ofFields_ok_iff : ofFields fields = .ok c' ↔
    LayersTo fields {} c' ∧ PortFits c'.driver c'.port := by
  constructor
  · intro h
    have read := mapError_ok_iff.1 h
    obtain ⟨_, driver, read⟩ := except_ok_of_bind read
    obtain ⟨_, host, read⟩ := except_ok_of_bind read
    obtain ⟨_, port, read⟩ := except_ok_of_bind read
    obtain ⟨_, database, read⟩ := except_ok_of_bind read
    obtain ⟨_, username, read⟩ := except_ok_of_bind read
    obtain ⟨_, password, read⟩ := except_ok_of_bind read
    obtain ⟨_, catalog, read⟩ := except_ok_of_bind read
    obtain ⟨_, schema, read⟩ := except_ok_of_bind read
    obtain ⟨_, sslMode, read⟩ := except_ok_of_bind read
    cases read
    simp only [driver] at port
    obtain ⟨content, portRead, checked⟩ := (holds_checked (checkPort _) rfl).1
      (readField_ok_iff.1 port)
    obtain ⟨rfl, fits⟩ := checkPort_ok_iff.1 checked
    exact ⟨⟨readField_ok_iff.1 driver, readField_ok_iff.1 host, portRead,
      readField_ok_iff.1 database, readField_ok_iff.1 username, readField_ok_iff.1 password,
      readField_ok_iff.1 catalog, readField_ok_iff.1 schema, readField_ok_iff.1 sslMode⟩, fits⟩
  · rintro ⟨⟨driver, host, port, database, username, password, catalog, schema, sslMode⟩, fits⟩
    have checked := (holds_checked (checkPort c'.driver) rfl).2
      ⟨_, port, checkPort_ok_iff.2 ⟨rfl, fits⟩⟩
    rw [← readField_ok_iff] at *
    simp only [ofFields, driver, host, checked, database, username, password, catalog, schema,
      sslMode]
    rfl

/-- The defaults and a record's own fields both read back as they are. -/
theorem layersTo_defaults : LayersTo (named []) {} {} :=
  ⟨rfl, rfl, rfl, rfl, rfl, rfl, rfl, rfl, rfl⟩

theorem layersTo_toFields : LayersTo (named c.toFields) {} c where
  driver := by
    show readDriver (.text c.driver.name) = .ok c.driver
    cases c.driver <;> rfl
  host := rfl
  port := by
    show readOptional readInteger ((c.port.map Value.int).getD .null) = .ok c.port
    cases c.port <;> rfl
  database := rfl
  username := rfl
  password := rfl
  catalog := rfl
  schema := rfl
  sslMode := by
    show readOptional readText ((c.sslMode.map Value.text).getD .null) = .ok c.sslMode
    cases c.sslMode <;> rfl

theorem layersTo_layered (once : (overrides.map Prod.fst).Nodup)
    (own : LayersTo (named base) {} c) :
    LayersTo (layered base (named overrides)) {} c' ↔ LayersTo (named overrides) c c' := by
  rw [layersTo_iff, layersTo_iff, holds_layered once own.driver, holds_layered once own.host,
    holds_layered once own.port, holds_layered once own.database,
    holds_layered once own.username, holds_layered once own.password,
    holds_layered once own.catalog, holds_layered once own.schema,
    holds_layered once own.sslMode]

theorem exists_layersTo_iff : (∃ c', LayersTo fields c c') ↔
    ∀ name ∈ fieldNames, ∀ v, Value.find? fields name = some v → accepts name v = true := by
  constructor
  · rintro ⟨s', h⟩ name known v given
    simp only [fieldNames, toFields, List.map_cons, List.map_nil, List.mem_cons, List.not_mem_nil,
      or_false] at known
    rcases known with rfl | rfl | rfl | rfl | rfl | rfl | rfl | rfl | rfl
    · exact exists_holds_iff.1 ⟨_, h.driver⟩ v given
    · exact exists_holds_iff.1 ⟨_, h.host⟩ v given
    · exact exists_holds_iff.1 ⟨_, h.port⟩ v given
    · exact exists_holds_iff.1 ⟨_, h.database⟩ v given
    · exact exists_holds_iff.1 ⟨_, h.username⟩ v given
    · exact exists_holds_iff.1 ⟨_, h.password⟩ v given
    · exact exists_holds_iff.1 ⟨_, h.catalog⟩ v given
    · exact exists_holds_iff.1 ⟨_, h.schema⟩ v given
    · exact exists_holds_iff.1 ⟨_, h.sslMode⟩ v given
  · intro taken
    obtain ⟨driver, h₁⟩ := exists_holds_iff.2 (taken "driver" (by decide))
    obtain ⟨host, h₂⟩ := exists_holds_iff.2 (taken "host" (by decide))
    obtain ⟨port, h₃⟩ := exists_holds_iff.2 (taken "port" (by decide))
    obtain ⟨database, h₄⟩ := exists_holds_iff.2 (taken "database" (by decide))
    obtain ⟨username, h₅⟩ := exists_holds_iff.2 (taken "username" (by decide))
    obtain ⟨password, h₆⟩ := exists_holds_iff.2 (taken "password" (by decide))
    obtain ⟨catalog, h₇⟩ := exists_holds_iff.2 (taken "catalog" (by decide))
    obtain ⟨schema, h₈⟩ := exists_holds_iff.2 (taken "schema_name" (by decide))
    obtain ⟨sslMode, h₉⟩ := exists_holds_iff.2 (taken "ssl_mode" (by decide))
    exact ⟨⟨driver, host, port, database, username, password, catalog, schema, sslMode⟩,
      h₁, h₂, h₃, h₄, h₅, h₆, h₇, h₈, h₉⟩

/-- A field refuses its override, or the port that results is none for the driver that results. -/
def Refused (c : DatabaseConfig) (overrides : List (String × Value)) : Prop :=
  (∃ o ∈ overrides, o.1 ∈ fieldNames ∧ accepts o.1 o.2 = false) ∨
    ∃ c', c.LayersTo (named overrides) c' ∧ ¬PortFits c'.driver c'.port

/-- The fields of a record that may be there, before overrides. -/
def baseFields (c : Option DatabaseConfig) : List (String × Value) := (c.map toFields).getD []

theorem layersTo_baseFields {c : Option DatabaseConfig} :
    LayersTo (named (baseFields c)) {} (c.getD {}) := by
  cases c with
  | none => exact layersTo_defaults
  | some c => exact layersTo_toFields

theorem layered_decides {c : Option DatabaseConfig} (once : (overrides.map Prod.fst).Nodup) :
    Decides (ofFields (layered (baseFields c) (named overrides))) (Refused (c.getD {}) overrides)
      fun c' => (c.getD {}).LayersTo (named overrides) c' ∧ PortFits c'.driver c'.port := by
  apply decides_of_gives
  · intro c'
    rw [ofFields_ok_iff, layersTo_layered once layersTo_baseFields]
  · rw [Refused, not_or, ← forall_find?_iff once,
      ← exists_layersTo_iff (c := c.getD {})]
    constructor
    · rintro ⟨c', h, fits⟩
      refine ⟨⟨c', h⟩, ?_⟩
      rintro ⟨other, h', unfit⟩
      rw [h.driver.unique h'.driver, h.port.unique h'.port] at unfit
      exact unfit fits
    · rintro ⟨⟨c', h⟩, fits⟩
      by_contra unfit
      exact fits ⟨c', h, fun fit => unfit ⟨c', h, fit⟩⟩

end DatabaseConfig

section Program
open CommandLine CommandLine.Shell

variable {vs : Values} {d : Option Document} {w : Surroundings} {t : Terminal}

/-- Layered settings do nothing but read. -/
theorem outcome_generationSettings : outcome (generationSettings d vs) w t =
    ((((d.map Document.settings).getD {}).override (vs.fields settingsKeys)).mapError
      fun r => .refused ("Invalid settings: " ++ r.report), t) := by
  rw [generationSettings]
  cases ((d.map Document.settings).getD {}).override (vs.fields settingsKeys) <;> rfl

theorem outcome_databaseConfig : outcome (databaseConfig d vs) w t =
    ((DatabaseConfig.ofFields (layered (DatabaseConfig.baseFields (d.bind Document.database))
        (vs.fields databaseKeys))).mapError
      fun r => .refused ("Invalid database configuration: " ++ r.report), t) := by
  rw [databaseConfig, DatabaseConfig.baseFields]
  cases d.bind Document.database <;>
  · simp only [Option.map_none, Option.map_some, Option.getD_none, Option.getD_some]
    generalize DatabaseConfig.ofFields _ = read
    cases read <;> rfl

end Program

section Records
open CommandLine CommandLine.Shell

variable {overrides : List (String × Value)}

/-- Overrides layered over the settings of a generator, over those of a document and over its
connection settings either are refused, and then for one of the two reasons, or change exactly the
fields that they name. What was read before reads back unchanged. -/
theorem layering_exact (once : (overrides.map Prod.fst).Nodup) :
    (∀ s : GenerationSettings,
      Decides (s.withOverrides (named overrides))
        ((∃ o ∈ overrides, o.1 ∉ GenerationSettings.fieldNames) ∨
          GenerationSettings.Refused overrides)
        fun s' => (∀ o ∈ overrides, o.1 ∈ GenerationSettings.fieldNames) ∧
          GenerationSettings.LayersTo (given (named overrides)) s s') ∧
    (∀ s : GenerationSettings,
      Decides (s.override (named overrides)) (GenerationSettings.Refused overrides)
        (GenerationSettings.LayersTo (given (named overrides)) s)) ∧
    (∀ d w t, ∃ x, outcome (generationSettings d overrides) w t = (x, t) ∧
      Decides x (GenerationSettings.Refused (overrides.filter (settingsKeys.contains ·.1)))
        (GenerationSettings.LayersTo (given (Values.fields overrides settingsKeys))
          ((d.map Document.settings).getD {}))) ∧
    (∀ c : Option DatabaseConfig,
      Decides (DatabaseConfig.ofFields (layered (DatabaseConfig.baseFields c) (named overrides)))
        (DatabaseConfig.Refused (c.getD {}) overrides)
        fun c' => DatabaseConfig.LayersTo (named overrides) (c.getD {}) c' ∧
          DatabaseConfig.PortFits c'.driver c'.port) ∧
    (∀ d w t, ∃ x, outcome (databaseConfig d overrides) w t = (x, t) ∧
      Decides x
        (DatabaseConfig.Refused ((d.bind Document.database).getD {})
          (overrides.filter (databaseKeys.contains ·.1)))
        fun c' => DatabaseConfig.LayersTo (Values.fields overrides databaseKeys)
            ((d.bind Document.database).getD {}) c' ∧
          DatabaseConfig.PortFits c'.driver c'.port) ∧
    (∀ s : GenerationSettings, GenerationSettings.ofFields (named s.toFields) = .ok s) ∧
    ∀ c fields, DatabaseConfig.ofFields fields = .ok c →
      DatabaseConfig.ofFields (named c.toFields) = .ok c := by
  have filtered (keys : List String) :
      ((overrides.filter (keys.contains ·.1)).map Prod.fst).Nodup :=
    once.sublist (List.filter_sublist.map Prod.fst)
  refine ⟨fun s => GenerationSettings.withOverrides_decides once,
    fun s => GenerationSettings.override_decides once, fun d w t => ?generation,
    fun c => DatabaseConfig.layered_decides once, fun d w t => ?database,
    fun s => GenerationSettings.ofFields_ok_iff.2 GenerationSettings.layersTo_toFields,
    fun c fields read => ?back⟩
  case generation =>
    exact ⟨_, outcome_generationSettings,
      (GenerationSettings.override_decides (filtered settingsKeys)).mapError⟩
  case database =>
    exact ⟨_, outcome_databaseConfig,
      (DatabaseConfig.layered_decides (filtered databaseKeys)).mapError⟩
  case back =>
    exact DatabaseConfig.ofFields_ok_iff.2
      ⟨DatabaseConfig.layersTo_toFields, (DatabaseConfig.ofFields_ok_iff.1 read).2⟩

/-- A port that SQLite ignores is none for the driver that an override brings in. -/
theorem refused_driver_over_port :
    ∃ e, DatabaseConfig.ofFields (layered
      (DatabaseConfig.baseFields (some { driver := .sqlite, port := some 70000 }))
      (named [("driver", .text "postgresql")])) = .error e := by
  have once : ([("driver", Value.text "postgresql")].map Prod.fst).Nodup := by decide
  have decided := (layering_exact once).2.2.2.1 (some { driver := .sqlite, port := some 70000 })
  refine decided.refuses.2 (.inr ⟨{ driver := .postgresql, port := some 70000 }, ?_, ?_⟩)
  · exact ⟨rfl, rfl, rfl, rfl, rfl, rfl, rfl, rfl, rfl⟩
  · rintro (other | fits)
    · cases other
    · exact absurd (fits 70000 rfl).2 (by decide)

end Records
end SyntheticRows
