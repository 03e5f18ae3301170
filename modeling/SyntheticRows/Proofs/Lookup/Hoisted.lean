import Mathlib.Data.List.Find
import Mathlib.Data.List.Nodup
import Mathlib.Data.Set.Function
import SyntheticRows.Compile.Table
import SyntheticRows.Proofs.Lookup.Definition

/-!
# Hoisted lists

The lists of a table are gone through column by column, and under each name the first one is kept.
So every name is defined once, from the first list that has it.
-/
namespace SyntheticRows
open Sql

namespace Table

/-- The lists of the columns that pick from one. -/
def lookupLists (t : Table) : List (List Value) := t.columns.filterMap Column.lookupValues?

/-- Keeps a list unless its name is there already. -/
def keepFirst (found : List (String × List Value)) (values : List Value) :
    Except Error (List (String × List Value)) := do
  let name ← lookupName values
  return if found.any (·.1 == name) then found else found ++ [(name, values)]

theorem lookups_eq (t : Table) : t.lookups = t.lookupLists.foldlM keepFirst [] := rfl

def hasName (name : String) (values : List Value) : Bool :=
  (lookupName values).toOption == some name

variable {lists : List (List Value)} {found kept : List (String × List Value)} {name : String}
  {values : List Value}

theorem keepFirst_spec (h : keepFirst found values = .ok kept) (hn : (found.map Prod.fst).Nodup) :
    (kept.map Prod.fst).Nodup ∧ ∀ name, kept.find? (·.1 == name) =
      (found.find? (·.1 == name)).or
        (if hasName name values then some (name, values) else none) := by
  obtain ⟨own, named, h⟩ := except_ok_of_bind h
  have has (name : String) : hasName name values = (own == name) := by
    rw [hasName, named]
    rfl
  obtain rfl := Except.ok.inj h
  by_cases there : found.any (·.1 == own) = true
  · rw [if_pos there]
    refine ⟨hn, fun name => ?_⟩
    by_cases same : own = name
    · subst same
      have found : (found.find? (·.1 == own)).isSome = true := by
        rw [List.find?_isSome]
        exact List.any_eq_true.1 there
      obtain ⟨l, hl⟩ := Option.isSome_iff_exists.1 found
      rw [hl, Option.some_or]
    · simp [has, same]
  · rw [if_neg there]
    constructor
    · have absent : own ∉ found.map Prod.fst := by simpa using there
      rw [List.map_append, List.nodup_append_comm]
      exact List.nodup_cons.2 ⟨absent, hn⟩
    · intro name
      rw [List.find?_append, has]
      by_cases same : own = name <;> simp [same]

theorem foldlM_keepFirst (h : lists.foldlM keepFirst found = .ok kept)
    (hn : (found.map Prod.fst).Nodup) : (kept.map Prod.fst).Nodup ∧ ∀ name,
      kept.find? (·.1 == name) =
        (found.find? (·.1 == name)).or ((lists.find? (hasName name)).map (name, ·)) := by
  induction lists generalizing found with
  | nil =>
    cases h
    exact ⟨hn, by simp⟩
  | cons values lists ih =>
    rw [List.foldlM_cons] at h
    obtain ⟨next, step, h⟩ := except_ok_of_bind h
    obtain ⟨distinct, first⟩ := keepFirst_spec step hn
    obtain ⟨distinct', others⟩ := ih h distinct
    refine ⟨distinct', fun name => ?_⟩
    rw [others, first, Option.or_assoc, List.find?_cons]
    cases hasName name values <;> simp

/-- Each list of a table has a JSON text, if its lists can be gone through. -/
theorem exists_payload (h : lists.foldlM keepFirst found = .ok kept) (member : values ∈ lists) :
    ∃ payload, lookupPayload values = .ok payload := by
  induction lists generalizing found with
  | nil => cases member
  | cons first lists ih =>
    rw [List.foldlM_cons] at h
    obtain ⟨next, step, h⟩ := except_ok_of_bind h
    rcases List.mem_cons.1 member with rfl | member
    · obtain ⟨name, named, _⟩ := except_ok_of_bind step
      obtain ⟨payload, written, _⟩ := except_ok_of_map named
      exact ⟨payload, written⟩
    · exact ih h member

/-- The JSON texts of the lists. -/
def lookupPayloads (t : Table) : List String :=
  t.lookupLists.filterMap fun values => (lookupPayload values).toOption

/-- The first list with a JSON text. -/
def firstList? (t : Table) (payload : String) : Option (List Value) :=
  t.lookupLists.find? fun values => (lookupPayload values).toOption == some payload

variable {t : Table} {payload : String} {first : List Value}

theorem mem_lookupLists {c : Column} (hc : c ∈ t.columns)
    (hg : c.generator = .choiceByLookup values) (hvs : values ≠ [])
    (hp : c.effectiveNullProbability.lt (.int 1) = true) : values ∈ t.lookupLists := by
  refine List.mem_filterMap.2 ⟨c, hc, ?_⟩
  have listed : values.isEmpty = false := by simpa using hvs
  simp [Column.lookupValues?, hg, hp, listed]

theorem mem_lookupPayloads (member : values ∈ t.lookupLists)
    (written : lookupPayload values = .ok payload) : payload ∈ t.lookupPayloads :=
  List.mem_filterMap.2 ⟨values, member, by rw [written]; rfl⟩

theorem exists_firstList (member : values ∈ t.lookupLists)
    (written : lookupPayload values = .ok payload) :
    ∃ first, t.firstList? payload = some first := by
  rw [← Option.isSome_iff_exists, firstList?, List.find?_isSome]
  exact ⟨values, member, by rw [written]; simp [Except.toOption]⟩

theorem payload_of_firstList (h : t.firstList? payload = some first) :
    lookupPayload first = .ok payload := by
  have found := List.find?_some h
  cases written : lookupPayload first with
  | error _ => simp [written, Except.toOption] at found
  | ok own => simpa [written, Except.toOption] using found

/-- Under the name of a JSON text the first list with this text is kept, unless another text has the
same name. -/
theorem find?_lookups (h : t.lookups = .ok kept)
    (faithful : Set.InjOn digestName {p | p ∈ t.lookupPayloads})
    (member : payload ∈ t.lookupPayloads) :
    (kept.map Prod.fst).Nodup ∧ kept.find? (·.1 == digestName payload) =
      (t.firstList? payload).map (digestName payload, ·) := by
  rw [lookups_eq] at h
  obtain ⟨distinct, first⟩ := foldlM_keepFirst h List.nodup_nil
  refine ⟨distinct, ?_⟩
  rw [first, List.find?_nil, Option.none_or]
  congr 1
  refine List.find?_congr fun values inside => ?_
  obtain ⟨own, written⟩ := exists_payload h inside
  have listed := mem_lookupPayloads inside written
  have same : digestName own = digestName payload ↔ own = payload := faithful.eq_iff listed member
  rw [hasName, lookupName_eq, written]
  change (some (digestName own) == some (digestName payload)) = (some own == some payload)
  rw [Bool.eq_iff_iff]
  simpa using same

end Table

/-- Of the definitions of lists under different names one is that of a given name. -/
theorem filter_definitions {e : Engine} {kept : List (String × List Value)}
    {definitions : List Definition} {name : String} {values : List Value}
    (h : List.Forall₂ (fun l d => (Dialect.of e).lookupDefinition l.1 l.2 = .ok d) kept definitions)
    (distinct : (kept.map Prod.fst).Nodup)
    (there : kept.find? (·.1 == name) = some (name, values)) :
    ∃ d, (Dialect.of e).lookupDefinition name values = .ok d ∧
      definitions.filter (·.name == name) = [d] := by
  induction h with
  | nil => cases there
  | @cons l d kept definitions first others ih =>
    have own : d.name = l.1 := Dialect.name_of_lookupDefinition first
    rw [List.map_cons, List.nodup_cons] at distinct
    by_cases same : l.1 = name
    · have whole : l = (name, values) := by simpa [same] using there
      have rest : definitions.filter (·.name == name) = [] := by
        rw [List.filter_eq_nil_iff]
        intro d' member
        obtain ⟨l', inside, defined⟩ := partner_left others member
        have named := Dialect.name_of_lookupDefinition defined
        have apart : l'.1 ≠ l.1 := by
          intro equal
          exact distinct.1 (equal ▸ List.mem_map_of_mem inside)
        simpa [named, ← same] using apart
      refine ⟨d, by simpa [whole] using first, ?_⟩
      simp [own, same, rest]
    · rw [List.find?_cons_of_neg (by simpa using same)] at there
      obtain ⟨d', defined, only⟩ := ih distinct.2 there
      exact ⟨d', defined, by simpa [own, same] using only⟩

end SyntheticRows
