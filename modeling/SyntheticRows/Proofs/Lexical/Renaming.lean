import Mathlib.Data.List.Forall2
import Mathlib.Data.Set.Function
import SyntheticRows.Compile.Table

/-!
# Renamed tables

A table whose texts are renamed has other names and draws other texts, and is the same otherwise.
A renaming only has to keep the texts apart that are in the table.
-/
namespace SyntheticRows

/-- A text that can be a name and a literal. -/
structure IsPlain (s : String) : Prop where
  nonempty : s ≠ ""
  nulFree : '\x00' ∉ s.toList

instance (s : String) : Decidable (IsPlain s) :=
  decidable_of_iff (s ≠ "" ∧ '\x00' ∉ s.toList)
    ⟨fun h => ⟨h.1, h.2⟩, fun h => ⟨h.nonempty, h.nulFree⟩⟩

namespace Value

def text? : Value → Option String
  | text s => some s
  | _ => none

def renamed (f : String → String) : Value → Value
  | text s => text (f s)
  | v => v

end Value

namespace Generator

/-- The values that a generator draws from a list. -/
def values : Generator → List Value
  | constant v => [v]
  | choice values | choiceByLookup values => values
  | _ => []

def renamed (f : String → String) : Generator → Generator
  | constant v => constant (v.renamed f)
  | choice values => choice (values.map (Value.renamed f))
  | choiceByLookup values => choiceByLookup (values.map (Value.renamed f))
  | g => g

end Generator

/-- The second column has the texts of the first one renamed. -/
structure Column.Renamed (f : String → String) (c c' : Column) : Prop where
  name : c'.name = c.name.renamed f
  type : c'.type = c.type
  generator : c'.generator = c.generator.renamed f
  nullable : c'.nullable = c.nullable
  nullProbability : c'.nullProbability = c.nullProbability

/-- The second table has the texts of the first one renamed; its description is any. -/
structure Table.Renamed (f : String → String) (t t' : Table) : Prop where
  name : t'.name = t.name.renamed f
  columns : List.Forall₂ (Column.Renamed f) t.columns t'.columns

/-- The name of a column and what it draws from. -/
def Column.givens (c : Column) : List Value := c.name :: c.generator.values

namespace Table

def givens (t : Table) : List Value := t.name :: t.columns.flatMap Column.givens

def strings (t : Table) : List String := t.givens.filterMap Value.text?

/-- A renaming that keeps the texts of a table plain and apart. -/
structure Renames (f : String → String) (t : Table) : Prop where
  injOn : Set.InjOn f {s | s ∈ t.strings}
  plain : ∀ s ∈ t.strings, IsPlain s ∧ IsPlain (f s)

end Table

/-- Two values that can be written and are texts or the same. -/
inductive SameButText : Value → Value → Prop
  | text {s t : String} : IsPlain s → IsPlain t → SameButText (.text s) (.text t)
  | same (v : Value) : SameButText v v

section Renaming

variable {f : String → String} {t : Table} {c c' : Column} {v w : Value} {vs ws : List Value}

namespace Table.Renames

variable (h : t.Renames f)
include h

theorem sameButText (hv : v ∈ t.givens) : SameButText v (v.renamed f) := by
  cases v with
  | text s =>
    obtain ⟨before, after⟩ := h.plain s (List.mem_filterMap.2 ⟨_, hv, rfl⟩)
    exact .text before after
  | _ => exact .same _

theorem injOn_givens : Set.InjOn (Value.renamed f) {v | v ∈ t.givens} := by
  intro v hv w hw same
  cases v with
  | text s =>
    cases w with
    | text s' =>
      have texts : f s = f s' := Value.text.inj same
      rw [h.injOn (List.mem_filterMap.2 ⟨_, hv, rfl⟩) (List.mem_filterMap.2 ⟨_, hw, rfl⟩) texts]
    | _ => cases same
  | _ => cases w <;> first | exact same | cases same

theorem map_inj (hv : ∀ v ∈ vs, v ∈ t.givens) (hw : ∀ w ∈ ws, w ∈ t.givens)
    (same : vs.map (Value.renamed f) = ws.map (Value.renamed f)) : vs = ws := by
  induction vs generalizing ws with
  | nil => exact (List.map_eq_nil_iff.1 same.symm).symm
  | cons v vs ih =>
    cases ws with
    | nil => cases same
    | cons w ws =>
      obtain ⟨first, rest⟩ := List.cons.inj same
      have heads : v = w := h.injOn_givens (hv v (by simp)) (hw w (by simp)) first
      have tails : vs = ws :=
        ih (fun v hvs => hv v (by simp [hvs])) (fun w hws => hw w (by simp [hws])) rest
      rw [heads, tails]

end Table.Renames

theorem Table.mem_givens (hc : c ∈ t.columns) (hv : v ∈ c.givens) : v ∈ t.givens :=
  List.mem_cons_of_mem _ (List.mem_flatMap.2 ⟨c, hc, hv⟩)

theorem Column.mem_givens (hv : v ∈ c.generator.values) : v ∈ c.givens := List.mem_cons_of_mem _ hv

end Renaming
end SyntheticRows
