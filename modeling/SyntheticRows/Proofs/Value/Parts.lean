import Mathlib.Data.List.Basic
import SyntheticRows.Value.Basic

/-!
# Keys and parts of values

A text is the same as no value but itself, so entries under a text can be told from all others.
Where every whole number of a value has few enough digits, so has every number of its parts.
-/
namespace SyntheticRows.Value

section Keys

variable {α : Type} {key v w : Value} {x : α} {n : String} {found : List (Value × α)}

theorem same_of_same (h : v.same w = true) : (text n).same v = (text n).same w := by
  cases v <;> cases w <;> simp_all [same, sameNumber, asNumber?]

theorem text_same : (text n).same v = true ↔ text n = v := by
  cases v <;> simp [same]

/-- The entry of a column after one was set. -/
theorem find_insertEntry :
    ((insertEntry key x found).find? ((text n).same ·.1)).map Prod.snd =
      if (text n).same key then some x
      else (found.find? ((text n).same ·.1)).map Prod.snd := by
  induction found with
  | nil => by_cases hk : (text n).same key = true <;> simp [insertEntry, hk]
  | cons e found ih =>
    obtain ⟨k, y⟩ := e
    by_cases hs : k.same key = true
    · have alike : (text n).same k = (text n).same key := same_of_same hs
      by_cases hk : (text n).same key = true <;> simp [insertEntry, hs, hk, alike]
    · by_cases hk : (text n).same k = true
      · have other : ¬(text n).same key = true := by
          rw [text_same] at hk ⊢
          rintro rfl
          exact hs (hk ▸ text_same.2 rfl)
        simp [insertEntry, hs, hk, other]
      · simpa [insertEntry, hs, hk] using ih

/-- An entry after one was set has the content that was set, or was there before. -/
theorem mem_insertEntry {entry : Value × α} (h : entry ∈ insertEntry key x found) :
    entry.2 = x ∨ entry ∈ found := by
  induction found with
  | nil => exact .inl (by simp_all [insertEntry])
  | cons e found ih =>
    obtain ⟨k, y⟩ := e
    simp only [insertEntry] at h
    split at h <;> rcases List.mem_cons.1 h with rfl | later
    · exact .inl rfl
    · exact .inr (List.mem_cons_of_mem _ later)
    · exact .inr List.mem_cons_self
    · exact (ih later).imp_right (List.mem_cons_of_mem _)

end Keys

section Parts

variable {v w : Value} {items : List Value} {entries : List (Value × Value)} {key : String}

theorem areWritable_eq_all : areWritable items = items.all isWritable := by
  induction items with
  | nil => rfl
  | cons v items ih => rw [areWritable, ih, List.all_cons]

theorem entriesWritable_iff : entriesWritable entries = true ↔
    ∀ e ∈ entries, e.1.isWritable = true ∧ e.2.isWritable = true := by
  induction entries with
  | nil => simp [entriesWritable]
  | cons e entries ih =>
    obtain ⟨k, v⟩ := e
    simp [entriesWritable, entryWritable, ih]

theorem isWritable_find? (h : (mapping entries).isWritable = true)
    (found : find? entries key = some v) : v.isWritable = true := by
  obtain ⟨e, there, rfl⟩ := Option.map_eq_some_iff.1 found
  exact (entriesWritable_iff.1 h e (List.mem_of_find?_eq_some there)).2

theorem isWritable_small (b : UInt8) : (int b.toNat).isWritable = true := by
  have bound : 256 ≤ writingBound := by decide +kernel
  have small := b.toNat_lt
  simp only [isWritable, SyntheticRows.isWritable, Int.natAbs_natCast, decide_eq_true_eq]
  omega

theorem isWritable_items? (h : v.isWritable = true) (there : v.items? = some items) :
    ∀ x ∈ items, x.isWritable = true := by
  cases v with
  | list given | tuple given | set given =>
    cases there
    rw [isWritable, areWritable_eq_all, List.all_eq_true] at h
    exact h
  | text s =>
    cases there
    intro x hx
    obtain ⟨c, _, rfl⟩ := List.mem_map.1 hx
    rfl
  | mapping entries =>
    cases there
    intro x hx
    obtain ⟨e, he, rfl⟩ := List.mem_map.1 hx
    exact (entriesWritable_iff.1 h e he).1
  | bytes content =>
    cases there
    intro x hx
    obtain ⟨b, _, rfl⟩ := List.mem_map.1 hx
    exact isWritable_small b
  | _ => cases there

end Parts

end SyntheticRows.Value
