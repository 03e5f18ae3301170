import Mathlib.Data.List.Nodup
import SyntheticRows.Proofs.Meaning.Expr

/-!
# Rows and their contents

Contents under names, and rows some of whose contents are replaced. Names that do not repeat can be
assigned in any order.
-/
namespace SyntheticRows

/-- The content under a name. -/
def entry (contents : List (String × Datum)) (name : String) : Option Datum :=
  (contents.find? (·.1 = name)).map Prod.snd

/-- The row with some contents replaced. -/
def Row.assign (row : Row) (contents : List (String × Datum)) : Row := fun c =>
  (entry contents c).or (row c)

section Entries

variable {g h : List (String × Datum)} {c : String} {v : Datum}

theorem entry_cons (a : String × Datum) :
    entry (a :: g) c = if a.1 = c then some a.2 else entry g c := by
  by_cases hc : a.1 = c <;> simp [entry, hc]

theorem entry_eq_none : entry g c = none ↔ c ∉ g.map Prod.fst := by
  rw [entry, Option.map_eq_none_iff, List.find?_eq_none, List.mem_map]
  simp only [decide_eq_true_eq, not_exists, not_and]

theorem isSome_entry : (entry g c).isSome ↔ c ∈ g.map Prod.fst := by
  rw [← not_iff_not, ← entry_eq_none]
  simp

theorem entry_append : entry (g ++ h) c = (entry g c).or (entry h c) := by
  simp [entry, List.find?_append, Option.map_or]

theorem mem_of_entry (he : entry g c = some v) : (c, v) ∈ g := by
  obtain ⟨a, ha, rfl⟩ := Option.map_eq_some_iff.1 he
  have hc := List.find?_some ha
  simp only [decide_eq_true_eq] at hc
  exact hc ▸ List.mem_of_find?_eq_some ha

theorem entry_of_mem (hn : (g.map Prod.fst).Nodup) (hv : (c, v) ∈ g) : entry g c = some v := by
  induction g with
  | nil => cases hv
  | cons a g ih =>
    rw [List.map_cons, List.nodup_cons] at hn
    rw [entry_cons]
    rcases List.mem_cons.1 hv with rfl | hv
    · exact if_pos rfl
    · have hc : a.1 ≠ c := by
        rintro rfl
        exact hn.1 (List.mem_map.2 ⟨_, hv, rfl⟩)
      rw [if_neg hc]
      exact ih hn.2 hv

theorem entry_of_perm (hp : g.Perm h) (hn : (g.map Prod.fst).Nodup) : entry g c = entry h c := by
  have hn' : (h.map Prod.fst).Nodup := (hp.map Prod.fst).nodup hn
  cases hg : entry g c with
  | none =>
    rw [entry_eq_none, (hp.map Prod.fst).mem_iff] at hg
    exact (entry_eq_none.2 hg).symm
  | some v => exact (entry_of_mem hn' (hp.subset (mem_of_entry hg))).symm

end Entries

namespace Row

variable {row : Row} {g h : List (String × Datum)} {c : String} {v : Datum}

theorem assign_of_not_mem (hc : c ∉ g.map Prod.fst) : row.assign g c = row c := by
  rw [assign, entry_eq_none.2 hc, Option.none_or]

theorem assign_of_mem (hn : (g.map Prod.fst).Nodup) (hv : (c, v) ∈ g) :
    row.assign g c = some v := by
  rw [assign, entry_of_mem hn hv, Option.some_or]

/-- A row that is given its own contents stays as it is. -/
theorem assign_self (h : ∀ a ∈ g, row a.1 = some a.2) : row.assign g = row := by
  funext c
  cases hg : entry g c with
  | none => rw [assign, hg, Option.none_or]
  | some v => rw [assign, hg, Option.some_or, h _ (mem_of_entry hg)]

/-- Columns that are there stay, and no others come. -/
theorem isSome_assign (hg : ∀ c ∈ g.map Prod.fst, (row c).isSome) :
    (row.assign g c).isSome = (row c).isSome := by
  by_cases hc : c ∈ g.map Prod.fst
  · rw [hg c hc, assign, Option.isSome_or, isSome_entry.2 hc, Bool.true_or]
  · rw [assign_of_not_mem hc]

theorem assign_append (hd : ∀ c ∈ h.map Prod.fst, c ∉ g.map Prod.fst) :
    row.assign (g ++ h) = (row.assign g).assign h := by
  funext c
  by_cases hc : c ∈ h.map Prod.fst
  · simp only [assign, entry_append, entry_eq_none.2 (hd c hc), Option.none_or]
  · simp only [assign, entry_append, entry_eq_none.2 hc, Option.none_or, Option.or_none]

/-- Names that do not repeat can be assigned part by part. -/
theorem foldl_assign {gs : List (List (String × Datum))} (hn : (gs.flatten.map Prod.fst).Nodup) :
    gs.foldl assign row = row.assign gs.flatten := by
  induction gs generalizing row with
  | nil => rfl
  | cons g gs ih =>
    rw [List.flatten_cons, List.map_append, List.nodup_append] at hn
    rw [List.foldl_cons, ih hn.2.1, List.flatten_cons]
    exact (assign_append fun c hc hg => hn.2.2 c hg c hc rfl).symm

theorem assign_of_perm (hp : g.Perm h) (hn : (g.map Prod.fst).Nodup) :
    row.assign g = row.assign h := by
  funext c
  rw [assign, assign, entry_of_perm hp hn]

end Row
end SyntheticRows
