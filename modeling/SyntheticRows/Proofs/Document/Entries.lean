import SyntheticRows.Document.Entries
import SyntheticRows.Proofs.Compile.Failure
import SyntheticRows.Proofs.Value.Parts

/-!
# Looking into mappings

`Value.content?` gives what a value has under a key. A reader that succeeds has found just that,
and a list that was read has been read item by item.
-/
namespace SyntheticRows

variable {α : Type}

/-- The content of a key, if the value is a mapping that has it. -/
def Value.content? : Value → String → Option Value
  | .mapping entries, key => find? entries key
  | _, _ => none

namespace Value

variable {entries more : List (Value × Value)} {entry : Value × Value} {key : String}

theorem find?_cons : find? (entry :: entries) key =
    if (text key).same entry.1 then some entry.2 else find? entries key := by
  obtain ⟨k, v⟩ := entry
  cases k with
  | text s => by_cases hs : s = key <;> simp [find?, same, hs, eq_comm (a := key)]
  | _ => simp [find?, same]

theorem find?_append :
    find? (entries ++ more) key = (find? entries key).or (find? more key) := by
  simp [find?, List.find?_append, Option.map_or]

theorem entries_of_content? {v w : Value} (h : v.content? key = some w) :
    ∃ entries, v = .mapping entries ∧ find? entries key = some w := by
  cases v with
  | mapping entries => exact ⟨entries, rfl, h⟩
  | _ => cases h

end Value

namespace Document

variable {v w : Value} {entries : Entries} {key context : String}

theorem asMapping_ok_iff : asMapping context v = .ok entries ↔ v = .mapping entries := by
  cases v with
  | mapping entries' => simp [asMapping]
  | _ => simp [asMapping, refuse_ne_ok]

theorem require_ok_iff :
    require entries key context = .ok w ↔ Value.find? entries key = some w := by
  unfold require
  split
  · rename_i found
    simp [found]
  · rename_i absent
    simp [absent, refuse_ne_ok]

theorem readEach_ok_iff {read : ℕ → Value → Except Error α} {l : List α} :
    readEach read v = .ok l ↔ ∃ items, v.items? = some items ∧
      List.Forall₂ (fun item a => read (item.2 + 1) item.1 = .ok a) items.zipIdx l := by
  constructor
  · intro h
    obtain ⟨items, there, h⟩ := except_ok_of_bind h
    refine ⟨items, ?_, forall₂_of_mapM h⟩
    cases hv : v.items? with
    | none => rw [hv] at there; cases there
    | some items' => rw [hv] at there; cases there; rfl
  · rintro ⟨items, there, each⟩
    simp only [readEach, there, orError]
    exact mapM_of_forall₂ each

end Document
end SyntheticRows
