import SyntheticRows.Proofs.Compile.Failure
import SyntheticRows.Proofs.Json.Text

/-!
# Items of JSON lists

The written form of a scalar is a text between quotes, or a word without quotes and commas. So the
commas of a list of scalars tell where its items end, and the form of the list gives the forms of
its items.
-/
namespace SyntheticRows

theorem Text.toList_joined_cons (separator first : String) (rest : List String) :
    (joined separator (first :: rest)).toList =
      first.toList ++ rest.flatMap fun s => separator.toList ++ s.toList := by
  induction rest generalizing first with
  | nil => simp [joined]
  | cons second rest ih =>
    have step : joined separator (first :: second :: rest) =
        first ++ (separator ++ joined separator (second :: rest)) := by simp [joined]
    simp [step, ih]

namespace Json

/-- The written forms of scalars. -/
inductive IsItem : String → Prop
  | text (s : String) : IsItem (writeText s)
  | word {w : String} (nonempty : w.toList ≠ []) (plain : '"' ∉ w.toList ∧ ',' ∉ w.toList) :
    IsItem w

/-- A word ends before the first comma. -/
theorem takeWhile_word {w rest : List Char} (plain : ',' ∉ w) (hr : ∀ c ∈ rest.head?, c = ',') :
    (w ++ rest).takeWhile (· ≠ ',') = w := by
  have inside : ∀ c ∈ w, decide (c ≠ ',') = true := by
    intro c hc
    simp only [decide_eq_true_eq]
    rintro rfl
    exact plain hc
  have stop : rest.takeWhile (· ≠ ',') = [] := by
    cases rest with
    | nil => rfl
    | cons c rest => simp [hr c rfl]
  rw [List.takeWhile_append_of_pos inside, stop, List.append_nil]

/-- A text starts with a quote, a word does not. -/
theorem text_append_ne_word {s w : String} {more rest : List Char} (nonempty : w.toList ≠ [])
    (plain : '"' ∉ w.toList) : (writeText s).toList ++ more ≠ w.toList ++ rest := by
  obtain ⟨c, tail, hw⟩ := List.exists_cons_of_ne_nil nonempty
  intro h
  rw [hw, writeText, String.toList_ofList, List.cons_append, List.cons_append, List.cons_append,
    List.cons.injEq] at h
  exact plain (by simp [hw, ← h.1])

/-- Items end where a comma follows, or nothing. -/
theorem IsItem.append_inj {a b : String} {more rest : List Char} (ha : IsItem a) (hb : IsItem b)
    (hm : ∀ c ∈ more.head?, c = ',') (hr : ∀ c ∈ rest.head?, c = ',')
    (h : a.toList ++ more = b.toList ++ rest) : a = b ∧ more = rest := by
  cases ha with
  | text s =>
    cases hb with
    | text t =>
      obtain ⟨rfl, same⟩ := writeText_append_inj h
      exact ⟨rfl, same⟩
    | word nonempty plain => exact absurd h (text_append_ne_word nonempty plain.1)
  | word nonempty plain =>
    cases hb with
    | text t => exact absurd h.symm (text_append_ne_word nonempty plain.1)
    | word _ plain' =>
      have same : a.toList = b.toList := by
        rw [← takeWhile_word plain.2 hm, h, takeWhile_word plain'.2 hr]
      rw [same, List.append_cancel_left_eq] at h
      exact ⟨String.toList_inj.1 same, h⟩

theorem IsItem.ne_empty {a : String} (h : IsItem a) : a.toList ≠ [] := by
  cases h with
  | text s => simp [writeText]
  | word nonempty _ => exact nonempty

theorem head_tail (items : List String) :
    ∀ c ∈ (items.flatMap fun s => ",".toList ++ s.toList).head?, c = ',' := by
  cases items <;> simp

/-- Items behind commas are the same only if they are the same one by one. -/
theorem tail_injective {as bs : List String} (ha : ∀ a ∈ as, IsItem a) (hb : ∀ b ∈ bs, IsItem b)
    (h : (as.flatMap fun s => ",".toList ++ s.toList) =
      bs.flatMap fun s => ",".toList ++ s.toList) : as = bs := by
  induction as generalizing bs with
  | nil =>
    cases bs with
    | nil => rfl
    | cons b bs => simp at h
  | cons a as ih =>
    cases bs with
    | nil => simp at h
    | cons b bs =>
      simp only [List.flatMap_cons, List.append_assoc, List.append_cancel_left_eq] at h
      rw [List.forall_mem_cons] at ha hb
      obtain ⟨rfl, rest⟩ := ha.1.append_inj hb.1 (head_tail as) (head_tail bs) h
      rw [ih ha.2 hb.2 rest]

theorem joined_injective {as bs : List String} (ha : ∀ a ∈ as, IsItem a) (hb : ∀ b ∈ bs, IsItem b)
    (h : Text.joined "," as = Text.joined "," bs) : as = bs := by
  have empty {c : String} {cs : List String} (hc : IsItem c) : Text.joined "," (c :: cs) ≠ "" := by
    intro same
    have none := congrArg String.toList same
    rw [Text.toList_joined_cons] at none
    exact hc.ne_empty (List.append_eq_nil_iff.1 none).1
  cases as with
  | nil =>
    cases bs with
    | nil => rfl
    | cons b bs => exact absurd h.symm (empty (hb b List.mem_cons_self))
  | cons a as =>
    cases bs with
    | nil => exact absurd h (empty (ha a List.mem_cons_self))
    | cons b bs =>
      have same := congrArg String.toList h
      rw [Text.toList_joined_cons, Text.toList_joined_cons] at same
      rw [List.forall_mem_cons] at ha hb
      obtain ⟨rfl, rest⟩ := ha.1.append_inj hb.1 (head_tail as) (head_tail bs) same
      rw [tail_injective ha.2 hb.2 rest]

end Json
end SyntheticRows
