import Mathlib.Data.List.Basic
import SyntheticRows.Decimal.Shortest

/-!
# Written numbers

The characters of written numbers are digits, signs, points and the letter of exponents. Of these a
whole number has only digits and a minus sign, and a double always has a point or an exponent.
-/
namespace SyntheticRows

/-- The characters of written numbers. -/
def isNumeralChar (c : Char) : Bool := c.isDigit || c = '-' || c = '+' || c = '.' || c = 'e'

theorem isDigit_of_mem_natDigits {n : Nat} {c : Char} (h : c ∈ natDigits n) : c.isDigit = true :=
  Nat.isDigit_of_mem_toDigits (by decide) (by decide) h

theorem isDigit_of_mem_padded {width n : Nat} {c : Char} (h : c ∈ padded width n) :
    c.isDigit = true := by
  rcases List.mem_append.1 h with h | h
  · rw [List.eq_of_mem_replicate h]
    decide
  · exact isDigit_of_mem_natDigits h

theorem mem_toString_int {i : Int} {c : Char} (h : c ∈ (toString i).toList) :
    c.isDigit = true ∨ c = '-' := by
  have digits (n : Nat) (h : c ∈ n.repr.toList) : c.isDigit = true := by
    rw [Nat.repr_eq_ofList_toDigits, String.toList_ofList] at h
    exact isDigit_of_mem_natDigits h
  change c ∈ i.repr.toList at h
  rw [Int.repr_eq_if] at h
  split at h
  · exact .inl (digits _ h)
  · rw [String.toList_append, List.mem_append] at h
    rcases h with h | h
    · exact .inr (List.mem_singleton.1 h)
    · exact .inl (digits _ h)

theorem toString_int_ne_nil (i : Int) : (toString i).toList ≠ [] := by
  have digits (n : Nat) : n.repr.toList ≠ [] := by
    rw [Nat.repr_eq_ofList_toDigits, String.toList_ofList]
    exact Nat.toDigits_ne_nil
  change i.repr.toList ≠ []
  rw [Int.repr_eq_if]
  split
  · exact digits _
  · simp

theorem isNumeralChar_of_isDigit {c : Char} (h : c.isDigit = true) : isNumeralChar c = true := by
  simp [isNumeralChar, h]

namespace Double

theorem isNumeralChar_of_mem_layout {s : Scientific} {c : Char} (h : c ∈ layout s) :
    isNumeralChar c = true := by
  have digits (hc : c ∈ natDigits s.digits) : isNumeralChar c = true :=
    isNumeralChar_of_isDigit (isDigit_of_mem_natDigits hc)
  have zeros {n : Nat} (hc : c ∈ List.replicate n '0') : isNumeralChar c = true := by
    rw [List.eq_of_mem_replicate hc]
    decide
  have marks (hc : c = '0' ∨ c = '.' ∨ c = 'e' ∨ c = '+' ∨ c = '-') : isNumeralChar c = true := by
    rcases hc with rfl | rfl | rfl | rfl | rfl <;> decide
  simp only [layout] at h
  split at h
  · exact marks (by simp at h; tauto)
  split at h
  · split at h
    · simp only [List.cons_append, List.mem_cons, List.mem_append] at h
      rcases h with h | h | h | h
      · exact marks (.inl h)
      · exact marks (.inr (.inl h))
      · exact zeros h
      · exact digits h
    split at h
    · simp only [List.append_assoc, List.mem_append, List.mem_cons, List.not_mem_nil, or_false] at h
      rcases h with h | h | h | h
      · exact digits h
      · exact zeros h
      · exact marks (.inr (.inl h))
      · exact marks (.inl h)
    · rw [List.mem_append, List.mem_cons] at h
      rcases h with h | h | h
      · exact digits (List.mem_of_mem_take h)
      · exact marks (.inr (.inl h))
      · exact digits (List.mem_of_mem_drop h)
  · rw [List.mem_append, List.mem_cons, List.mem_cons] at h
    rcases h with h | h | h | h
    · split at h
      · next d hd => exact digits (by rw [hd]; exact h)
      · next d rest _ hd =>
        rcases List.mem_cons.1 h with rfl | h
        · exact digits (by rw [hd]; exact List.mem_cons_self)
        rcases List.mem_cons.1 h with h | h
        · exact marks (.inr (.inl h))
        · exact digits (by rw [hd]; exact List.mem_cons_of_mem _ h)
      · cases h
    · exact marks (.inr (.inr (.inl h)))
    · exact marks (by split at h <;> simp [h])
    · exact isNumeralChar_of_isDigit (isDigit_of_mem_padded h)

theorem mark_mem_layout (s : Scientific) : '.' ∈ layout s ∨ 'e' ∈ layout s := by
  simp only [layout]
  split
  · exact .inl (by decide)
  split
  · split
    · simp
    split
    · simp
    · simp
  · simp

/-- The text of a finite double is a number that has a point or an exponent. -/
theorem toText_finite {x : Double} (hx : x.isFinite = true) :
    (∀ c ∈ x.toText.toList, isNumeralChar c = true) ∧
      ('.' ∈ x.toText.toList ∨ 'e' ∈ x.toText.toList) := by
  cases x with
  | nan => cases hx
  | infinite negative => cases hx
  | finite negative m e =>
    have chars (c : Char) : c ∈ layout (trimmed (Scientific.shortest m e)) →
        isNumeralChar c = true := isNumeralChar_of_mem_layout
    have mark := mark_mem_layout (trimmed (Scientific.shortest m e))
    cases negative with
    | false => simpa [toText] using And.intro chars mark
    | true =>
      have sign : isNumeralChar '-' = true := by decide
      simpa [toText, sign] using And.intro chars mark

end Double
end SyntheticRows
