import SyntheticRows.Proofs.Json.Written

/-!
# How JSON is written

What JSON is written has no NUL, whatever the value; and where a value cannot be written, the error
is not one about the specification.
-/
namespace SyntheticRows
namespace Json

/-- What a computation gives has a property, and where it fails it makes no report. -/
structure Tidy {α : Type} (P : α → Prop) (x : Except Error α) : Prop where
  result : ∀ a, x = .ok a → P a
  failure : ∀ e, x = .error e → ∀ cause, e ≠ .configuration cause

/-- A text without NUL. -/
abbrev NulFree (s : String) : Prop := '\x00' ∉ s.toList

namespace Tidy

variable {α β : Type} {P : α → Prop} {Q : β → Prop} {x : Except Error α} {f : α → Except Error β}

theorem ok {a : α} (h : P a) : Tidy P (.ok a) := by
  refine ⟨fun b same => ?_, fun e none => ?_⟩
  · cases same
    exact h
  · cases none

theorem error {e : Error} (h : ∀ cause, e ≠ .configuration cause) : Tidy P (.error e) := by
  refine ⟨fun a none => ?_, fun e' same => ?_⟩
  · cases none
  · cases same
    exact h

theorem bind (hx : Tidy P x) (hf : ∀ a, P a → Tidy Q (f a)) : Tidy Q (x >>= f) := by
  cases x with
  | error e => exact error (hx.failure e rfl)
  | ok a => exact hf a (hx.result a rfl)

end Tidy

variable {other : Value → Except Error String}

theorem nul_not_mem_hexDigits {u : ℕ} (h : u < 0x10000) : '\x00' ∉ Text.hexDigits 4 u := by
  obtain ⟨a, b, c, d, digits, value⟩ := hexDigits_unit h
  have none : hexValue? '\x00' = none := by decide
  rw [digits]
  intro there
  simp only [List.mem_cons, List.not_mem_nil, or_false] at there
  rcases there with rfl | rfl | rfl | rfl <;> simp [natOfBase?, none] at value

theorem nul_not_mem_escapeChar (c : Char) : '\x00' ∉ escapeChar c := by
  unfold escapeChar
  split
  iterate 5 decide
  split
  · decide
  split
  · decide
  split
  · rename_i plain
    rw [List.mem_singleton]
    rintro rfl
    exact absurd plain (by decide)
  · rw [List.mem_flatMap]
    rintro ⟨u, hu, there⟩
    have digits := nul_not_mem_hexDigits (units16_lt c u hu)
    simp [digits] at there

theorem nulFree_writeText (s : String) : NulFree (writeText s) := by
  simp [NulFree, writeText, nul_not_mem_escapeChar]

theorem nulFree_joined {ts : List String} (h : ∀ t ∈ ts, NulFree t) :
    NulFree (Text.joined "," ts) := by
  cases ts with
  | nil => decide
  | cons t ts =>
    rw [List.forall_mem_cons] at h
    rw [NulFree, Text.toList_joined_cons, List.mem_append, List.mem_flatMap]
    rintro (there | ⟨t', ht', there⟩)
    · exact h.1 there
    · rcases List.mem_append.1 there with comma | there
      · exact absurd comma (by decide)
      · exact h.2 t' ht' there

theorem nulFree_writeFloat (x : Double) : NulFree (writeFloat x) := by
  cases x with
  | nan => decide
  | infinite negative => cases negative <;> decide
  | finite s m e =>
    obtain ⟨chars, _⟩ := Double.toText_finite (x := .finite s m e) rfl
    intro there
    exact absurd (chars _ there) (by decide)

theorem tidy_writable (values : List Value) : Tidy (fun _ => True) (writable values) := by
  unfold writable
  split
  · exact .ok trivial
  · exact .error fun _ h => by cases h

theorem tidy_writeInt (i : Int) : Tidy NulFree (writeInt i) := by
  refine (tidy_writable _).bind fun _ _ => .ok fun there => ?_
  rcases mem_toString_int there with digit | sign
  · exact absurd digit (by decide)
  · exact absurd sign (by decide)

theorem tidy_writeKey (v : Value) : Tidy NulFree (writeKey v) := by
  cases v with
  | text s => exact .ok (nulFree_writeText s)
  | null | bool _ | float _ => exact .ok (nulFree_writeText _)
  | int i => exact (tidy_writeInt i).bind fun t _ => .ok (nulFree_writeText t)
  | _ => exact .error fun _ h => by cases h

theorem nulFree_append {s t : String} (hs : NulFree s) (ht : NulFree t) : NulFree (s ++ t) := by
  simpa [NulFree] using ⟨hs, ht⟩

theorem tidy_cons {x : Except Error String} {xs : Except Error (List String)}
    (h : Tidy NulFree x) (hs : Tidy (∀ t ∈ ·, NulFree t) xs) :
    Tidy (∀ t ∈ ·, NulFree t) (x >>= fun t => xs >>= fun ts => .ok (t :: ts)) :=
  h.bind fun _ first => hs.bind fun _ rest => .ok (List.forall_mem_cons.2 ⟨first, rest⟩)

mutual

theorem tidy_write (h : ∀ v, Tidy NulFree (other v)) : (v : Value) → Tidy NulFree (write other v)
  | .null => .ok (by decide)
  | .bool b => .ok (by cases b <;> decide)
  | .int i => tidy_writeInt i
  | .float x => .ok (nulFree_writeFloat x)
  | .text s => .ok (nulFree_writeText s)
  | .list items | .tuple items => (tidy_writeItems h items).bind fun _ inside =>
    .ok (nulFree_append (nulFree_append (by decide) (nulFree_joined inside)) (by decide))
  | .mapping entries => (tidy_writeEntries h entries).bind fun _ inside =>
    .ok (nulFree_append (nulFree_append (by decide) (nulFree_joined inside)) (by decide))
  | .set items => h (.set items)
  | .date d => h (.date d)
  | .datetime t => h (.datetime t)
  | .bytes content => h (.bytes content)

theorem tidy_writeItems (h : ∀ v, Tidy NulFree (other v)) :
    (vs : List Value) → Tidy (∀ t ∈ ·, NulFree t) (writeItems other vs)
  | [] => .ok (by simp)
  | v :: vs => tidy_cons (tidy_write h v) (tidy_writeItems h vs)

theorem tidy_writeEntries (h : ∀ v, Tidy NulFree (other v)) :
    (es : List (Value × Value)) → Tidy (∀ t ∈ ·, NulFree t) (writeEntries other es)
  | [] => .ok (by simp)
  | e :: es => tidy_cons (tidy_writeEntry h e) (tidy_writeEntries h es)

theorem tidy_writeEntry (h : ∀ v, Tidy NulFree (other v)) :
    (e : Value × Value) → Tidy NulFree (writeEntry other e)
  | (k, v) => (tidy_writeKey k).bind fun _ key => (tidy_write h v).bind fun _ content =>
    .ok (nulFree_append (nulFree_append key (by decide)) content)

end

theorem tidy_writeStrict (v : Value) : Tidy NulFree (writeStrict v) :=
  tidy_write (fun _ => .error fun _ h => by cases h) v

theorem tidy_writeLoose (v : Value) : Tidy NulFree (writeLoose v) :=
  tidy_write (fun o => ((tidy_writable [o]).bind (Q := fun _ => True) fun _ _ => .ok trivial).bind
    fun _ _ => .ok (nulFree_writeText _)) v

end Json
end SyntheticRows
