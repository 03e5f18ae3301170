import Mathlib.Data.List.Forall2
import SyntheticRows.Error

/-!
# How compilations end

A compilation of several parts fails with the error of the first part that fails, and succeeds if
all parts do. `failure?` keeps nothing of a compilation but its error, for the places where two
compilations with different results have to be told to fail alike.
-/
namespace SyntheticRows

variable {ε α β γ δ : Type}

theorem except_ok_bind (a : α) (f : α → Except ε β) : (Except.ok a >>= f) = f a := rfl

theorem except_error_of_bind {x : Except ε α} {f : α → Except ε β} {e : ε}
    (h : x >>= f = .error e) : x = .error e ∨ ∃ a, x = .ok a ∧ f a = .error e := by
  cases x with
  | error e' => cases h; exact .inl rfl
  | ok a => exact .inr ⟨a, rfl, h⟩

theorem except_ok_of_bind {x : Except ε α} {f : α → Except ε β} {b : β}
    (h : x >>= f = .ok b) : ∃ a, x = .ok a ∧ f a = .ok b := by
  cases x with
  | error e => cases h
  | ok a => exact ⟨a, rfl, h⟩

theorem except_ok_of_map {x : Except ε α} {f : α → β} {b : β} (h : f <$> x = .ok b) :
    ∃ a, x = .ok a ∧ f a = b := by
  cases x with
  | error e => cases h
  | ok a => exact ⟨a, rfl, Except.ok.inj h⟩

theorem except_ok_of_isSome {x : Except ε α} (h : x.toOption.isSome = true) :
    ∃ a, x = .ok a := by
  cases x with
  | error e => cases h
  | ok a => exact ⟨a, rfl⟩

theorem exists_ok_bind_iff {x : Except ε α} {f : α → Except ε β} {P : Prop}
    (h : ∀ a, (∃ b, f a = .ok b) ↔ P) : (∃ b, x >>= f = .ok b) ↔ (∃ a, x = .ok a) ∧ P := by
  constructor
  · rintro ⟨b, run⟩
    obtain ⟨a, first, rest⟩ := except_ok_of_bind run
    exact ⟨⟨a, first⟩, (h a).1 ⟨b, rest⟩⟩
  · rintro ⟨⟨a, rfl⟩, rest⟩
    exact (h a).2 rest

theorem exists_ok_map_iff {x : Except ε α} {f : α → β} :
    (∃ b, f <$> x = .ok b) ↔ ∃ a, x = .ok a := by
  cases x <;> simp [Functor.map, Except.map]

theorem orError_ok_iff {e : Error} {x : Option α} {a : α} : orError e x = .ok a ↔ x = some a := by
  cases x <;> simp [orError]

theorem refuse_ne_ok {cause : Cause} {a : α} : refuse cause ≠ .ok a := by
  intro h
  obtain ⟨_, _, h⟩ := except_ok_of_bind h
  cases h

/-- A pass over a list fails at one of its items. -/
theorem error_of_mapM {f : α → Except ε β} {l : List α} {e : ε} (h : l.mapM f = .error e) :
    ∃ a ∈ l, f a = .error e := by
  induction l with
  | nil => cases h
  | cons a l ih =>
    rw [List.mapM_cons] at h
    rcases except_error_of_bind h with ha | ⟨b, _, h⟩
    · exact ⟨a, by simp, ha⟩
    rcases except_error_of_bind h with hl | ⟨bs, _, h⟩
    · obtain ⟨x, hx, he⟩ := ih hl
      exact ⟨x, by simp [hx], he⟩
    · cases h

/-- A pass over a list succeeds item by item. -/
theorem forall₂_of_mapM {f : α → Except ε β} {l : List α} {bs : List β} (h : l.mapM f = .ok bs) :
    List.Forall₂ (fun a b => f a = .ok b) l bs := by
  induction l generalizing bs with
  | nil => cases h; exact .nil
  | cons a l ih =>
    rw [List.mapM_cons] at h
    obtain ⟨b, ha, h⟩ := except_ok_of_bind h
    obtain ⟨bs', hl, h⟩ := except_ok_of_bind h
    cases h
    exact .cons ha (ih hl)

theorem mapM_of_forall₂ {f : α → Except ε β} {l : List α} {bs : List β}
    (h : List.Forall₂ (fun a b => f a = .ok b) l bs) : l.mapM f = .ok bs := by
  induction h with
  | nil => rfl
  | cons first _ ih =>
    rw [List.mapM_cons, first, ih]
    rfl

theorem mapM_ok {f : α → Except ε β} {g : α → β} {l : List α} (h : ∀ a ∈ l, f a = .ok (g a)) :
    l.mapM f = .ok (l.map g) := by
  induction l with
  | nil => rfl
  | cons a l ih =>
    rw [List.mapM_cons, h a (by simp), ih fun b hb => h b (by simp [hb])]
    rfl

/-- The error of a computation that fails. -/
def failure? : Except ε α → Option ε
  | .error e => some e
  | .ok _ => none

theorem failure?_bind {x : Except ε α} {y : Except ε β} {f : α → Except ε γ}
    {g : β → Except ε δ} (h : failure? x = failure? y)
    (hf : ∀ a b, failure? (f a) = failure? (g b)) : failure? (x >>= f) = failure? (y >>= g) := by
  cases x <;> cases y <;> simp only [failure?, Option.some.injEq, reduceCtorEq] at h
  · rw [h]; rfl
  · exact hf _ _

theorem failure?_bind_same (x : Except ε α) {f : α → Except ε γ} {g : α → Except ε δ}
    (h : ∀ a, failure? (f a) = failure? (g a)) : failure? (x >>= f) = failure? (x >>= g) := by
  cases x with
  | error e => rfl
  | ok a => exact h a

theorem failure?_map (f : α → β) (x : Except ε α) : failure? (f <$> x) = failure? x := by
  cases x <;> rfl

/-- Two passes over a list fail alike if they do at each item. -/
theorem failure?_mapM {f : α → Except ε β} {g : α → Except ε γ} {l : List α}
    (h : ∀ a ∈ l, failure? (f a) = failure? (g a)) :
    failure? (l.mapM f) = failure? (l.mapM g) := by
  induction l with
  | nil => rfl
  | cons a l ih =>
    simp only [List.mapM_cons]
    refine failure?_bind (h a (by simp)) fun _ _ => ?_
    exact failure?_bind (ih fun b hb => h b (by simp [hb])) fun _ _ => rfl

end SyntheticRows
