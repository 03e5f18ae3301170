import Mathlib.Data.Int.Notation
import SyntheticRows.Proofs.Compile.Failure
import SyntheticRows.Sql.Draw

/-!
# Compilations that agree

Two compilations agree if they fail together and their results are related otherwise. Compilations
that take the same steps agree if each of their steps does.
-/
namespace SyntheticRows
open Sql

variable {ε α β γ δ : Type}

/-- Both computations fail, or both have results, which are related. -/
inductive Agree (Q : α → β → Prop) : Except ε α → Except ε β → Prop
  | ok {x : α} {y : β} : Q x y → Agree Q (.ok x) (.ok y)
  | error {a b : ε} : Agree Q (.error a) (.error b)

namespace Agree

variable {P : α → β → Prop} {Q : γ → δ → Prop} {x : Except ε α} {y : Except ε β}
  {f : α → Except ε γ} {g : β → Except ε δ} {l : List α} {l' : List β}

theorem same {Q : α → α → Prop} (h : ∀ a, x = .ok a → Q a a) : Agree Q x x := by
  cases x with
  | ok a => exact .ok (h a rfl)
  | error _ => exact .error

theorem bind (h : Agree P x y) (hf : ∀ a b, P a b → Agree Q (f a) (g b)) :
    Agree Q (x >>= f) (y >>= g) := by
  cases h with
  | ok hp => exact hf _ _ hp
  | error => exact .error

theorem map {f : α → γ} {g : β → δ} (h : Agree P x y) (hf : ∀ a b, P a b → Q (f a) (g b)) :
    Agree Q (f <$> x) (g <$> y) := by
  cases h with
  | ok hp => exact .ok (hf _ _ hp)
  | error => exact .error

theorem of_iff (h : (∃ a, x = .ok a) ↔ ∃ b, y = .ok b)
    (hP : ∀ a b, x = .ok a → y = .ok b → P a b) : Agree P x y := by
  cases x with
  | ok a =>
    obtain ⟨b, rfl⟩ := h.1 ⟨a, rfl⟩
    exact .ok (hP a b rfl rfl)
  | error _ =>
    cases y with
    | ok b =>
      obtain ⟨a, ha⟩ := h.2 ⟨b, rfl⟩
      cases ha
    | error _ => exact .error

/-- Related results with where they come from. -/
theorem attach (h : Agree P x y) : Agree (fun a b => P a b ∧ x = .ok a ∧ y = .ok b) x y := by
  cases h with
  | ok hp => exact .ok ⟨hp, rfl, rfl⟩
  | error => exact .error

/-- A step that both take leaves what they have in common. -/
theorem bindSame {f g : α → Except ε γ} {Q : γ → γ → Prop}
    (h : ∀ a, x = .ok a → Agree Q (f a) (g a)) : Agree Q (x >>= f) (x >>= g) := by
  cases x with
  | ok a => exact h a rfl
  | error _ => exact .error

theorem mapM (h : List.Forall₂ P l l') (hf : ∀ a b, P a b → Agree Q (f a) (g b)) :
    Agree (List.Forall₂ Q) (l.mapM f) (l'.mapM g) := by
  induction h with
  | nil => exact .ok .nil
  | cons first _ ih =>
    rw [List.mapM_cons, List.mapM_cons]
    exact (hf _ _ first).bind fun _ _ hq => ih.bind fun _ _ hqs => .ok (.cons hq hqs)

theorem foldlM {S : γ → δ → Prop} {f : γ → α → Except ε γ} {g : δ → β → Except ε δ} {s : γ} {s' : δ}
    (h : List.Forall₂ P l l') (hs : S s s')
    (hf : ∀ s s' a b, S s s' → P a b → Agree S (f s a) (g s' b)) :
    Agree S (l.foldlM f s) (l'.foldlM g s') := by
  induction h generalizing s s' with
  | nil => exact .ok hs
  | cons first _ ih =>
    rw [List.foldlM_cons, List.foldlM_cons]
    exact (hf _ _ _ _ hs first).bind fun _ _ next => ih next

end Agree

namespace Sql.Tagged

/-- Compilations that agree and take the same tags. -/
def Agrees (Q : α → β → Prop) (x : Tagged α) (y : Tagged β) : Prop :=
  ∀ tags, Agree (fun p q => Q p.1 q.1 ∧ p.2 = q.2) (x.run tags) (y.run tags)

namespace Agrees

variable {P : α → β → Prop} {Q : γ → δ → Prop} {x : Tagged α} {y : Tagged β} {f : α → Tagged γ}
  {g : β → Tagged δ}

theorem pure {a : α} {b : β} (h : P a b) : Agrees P (Pure.pure a) (Pure.pure b) :=
  fun _ => .ok ⟨h, rfl⟩

theorem lift {x : Except Error α} {y : Except Error β} (h : Agree P x y) :
    Agrees P (liftM x) (liftM y) := by
  intro tags
  cases h with
  | ok hp => exact .ok ⟨hp, rfl⟩
  | error => exact .error

theorem bind (h : Agrees P x y) (hf : ∀ a b, P a b → Agrees Q (f a) (g b)) :
    Agrees Q (x >>= f) (y >>= g) := by
  intro tags
  refine (h tags).bind fun (a, between) (b, _) related => ?_
  obtain ⟨hab, rfl⟩ := related
  exact hf a b hab between

/-- A step that both take. -/
theorem bindSame {x : Tagged α} {f g : α → Tagged γ} {Q : γ → γ → Prop}
    (h : ∀ a, Agrees Q (f a) (g a)) : Agrees Q (x >>= f) (x >>= g) :=
  fun _ => Agree.bindSame fun (a, between) _ => h a between

theorem mapM {l : List α} {l' : List β} (h : List.Forall₂ P l l')
    (hf : ∀ a b, P a b → Agrees Q (f a) (g b)) :
    Agrees (List.Forall₂ Q) (l.mapM f) (l'.mapM g) := by
  induction h with
  | nil => exact pure .nil
  | cons first _ ih =>
    rw [List.mapM_cons, List.mapM_cons]
    exact (hf _ _ first).bind fun _ _ hq => ih.bind fun _ _ hqs => pure (.cons hq hqs)

theorem engine {e : Engine} {error : Error} {f g : Engine → Tagged γ} {Q : γ → γ → Prop}
    (h : Agrees Q (f e) (g e)) :
    Agrees Q (liftM ((Dialect.of e).engine error) >>= f)
      (liftM ((Dialect.of e).engine error) >>= g) := h

theorem bindTag {f : ℤ → Tagged γ} {g : ℤ → Tagged δ} (h : ∀ tag, Agrees Q (f tag) (g tag)) :
    Agrees Q (nextTag >>= f) (nextTag >>= g) := fun _ => h _ _

end Agrees
end Sql.Tagged
end SyntheticRows
