import SyntheticRows.Compile.Rebuild
import SyntheticRows.Proofs.Compile.Failure

/-!
# Compilations that succeed

The parts of a batch compile with warnings, and those of an update with a count of the draws. Here
a successful compilation is taken apart: what it returns is put together from what its parts
return. The warnings play no role in that.
-/
namespace SyntheticRows

variable {α β : Type}

/-- What a compilation ends with, its warnings left aside. -/
def Warned.result (x : Warned α) : Except Error α := (x.run.run []).1

/-- The compilation can end with the result, whatever was warned of before. -/
def Returns (x : Warned α) (a : α) : Prop := ∃ w w', x.run.run w = (.ok a, w')

theorem returns_of_result {x : Warned α} {a : α} (h : x.result = .ok a) : Returns x a :=
  ⟨[], (x.run.run []).2, by rw [← h]; rfl⟩

/-- A list is gone through from the left, with an accumulator that each item changes. -/
inductive Folded (P : β → α → β → Prop) : β → List α → β → Prop
  | nil (b : β) : Folded P b [] b
  | cons {a : α} {l : List α} {b b₁ b₂ : β} :
    P b a b₁ → Folded P b₁ l b₂ → Folded P b (a :: l) b₂

namespace Folded

variable {P Q : β → α → β → Prop} {a : α} {l l' : List α} {b b' : β}

theorem imp (hpq : ∀ b a b', P b a b' → Q b a b') (h : Folded P b l b') : Folded Q b l b' := by
  induction h with
  | nil b => exact .nil b
  | cons ha _ ih => exact .cons (hpq _ _ _ ha) ih

@[simp] theorem nil_iff : Folded P b [] b' ↔ b' = b := by
  constructor
  · intro h; cases h; rfl
  · rintro rfl; exact .nil _

theorem cons_iff : Folded P b (a :: l) b' ↔ ∃ b₁, P b a b₁ ∧ Folded P b₁ l b' := by
  constructor
  · intro h; cases h; exact ⟨_, ‹_›, ‹_›⟩
  · rintro ⟨b₁, ha, hl⟩; exact .cons ha hl

theorem append_iff : Folded P b (l ++ l') b' ↔ ∃ b₁, Folded P b l b₁ ∧ Folded P b₁ l' b' := by
  induction l generalizing b with
  | nil => simp
  | cons a l ih =>
    simp only [List.cons_append, cons_iff, ih]
    constructor
    · rintro ⟨b₁, ha, b₂, hl, hl'⟩; exact ⟨b₂, ⟨b₁, ha, hl⟩, hl'⟩
    · rintro ⟨b₂, ⟨b₁, ha, hl⟩, hl'⟩; exact ⟨b₁, ha, b₂, hl, hl'⟩

end Folded

namespace Returns

variable {x : Warned α} {f : α → Warned β} {a a' : α} {b : β}

theorem of_bind (h : Returns (x >>= f) b) : ∃ a, Returns x a ∧ Returns (f a) b := by
  obtain ⟨w, w', h⟩ := h
  change ExceptT.bind x f w = _ at h
  simp only [ExceptT.bind, ExceptT.mk, bind, StateT.bind] at h
  rcases hx : x w with ⟨_ | a, w₁⟩
  · rw [hx] at h
    cases h
  · rw [hx] at h
    exact ⟨a, ⟨w, w₁, hx⟩, ⟨w₁, w', h⟩⟩

theorem of_pure (h : Returns (pure a) a') : a' = a := by
  obtain ⟨w, w', h⟩ := h
  cases h; rfl

theorem of_throw {e : Error} (h : Returns (throw e) a) : False := by
  obtain ⟨w, w', h⟩ := h
  cases h

theorem of_lift {x : Except Error α} (h : Returns (liftM x) a) : x = .ok a := by
  obtain ⟨w, w', h⟩ := h
  cases h; rfl

theorem of_mapM {f : α → Warned β} {l : List α} {bs : List β} (h : Returns (l.mapM f) bs) :
    List.Forall₂ (fun a b => Returns (f a) b) l bs := by
  induction l generalizing bs with
  | nil => rw [of_pure h]; exact .nil
  | cons a l ih =>
    rw [List.mapM_cons] at h
    obtain ⟨b, ha, h⟩ := of_bind h
    obtain ⟨bs', hl, h⟩ := of_bind h
    rw [of_pure h]
    exact .cons ha (ih hl)

theorem of_foldlM {f : β → α → Warned β} {l : List α} {b b' : β}
    (h : Returns (l.foldlM f b) b') : Folded (fun b a b' => Returns (f b a) b') b l b' := by
  induction l generalizing b with
  | nil => rw [of_pure h]; exact .nil b
  | cons a l ih =>
    rw [List.foldlM_cons] at h
    obtain ⟨b₁, ha, h⟩ := of_bind h
    exact .cons ha (ih h)

end Returns

/-- The items of a list are treated one after the other, each from the state that the one before
leaves. -/
inductive Threaded {σ : Type} (P : α → σ → β → σ → Prop) : List α → σ → List β → σ → Prop
  | nil (s : σ) : Threaded P [] s [] s
  | cons {a : α} {b : β} {l : List α} {bs : List β} {s s₁ s₂ : σ} :
    P a s b s₁ → Threaded P l s₁ bs s₂ → Threaded P (a :: l) s (b :: bs) s₂

namespace Target

/-- The part of an update returns a result and moves the count of the draws. -/
def Draws (x : Drawing α) (n : Nat) (a : α) (m : Nat) : Prop := Returns (x.run n) (a, m)

namespace Draws

variable {x : Drawing α} {f : α → Drawing β} {a a' : α} {b : β} {n m : Nat}

theorem of_bind (h : Draws (x >>= f) n b m) : ∃ a k, Draws x n a k ∧ Draws (f a) k b m := by
  obtain ⟨⟨a, k⟩, hx, hf⟩ := Returns.of_bind h
  exact ⟨a, k, hx, hf⟩

theorem of_pure (h : Draws (pure a) n a' m) : a = a' ∧ n = m := by
  cases Returns.of_pure h
  exact ⟨rfl, rfl⟩

theorem of_map {g : α → β} (h : Draws (g <$> x) n b m) : ∃ a, Draws x n a m ∧ g a = b := by
  obtain ⟨⟨a, k⟩, hx, h⟩ := Returns.of_bind h
  cases Returns.of_pure h
  exact ⟨a, hx, rfl⟩

theorem of_throw {e : Error} (h : Draws (throw e) n a m) : False := by
  obtain ⟨w, w', h⟩ := h
  cases h

theorem of_warned {x : Warned α} (h : Draws (liftM x) n a m) : Returns x a ∧ n = m := by
  obtain ⟨a', hx, h⟩ := Returns.of_bind h
  cases Returns.of_pure h
  exact ⟨hx, rfl⟩

theorem of_lift {x : Except Error α} (h : Draws (liftM x) n a m) : x = .ok a ∧ n = m := by
  obtain ⟨w, w', h⟩ := h
  cases x <;> cases h
  exact ⟨rfl, rfl⟩

theorem of_takeDraws {k first : Nat} (h : Draws (takeDraws k) n first m) :
    n = first ∧ n + k = m := by
  cases Returns.of_pure h
  exact ⟨rfl, rfl⟩

theorem of_mapM {f : α → Drawing β} {l : List α} {bs : List β} (h : Draws (l.mapM f) n bs m) :
    Threaded (fun a k b k' => Draws (f a) k b k') l n bs m := by
  induction l generalizing n bs with
  | nil =>
    obtain ⟨rfl, rfl⟩ := of_pure h
    exact .nil n
  | cons a l ih =>
    rw [List.mapM_cons] at h
    obtain ⟨b, k, ha, h⟩ := of_bind h
    obtain ⟨bs', k', hl, h⟩ := of_bind h
    obtain ⟨rfl, rfl⟩ := of_pure h
    exact .cons ha (ih hl)

end Draws
end Target
end SyntheticRows
