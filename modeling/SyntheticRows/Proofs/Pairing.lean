import Mathlib.Data.List.Forall2

/-!
# Lists paired item by item

What is needed of `List.Forall₂` beyond the library: partners of single items, lists chosen item by
item, chains of two pairings, and lists that are put together.
-/
namespace SyntheticRows

variable {α β γ : Type} {R : α → β → Prop} {S : β → γ → Prop}

theorem partner_right {l : List α} {u : List β} (h : List.Forall₂ R l u) {a : α} (ha : a ∈ l) :
    ∃ b ∈ u, R a b := by
  induction h with
  | nil => cases ha
  | cons hab _ ih =>
    rcases List.mem_cons.1 ha with rfl | ha
    · exact ⟨_, List.mem_cons_self, hab⟩
    · obtain ⟨b, hb, h⟩ := ih ha
      exact ⟨b, List.mem_cons_of_mem _ hb, h⟩

theorem partner_left {l : List α} {u : List β} (h : List.Forall₂ R l u) {b : β} (hb : b ∈ u) :
    ∃ a ∈ l, R a b := partner_right h.flip hb

theorem partner_at {l : List α} {u : List β} (h : List.Forall₂ R l u) {k : ℕ} {a : α}
    (ha : l[k]? = some a) : ∃ b, u[k]? = some b ∧ R a b := by
  induction h generalizing k with
  | nil => cases ha
  | @cons a b l u hab _ ih =>
    cases k with
    | zero =>
      cases ha
      exact ⟨b, rfl, hab⟩
    | succ k => exact ih ha

/-- Each pair remembers that its first item is in the list. -/
theorem pairing_mem {l : List α} {u : List β} (h : List.Forall₂ R l u) :
    List.Forall₂ (fun a b => a ∈ l ∧ R a b) l u :=
  (List.forall₂_and_left _ _).2 ⟨fun _ ha => ha, h⟩

theorem pairing_of_forall {l : List α} (h : ∀ a ∈ l, ∃ b, R a b) : ∃ u, List.Forall₂ R l u := by
  induction l with
  | nil => exact ⟨[], .nil⟩
  | cons a l ih =>
    obtain ⟨b, hb⟩ := h a List.mem_cons_self
    obtain ⟨u, hu⟩ := ih fun x hx => h x (List.mem_cons_of_mem _ hx)
    exact ⟨b :: u, .cons hb hu⟩

/-- A pairing in two steps is one of lists with a list in between. -/
theorem pairing_comp {l : List α} {w : List γ} :
    List.Forall₂ (fun a c => ∃ b, R a b ∧ S b c) l w ↔
      ∃ u, List.Forall₂ R l u ∧ List.Forall₂ S u w := by
  constructor
  · intro h
    induction h with
    | nil => exact ⟨[], .nil, .nil⟩
    | cons hac _ ih =>
      obtain ⟨b, hab, hbc⟩ := hac
      obtain ⟨u, hl, hw⟩ := ih
      exact ⟨b :: u, .cons hab hl, .cons hbc hw⟩
  · rintro ⟨u, hl, hw⟩
    induction hl generalizing w with
    | nil => cases hw; exact .nil
    | cons hab _ ih =>
      cases hw with
      | cons hbc hrest => exact .cons ⟨_, hab, hbc⟩ (ih hrest)

/-- Pairs stay at their places. -/
theorem pairing_zipIdx {l : List α} {u : List β} (h : List.Forall₂ R l u) (k : ℕ) :
    List.Forall₂ (fun a b => R a.1 b.1 ∧ a.2 = b.2) (l.zipIdx k) (u.zipIdx k) := by
  induction h generalizing k with
  | nil => exact .nil
  | cons hab _ ih => exact .cons ⟨hab, rfl⟩ (ih (k + 1))

/-- What is made of paired items is paired. -/
theorem pairing_map {δ : Type} {f : α → γ} {g : β → δ} {Q : γ → δ → Prop} {l : List α} {u : List β}
    (h : List.Forall₂ (fun a b => Q (f a) (g b)) l u) :
    List.Forall₂ Q (l.map f) (u.map g) := by
  rw [List.forall₂_map_left_iff, List.forall₂_map_right_iff]
  exact h

theorem pairing_append {l l' : List α} {u : List β} :
    List.Forall₂ R (l ++ l') u ↔
      ∃ v w, List.Forall₂ R l v ∧ List.Forall₂ R l' w ∧ u = v ++ w := by
  constructor
  · intro h
    induction l generalizing u with
    | nil => exact ⟨[], u, .nil, h, rfl⟩
    | cons a l ih =>
      cases h with
      | cons hab hrest =>
        obtain ⟨v, w, hv, hw, rfl⟩ := ih hrest
        exact ⟨_ :: v, w, .cons hab hv, hw, rfl⟩
  · rintro ⟨v, w, hv, hw, rfl⟩
    exact List.rel_append hv hw

/-- Lists put together are paired part by part. -/
theorem pairing_flatten {ls : List (List α)} {u : List β} :
    List.Forall₂ R ls.flatten u ↔
      ∃ us, List.Forall₂ (List.Forall₂ R) ls us ∧ u = us.flatten := by
  constructor
  · intro h
    induction ls generalizing u with
    | nil => cases h; exact ⟨[], .nil, rfl⟩
    | cons l ls ih =>
      obtain ⟨v, w, hv, hw, rfl⟩ := pairing_append.1 h
      obtain ⟨us, hus, rfl⟩ := ih hw
      exact ⟨v :: us, .cons hv hus, rfl⟩
  · rintro ⟨us, hus, rfl⟩
    exact List.rel_flatten hus

end SyntheticRows
