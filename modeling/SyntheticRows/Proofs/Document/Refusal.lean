import SyntheticRows.Proofs.Document.Entries
import SyntheticRows.Proofs.Value.Parts
import SyntheticRows.Spec.Table
import SyntheticRows.Spec.Transformation

/-!
# How readers fail

A reader that fails reports what is wrong with its part of a document, unless it would have to write
a number with too many digits for that, or slips: something goes wrong that nobody has checked, and
the error is not one about the document. `Slips` says of a reader exactly how it slips.
-/
namespace SyntheticRows

variable {α β : Type} {w : Prop} {S S' : Error → Prop} {x : Except Error α} {e : Error}

/-- The errors by which a reader slips are those of a set. Any other error is a report, or a number
that is too long for one, which takes a part that cannot be written. -/
structure Slips (w : Prop) (S : Error → Prop) (x : Except Error α) : Prop where
  exactly : ∀ e, S e → x = .error e ∧ ∀ cause, e ≠ .configuration cause
  otherwise : ∀ e, x = .error e → (∃ cause, e = .configuration cause) ∨
    (e = .tooManyDigits ∧ ¬w) ∨ S e

namespace Slips

/-- A reader that never slips. -/
abbrev Never (w : Prop) (x : Except Error α) : Prop := Slips w (fun _ => False) x

theorem congr (h : Slips w S x) (same : ∀ e, S' e ↔ S e) : Slips w S' x :=
  ⟨fun e hs => h.exactly e ((same e).1 hs),
    fun e hx => (h.otherwise e hx).imp_right (.imp_right (same e).2)⟩

theorem never (h : Never w x) (none : ∀ e, ¬S e) : Slips w S x :=
  h.congr fun e => iff_false_intro (none e)

theorem ok (a : α) : Never w (.ok a) :=
  ⟨fun _ h => h.elim, by simp⟩

theorem writable {values : List Value} (h : w → values.all Value.isWritable = true) :
    Never w (SyntheticRows.writable values) := by
  refine ⟨fun _ h => h.elim, fun e he => .inr (.inl ?_)⟩
  unfold SyntheticRows.writable at he
  split at he
  · cases he
  · rename_i long
    cases he
    exact ⟨rfl, mt h long⟩

theorem bind {T : α → Error → Prop} {f : α → Except Error β} (hx : Slips w S x)
    (hf : ∀ a, x = .ok a → Slips w (T a) (f a)) :
    Slips w (fun e => S e ∨ ∃ a, x = .ok a ∧ T a e) (x >>= f) := by
  constructor
  · rintro e (first | ⟨a, ha, later⟩)
    · obtain ⟨fails, proper⟩ := hx.exactly e first
      exact ⟨by rw [fails]; rfl, proper⟩
    · obtain ⟨fails, proper⟩ := (hf a ha).exactly e later
      exact ⟨by rw [ha]; exact fails, proper⟩
  · intro e he
    rcases except_error_of_bind he with first | ⟨a, ha, later⟩
    · exact (hx.otherwise e first).imp_right (.imp_right .inl)
    · exact ((hf a ha).otherwise e later).imp_right (.imp_right fun hs => .inr ⟨a, ha, hs⟩)

/-- A part that never slips is followed by one that may. -/
theorem after {T : α → Error → Prop} {f : α → Except Error β} (hx : Never w x)
    (hf : ∀ a, x = .ok a → Slips w (T a) (f a)) :
    Slips w (fun e => ∃ a, x = .ok a ∧ T a e) (x >>= f) :=
  (bind hx hf).congr fun _ => by simp

/-- A part that may slip is followed by one that never does. -/
theorem before {f : α → Except Error β} (hx : Slips w S x) (hf : ∀ a, x = .ok a → Never w (f a)) :
    Slips w S (x >>= f) :=
  (bind hx hf).congr fun _ => by simp

/-- A part that never slips can be passed over where a slip shows that it is passed. -/
theorem bind_never {f : α → Except Error β} (hx : Never w x) (hf : ∀ a, x = .ok a → Slips w S (f a))
    (reached : ∀ e, S e → ∃ a, x = .ok a) : Slips w S (x >>= f) := by
  refine (after hx hf).congr fun e => ⟨fun hs => ?_, fun ⟨_, _, hs⟩ => hs⟩
  obtain ⟨a, ha⟩ := reached e hs
  exact ⟨a, ha, hs⟩

theorem never_bind {f : α → Except Error β} (hx : Never w x)
    (hf : ∀ a, x = .ok a → Never w (f a)) : Never w (x >>= f) :=
  before hx hf

theorem map {f : α → β} (h : Slips w S x) : Slips w S (f <$> x) := by
  cases x with
  | ok a => exact (ok (f a)).never fun e hs => nomatch (h.exactly e hs).1
  | error e' =>
    refine ⟨fun e hs => ?_, fun e he => h.otherwise e ?_⟩
    · obtain ⟨fails, proper⟩ := h.exactly e hs
      cases fails
      exact ⟨rfl, proper⟩
    · cases he
      rfl

theorem refuse {cause : Cause} (h : w → cause.shown.all Value.isWritable = true) :
    Never w (SyntheticRows.refuse cause : Except Error α) := by
  refine bind_never (writable h) (fun _ _ => ?_) fun _ hs => hs.elim
  exact ⟨fun _ hs => hs.elim, fun e he => .inl ⟨cause, by cases he; rfl⟩⟩

theorem shown {v : Value} (h : w → v.isWritable = true) : Never w v.shown :=
  bind_never (writable (by simpa using h)) (fun _ _ => ok _) fun _ hs => hs.elim

theorem orError {x : Option α} (proper : ∀ cause, e ≠ .configuration cause) :
    Slips w (fun e' => x = none ∧ e' = e) (SyntheticRows.orError e x) := by
  cases x with
  | none =>
    refine ⟨?_, fun e' he => .inr (.inr ⟨rfl, by cases he; rfl⟩)⟩
    rintro e' ⟨_, rfl⟩
    exact ⟨rfl, proper⟩
  | some a => exact (ok a).never (by simp)

/-- The first item of a list at which a pass slips. -/
def AtFirst (f : α → Except Error β) (T : α → Error → Prop) (l : List α) (e : Error) : Prop :=
  ∃ before a after, l = before ++ a :: after ∧ (∀ b ∈ before, ∃ c, f b = .ok c) ∧ T a e

theorem atFirst_nil {f : α → Except Error β} {T : α → Error → Prop} : ¬AtFirst f T [] e := by
  rintro ⟨before, a, after, split, _⟩
  simp at split

theorem atFirst_cons {f : α → Except Error β} {T : α → Error → Prop} {a : α} {l : List α} :
    AtFirst f T (a :: l) e ↔ T a e ∨ ∃ b, f a = .ok b ∧ AtFirst f T l e := by
  constructor
  · rintro ⟨before, a', after, split, passed, slip⟩
    cases before with
    | nil =>
      cases split
      exact .inl slip
    | cons b before =>
      cases split
      obtain ⟨c, hc⟩ := passed a (by simp)
      exact .inr ⟨c, hc, before, a', after, rfl, fun x hx => passed x (by simp [hx]), slip⟩
  · rintro (slip | ⟨b, hb, before, a', after, rfl, passed, slip⟩)
    · exact ⟨[], a, l, rfl, by simp, slip⟩
    · refine ⟨a :: before, a', after, rfl, fun x hx => ?_, slip⟩
      rcases List.mem_cons.1 hx with rfl | hx
      · exact ⟨b, hb⟩
      · exact passed x hx

theorem mapM {f : α → Except Error β} {T : α → Error → Prop} {l : List α}
    (h : ∀ a ∈ l, Slips w (T a) (f a)) : Slips w (AtFirst f T l) (l.mapM f) := by
  induction l with
  | nil => exact (ok []).never fun e => atFirst_nil
  | cons a l ih =>
    rw [List.mapM_cons]
    refine (bind (T := fun _ => AtFirst f T l) (h a (by simp)) fun b hb => ?_).congr fun e =>
      atFirst_cons
    rw [bind_pure_comp]
    exact map (ih fun x hx => h x (by simp [hx]))

end Slips

/-- A whole number that is too large for a double. -/
def Value.IsHuge : Value → Prop
  | .int i => (Number.int i).isFinite = false
  | _ => False

namespace Spec

variable {v : Value} {owner field : String}

theorem checkWhole_slips (hv : w → v.isWritable = true) :
    Slips.Never w (checkWhole owner field v) := by
  cases v with
  | int i => exact Slips.ok i
  | _ => exact Slips.refuse (by simpa [Cause.shown] using hv)

theorem checkWhole_ok {i : Int} (h : checkWhole owner field v = .ok i) : v = .int i := by
  cases v with
  | int j => cases h; rfl
  | _ => exact absurd h refuse_ne_ok

theorem checkFinite_slips (hv : w → v.isWritable = true) :
    Slips w (fun e => v.IsHuge ∧ e = .numberTooLarge) (checkFinite owner field v) := by
  have shown (hw : w) : (Cause.notFinite owner field v).shown.all Value.isWritable = true := by
    simpa [Cause.shown] using hv hw
  cases v with
  | int i =>
    simp only [checkFinite]
    split
    · rename_i finite
      exact (Slips.ok _).never fun e hs => by simp [Value.IsHuge, finite] at hs
    · rename_i huge
      refine ⟨?_, fun e he => .inr (.inr ⟨Bool.not_eq_true _ |>.mp huge, by cases he; rfl⟩)⟩
      rintro e ⟨_, rfl⟩
      exact ⟨rfl, fun cause h => by cases h⟩
  | float x =>
    simp only [checkFinite]
    split
    · exact (Slips.ok _).never fun e hs => hs.1
    · exact (Slips.refuse shown).never fun e hs => hs.1
  | _ => exact (Slips.refuse shown).never fun e hs => hs.1

/-- What was checked is the number that was given. -/
theorem checkFinite_ok_iff {n : FiniteNumber} :
    checkFinite owner field v = .ok n ↔ v = .ofNumber n.val := by
  constructor
  · intro h
    cases v with
    | int i | float x =>
      simp only [checkFinite] at h
      split at h <;> cases h
      rfl
    | _ => exact absurd h refuse_ne_ok
  · rintro rfl
    obtain ⟨i | x, finite⟩ := n
    · exact dif_pos finite
    · exact dif_pos finite

theorem checkProbability_slips (hv : w → v.isWritable = true) :
    Slips w (fun e => v.IsHuge ∧ e = .numberTooLarge) (checkProbability owner v) := by
  refine Slips.before (checkFinite_slips hv) fun n hn => ?_
  split
  · exact Slips.ok _
  · refine Slips.refuse fun hw => ?_
    have shown := hv hw
    rw [checkFinite_ok_iff.1 hn] at shown
    simpa [Cause.shown] using shown

end Spec

end SyntheticRows
