import SyntheticRows.Proofs.Json.Items
import SyntheticRows.Proofs.Lexical.Numeral
import SyntheticRows.Proofs.Pairing
import SyntheticRows.Sql.Lookup

/-!
# Written lists

The form of a list gives the forms of its items, if these are scalars. What JSON has a form for is
written the same whether or not other things are refused.
-/
namespace SyntheticRows

/-- The values that a literal can stand for, if they are in range. -/
def Value.isScalar : Value → Bool
  | .null | .bool _ | .int _ | .float _ | .text _ | .date _ | .datetime _ => true
  | _ => false

def Value.isMoment : Value → Bool
  | .date _ | .datetime _ => true
  | _ => false

namespace Json

variable {other f g : Value → Except Error String}

theorem writeItems_eq_mapM (vs : List Value) : writeItems other vs = vs.mapM (write other) := by
  induction vs with
  | nil => rfl
  | cons v vs ih => rw [writeItems, ih, List.mapM_cons]

theorem ok_of_write_list {vs : List Value} {p : String} (h : write other (.list vs) = .ok p) :
    ∃ texts, List.Forall₂ (fun v t => write other v = .ok t) vs texts ∧
      p = "[" ++ Text.joined "," texts ++ "]" := by
  rw [write, writeItems_eq_mapM] at h
  obtain ⟨texts, written, h⟩ := except_ok_of_bind h
  exact ⟨texts, forall₂_of_mapM written, (Except.ok.inj h).symm⟩

mutual

/-- What is written for a value stays, if less is refused. -/
theorem write_mono (h : ∀ v t, f v = .ok t → g v = .ok t) :
    (v : Value) → (t : String) → write f v = .ok t → write g v = .ok t
  | .null, _, w | .bool _, _, w | .int _, _, w | .float _, _, w | .text _, _, w => w
  | .list items, _, w | .tuple items, _, w => by
    obtain ⟨texts, written, w⟩ := except_ok_of_bind w
    rw [write, writeItems_mono h items texts written]
    exact w
  | .mapping entries, _, w => by
    obtain ⟨texts, written, w⟩ := except_ok_of_bind w
    rw [write, writeEntries_mono h entries texts written]
    exact w
  | .set items, t, w => h (.set items) t w
  | .date d, t, w => h (.date d) t w
  | .datetime d, t, w => h (.datetime d) t w
  | .bytes content, t, w => h (.bytes content) t w

theorem writeItems_mono (h : ∀ v t, f v = .ok t → g v = .ok t) :
    (vs : List Value) → (ts : List String) → writeItems f vs = .ok ts → writeItems g vs = .ok ts
  | [], _, w => w
  | v :: vs, _, w => by
    obtain ⟨head, first, w⟩ := except_ok_of_bind w
    obtain ⟨texts, others, w⟩ := except_ok_of_bind w
    rw [writeItems, write_mono h v head first, writeItems_mono h vs texts others]
    exact w

theorem writeEntries_mono (h : ∀ v t, f v = .ok t → g v = .ok t) :
    (es : List (Value × Value)) → (ts : List String) →
      writeEntries f es = .ok ts → writeEntries g es = .ok ts
  | [], _, w => w
  | e :: es, _, w => by
    obtain ⟨head, first, w⟩ := except_ok_of_bind w
    obtain ⟨texts, others, w⟩ := except_ok_of_bind w
    rw [writeEntries, writeEntry_mono h e head first, writeEntries_mono h es texts others]
    exact w

theorem writeEntry_mono (h : ∀ v t, f v = .ok t → g v = .ok t) :
    (e : Value × Value) → (t : String) → writeEntry f e = .ok t → writeEntry g e = .ok t
  | (k, v), _, w => by
    obtain ⟨key, first, w⟩ := except_ok_of_bind w
    obtain ⟨content, second, w⟩ := except_ok_of_bind w
    rw [writeEntry, first, write_mono h v content second]
    exact w

end

theorem writeLoose_of_writeStrict {v : Value} {t : String} (h : writeStrict v = .ok t) :
    writeLoose v = .ok t :=
  write_mono (fun _ _ refused => by cases refused) v t h

theorem writeInt_ok {i : Int} {t : String} (h : writeInt i = .ok t) : toString i = t := by
  obtain ⟨_, _, h⟩ := except_ok_of_bind h
  exact Except.ok.inj h

theorem isItem_writeFloat (x : Double) : IsItem (writeFloat x) := by
  cases x with
  | nan => exact .word (by decide) (by decide)
  | infinite negative => cases negative <;> exact .word (by decide) (by decide)
  | finite s m e =>
    obtain ⟨chars, mark⟩ := Double.toText_finite (x := .finite s m e) rfl
    have absent {c : Char} (hc : isNumeralChar c = false) :
        c ∉ (writeFloat (.finite s m e)).toList := fun h => by simpa [hc] using chars c h
    refine .word ?_ ⟨absent rfl, absent rfl⟩
    intro none
    simp [writeFloat] at none
    simp [none] at mark

/-- The form of a scalar is an item of a list. -/
theorem isItem_of_isScalar {v : Value} {t : String} (hv : v.isScalar = true)
    (h : writeLoose v.toJson = .ok t) : IsItem t := by
  cases v with
  | null => cases h; exact .word (by decide) (by decide)
  | bool b => cases h; cases b <;> exact .word (by decide) (by decide)
  | int i =>
    obtain rfl := writeInt_ok h
    have absent {c : Char} (digit : c.isDigit = false) (sign : c ≠ '-') :
        c ∉ (toString i).toList := by
      intro hc
      rcases mem_toString_int hc with hc | hc
      · simp [digit] at hc
      · exact sign hc
    exact .word (toString_int_ne_nil i) ⟨absent rfl (by decide), absent rfl (by decide)⟩
  | float x => cases h; exact isItem_writeFloat x
  | text s => cases h; exact .text s
  | date d =>
    obtain rfl : writeText d.toIso = t := Except.ok.inj h
    exact .text d.toIso
  | datetime d =>
    obtain rfl : writeText d.toSecondsText = t := Except.ok.inj h
    exact .text d.toSecondsText
  | bytes _ | list _ | tuple _ | set _ | mapping _ => cases hv

/-- Lists of scalars with the same form have items with the same forms. -/
theorem items_of_writeLoose_list {vs ws : List Value} {p : String}
    (hv : ∀ v ∈ vs, v.isScalar = true) (hw : ∀ w ∈ ws, w.isScalar = true)
    (h : writeLoose (.list (vs.map Value.toJson)) = .ok p)
    (h' : writeLoose (.list (ws.map Value.toJson)) = .ok p) :
    ∃ texts, List.Forall₂ (fun v t => writeLoose v.toJson = .ok t) vs texts ∧
      List.Forall₂ (fun w t => writeLoose w.toJson = .ok t) ws texts := by
  have items {vs : List Value} {texts : List String} (hv : ∀ v ∈ vs, v.isScalar = true)
      (h : List.Forall₂ (fun v t => writeLoose v.toJson = .ok t) vs texts) :
      ∀ t ∈ texts, IsItem t := by
    intro t ht
    obtain ⟨v, member, written⟩ := partner_left h ht
    exact isItem_of_isScalar (hv v member) written
  obtain ⟨texts, written, rfl⟩ := ok_of_write_list h
  obtain ⟨texts', written', same⟩ := ok_of_write_list h'
  rw [List.forall₂_map_left_iff] at written written'
  have joined : Text.joined "," texts = Text.joined "," texts' := by
    have chars := congrArg String.toList same
    simpa [String.toList_inj] using chars
  rw [← joined_injective (items hv written) (items hw written') joined] at written'
  exact ⟨texts, written, written'⟩

end Json
end SyntheticRows
