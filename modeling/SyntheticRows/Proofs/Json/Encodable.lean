import SyntheticRows.Proofs.Json.Written

/-!
# Values that have a JSON form

Which values can be written, said without writing them: the keys of mappings are texts, numbers or
constants, whole numbers are short enough, and what JSON has no form for is left to the one who
writes.
-/
namespace SyntheticRows
namespace Json

/-- Whether a key of a mapping can be written. -/
def writesKey : Value → Bool
  | .null | .bool _ | .float _ | .text _ => true
  | .int i => isWritable i
  | _ => false

mutual

/-- Whether a value can be written; `leaf` says it for sets, dates, points in time and bytes. -/
def writes (leaf : Value → Bool) : Value → Bool
  | .null | .bool _ | .float _ | .text _ => true
  | .int i => isWritable i
  | .list items | .tuple items => writesItems leaf items
  | .mapping entries => writesEntries leaf entries
  | .set items => leaf (.set items)
  | .date d => leaf (.date d)
  | .datetime t => leaf (.datetime t)
  | .bytes content => leaf (.bytes content)

def writesItems (leaf : Value → Bool) : List Value → Bool
  | [] => true
  | v :: rest => writes leaf v && writesItems leaf rest

def writesEntries (leaf : Value → Bool) : List (Value × Value) → Bool
  | [] => true
  | e :: rest => writesEntry leaf e && writesEntries leaf rest

def writesEntry (leaf : Value → Bool) : Value × Value → Bool
  | (k, v) => writesKey k && writes leaf v

end

variable {other : Value → Except Error String} {leaf : Value → Bool}

theorem writable_ok_iff {values : List Value} :
    (∃ u, writable values = .ok u) ↔ values.all Value.isWritable = true := by
  unfold writable
  split <;> rename_i h <;> simp [h]

theorem writeInt_ok_iff {i : Int} : (∃ t, writeInt i = .ok t) ↔ isWritable i = true := by
  refine exists_ok_map_iff.trans (writable_ok_iff.trans ?_)
  simp [Value.isWritable]

theorem writeKey_ok_iff {v : Value} : (∃ t, writeKey v = .ok t) ↔ writesKey v = true := by
  cases v with
  | int i => exact exists_ok_map_iff.trans writeInt_ok_iff
  | null | bool _ | float _ | text _ => exact iff_of_true ⟨_, rfl⟩ rfl
  | _ => exact iff_of_false (by simp [writeKey]) (by simp [writesKey])

theorem writesItems_eq_all (vs : List Value) : writesItems leaf vs = vs.all (writes leaf) := by
  induction vs with
  | nil => rfl
  | cons v vs ih => rw [writesItems, ih, List.all_cons]

mutual

theorem write_ok_iff (h : ∀ v, (∃ t, other v = .ok t) ↔ leaf v = true) :
    (v : Value) → ((∃ t, write other v = .ok t) ↔ writes leaf v = true)
  | .null | .bool _ | .float _ | .text _ => iff_of_true ⟨_, rfl⟩ rfl
  | .int _ => writeInt_ok_iff
  | .list items | .tuple items => exists_ok_map_iff.trans (writeItems_ok_iff h items)
  | .mapping entries => exists_ok_map_iff.trans (writeEntries_ok_iff h entries)
  | .set items => h (.set items)
  | .date d => h (.date d)
  | .datetime t => h (.datetime t)
  | .bytes content => h (.bytes content)

theorem writeItems_ok_iff (h : ∀ v, (∃ t, other v = .ok t) ↔ leaf v = true) :
    (vs : List Value) → ((∃ ts, writeItems other vs = .ok ts) ↔ writesItems leaf vs = true)
  | [] => iff_of_true ⟨_, rfl⟩ rfl
  | v :: vs => by
    rw [writeItems, exists_ok_bind_iff fun _ => exists_ok_map_iff, write_ok_iff h v,
      writeItems_ok_iff h vs, writesItems, Bool.and_eq_true]

theorem writeEntries_ok_iff (h : ∀ v, (∃ t, other v = .ok t) ↔ leaf v = true) :
    (es : List (Value × Value)) →
      ((∃ ts, writeEntries other es = .ok ts) ↔ writesEntries leaf es = true)
  | [] => iff_of_true ⟨_, rfl⟩ rfl
  | e :: es => by
    rw [writeEntries, exists_ok_bind_iff fun _ => exists_ok_map_iff, writeEntry_ok_iff h e,
      writeEntries_ok_iff h es, writesEntries, Bool.and_eq_true]

theorem writeEntry_ok_iff (h : ∀ v, (∃ t, other v = .ok t) ↔ leaf v = true) :
    (e : Value × Value) → ((∃ t, writeEntry other e = .ok t) ↔ writesEntry leaf e = true)
  | (k, v) => by
    rw [writeEntry, exists_ok_bind_iff fun _ => exists_ok_map_iff, write_ok_iff h v, writeKey_ok_iff,
      writesEntry, Bool.and_eq_true]

end

theorem writeStrict_ok_iff {v : Value} :
    (∃ t, writeStrict v = .ok t) ↔ writes (fun _ => false) v = true :=
  write_ok_iff (fun _ => by simp) v

theorem writeLoose_ok_iff {v : Value} :
    (∃ t, writeLoose v = .ok t) ↔ writes Value.isWritable v = true := by
  refine write_ok_iff (fun o => ?_) v
  refine exists_ok_map_iff.trans (exists_ok_map_iff.trans ?_)
  rw [writable_ok_iff]
  simp

end Json
end SyntheticRows
