import SyntheticRows.Proofs.Json.Outcome
import SyntheticRows.Proofs.Meaning.Datum

/-!
# Elements of JSON lists

What SQLite finds at a place of a list that is given in JSON: texts are read, null and the truth
values are known words, and everything else is a number, which is read as in a statement. A scalar
that a literal can stand for is found as the literal itself.
-/
namespace SyntheticRows

/-- How SQLite reads numbers. Whole numbers of 64 bits are exact. -/
structure Numerals where
  read : String → Datum
  whole : ∀ i : ℤ, -2 ^ 63 ≤ i → i < 2 ^ 63 → read (toString i) = .number i

theorem natOfDigits_natDigits (n : ℕ) : natOfDigits (natDigits n) = n := by
  have digit : ∀ d < 10, digitValue d.digitChar = d := by decide
  induction n using Nat.strongRecOn with
  | ind n ih =>
    have digits : natDigits n =
        if n < 10 then [n.digitChar] else natDigits (n / 10) ++ [(n % 10).digitChar] :=
      Nat.toDigits_eq_if (by decide)
    rw [digits]
    split
    · rename_i small
      simp [natOfDigits, digit n small]
    · have last := digit (n % 10) (Nat.mod_lt n (by decide))
      have front := ih (n / 10) (Nat.div_lt_self (by omega) (by decide))
      rw [natOfDigits, List.foldl_append, ← natOfDigits, front]
      simp only [List.foldl_cons, List.foldl_nil, last]
      omega

theorem natOfDigits_repr (n : ℕ) : natOfDigits n.repr.toList = n := by
  rw [Nat.repr_eq_ofList_toDigits, String.toList_ofList]
  exact natOfDigits_natDigits n

/-- The whole number that is written with digits and perhaps a sign. -/
def wholeOfChars : List Char → ℤ
  | '-' :: ds => -natOfDigits ds
  | ds => natOfDigits ds

theorem wholeOfChars_of_unsigned {cs : List Char} (h : '-' ∉ cs) :
    wholeOfChars cs = natOfDigits cs := by
  unfold wholeOfChars
  split
  · simp at h
  · rfl

theorem wholeOfChars_toString (i : ℤ) : wholeOfChars (toString i).toList = i := by
  change wholeOfChars i.repr.toList = i
  rw [Int.repr_eq_if]
  split
  · rename_i nonneg
    obtain ⟨n, rfl⟩ := Int.eq_ofNat_of_zero_le nonneg
    have unsigned : '-' ∉ n.repr.toList := by
      rw [Nat.repr_eq_ofList_toDigits, String.toList_ofList]
      intro sign
      exact absurd (isDigit_of_mem_natDigits sign) (by decide)
    have number := natOfDigits_repr n
    rw [Int.toNat_natCast]
    rw [wholeOfChars_of_unsigned unsigned, number]
  · have number := natOfDigits_repr (-i).toNat
    rw [String.toList_append]
    change -(natOfDigits (-i).toNat.repr.toList : ℤ) = i
    rw [number]
    omega

/-- Numbers that are read by their digits, whatever else there is. -/
def Numerals.digits : Numerals where
  read s := .number (wholeOfChars s.toList)
  whole i _ _ := by rw [wholeOfChars_toString]

/-- What a literal is on SQLite, which has no truth values and no points in time. -/
def Sql.Literal.stored (numerals : Numerals) : Literal → Datum
  | null => .null
  | bool b => .number (if b then 1 else 0)
  | int i => numerals.read (toString i)
  | float x _ => numerals.read x.toText
  | datetime t => .text t.toSecondsText
  | date d => .text d.toIso
  | text s _ => .text s

namespace Sql.Literal

theorem ofFloat_ok {x : Double} {l : Literal} (h : ofFloat x = .ok l) :
    ∃ finite, l = .float x finite := by
  unfold ofFloat at h
  split at h
  · cases h
    exact ⟨_, rfl⟩
  · exact absurd h refuse_ne_ok

theorem ofText_ok {s : String} {l : Literal} (h : ofText s = .ok l) :
    ∃ nulFree, l = .text s nulFree := by
  unfold ofText at h
  split at h
  · cases h
    exact ⟨_, rfl⟩
  · exact absurd h refuse_ne_ok

end Sql.Literal

namespace Json

/-- A word or a number. -/
def wordDatum (numerals : Numerals) (w : String) : Datum :=
  if w = "null" then .null
  else if w = "true" then .number 1
  else if w = "false" then .number 0
  else numerals.read w

/-- The first element of what stands between the brackets of a list, and what follows it. -/
def element? (numerals : Numerals) : List Char → Option (Datum × List Char)
  | '"' :: cs => (readText? cs).map fun r => (.text r.1, r.2)
  | cs => some (wordDatum numerals (String.ofList (cs.takeWhile (· ≠ ','))),
      cs.dropWhile (· ≠ ','))

def elementAt? (numerals : Numerals) : ℕ → List Char → Option Datum
  | 0, cs => (element? numerals cs).map Prod.fst
  | k + 1, cs =>
    match element? numerals cs with
    | some (_, ',' :: rest) => elementAt? numerals k rest
    | _ => none

/-- What is found in a list under a path that leads to one of its elements. -/
def extract? (numerals : Numerals) (payload path : String) : Option Datum :=
  match payload.toList, path.toList with
  | '[' :: items, '$' :: '[' :: place =>
    elementAt? numerals (natOfDigits place.dropLast) items.dropLast
  | _, _ => none

variable {numerals : Numerals} {t : String} {d : Datum} {v : Value} {l : Sql.Literal}

/-- A text is read as an element wherever it stands in a list. -/
def Reads (numerals : Numerals) (t : String) (d : Datum) : Prop :=
  ∀ rest : List Char, (∀ c ∈ rest.head?, c = ',') →
    element? numerals (t.toList ++ rest) = some (d, rest)

theorem reads_text (s : String) : Reads numerals (writeText s) (.text s) := by
  intro rest _
  simp [writeText, element?, readText?_written]

theorem reads_word (nonempty : t.toList ≠ []) (plain : '"' ∉ t.toList ∧ ',' ∉ t.toList) :
    Reads numerals t (wordDatum numerals t) := by
  intro rest hr
  obtain ⟨c, cs, chars⟩ := List.exists_cons_of_ne_nil nonempty
  have word := takeWhile_word plain.2 hr
  have after : (t.toList ++ rest).dropWhile (· ≠ ',') = rest := by
    have whole := List.takeWhile_append_dropWhile (p := fun c => decide (c ≠ ','))
      (l := t.toList ++ rest)
    rw [word, List.append_cancel_left_eq] at whole
    exact whole
  have first : c ≠ '"' := by
    rintro rfl
    exact plain.1 (by simp [chars])
  have other : element? numerals (t.toList ++ rest) =
      some (wordDatum numerals (String.ofList ((t.toList ++ rest).takeWhile (· ≠ ','))),
        (t.toList ++ rest).dropWhile (· ≠ ',')) := by
    rw [chars, List.cons_append, element?]
    simp [first]
  rw [other, word, after, String.ofList_toList]

theorem wordDatum_of_numeral (h : ∀ c ∈ t.toList, isNumeralChar c = true) :
    wordDatum numerals t = numerals.read t := by
  have other {w : String} (hw : w.toList.any (fun c => !isNumeralChar c) = true) : t ≠ w := by
    rintro rfl
    obtain ⟨c, hc, odd⟩ := List.any_eq_true.1 hw
    simp [h c hc] at odd
  rw [wordDatum, if_neg (other (by decide)), if_neg (other (by decide)),
    if_neg (other (by decide))]

theorem reads_numeral (nonempty : t.toList ≠ []) (h : ∀ c ∈ t.toList, isNumeralChar c = true) :
    Reads numerals t (numerals.read t) := by
  have absent {c : Char} (hc : isNumeralChar c = false) : c ∉ t.toList :=
    fun there => by simp [h c there] at hc
  have read : Reads numerals t (wordDatum numerals t) :=
    reads_word nonempty ⟨absent rfl, absent rfl⟩
  rwa [wordDatum_of_numeral h] at read

theorem writeFloat_of_isFinite {x : Double} (h : x.isFinite = true) : writeFloat x = x.toText := by
  cases x with
  | finite _ _ _ => rfl
  | nan | infinite _ => cases h

/-- A value that a literal can stand for is read from its JSON form as the literal. -/
theorem reads_written (hl : Sql.Literal.ofValue v = .ok l) (h : writeStrict v.toJson = .ok t) :
    Reads numerals t (l.stored numerals) := by
  cases v with
  | null =>
    cases hl
    cases h
    exact reads_word (by decide) (by decide)
  | bool b =>
    cases hl
    cases h
    cases b <;> exact reads_word (by decide) (by decide)
  | int i =>
    obtain ⟨_, _, hl⟩ := except_ok_of_bind hl
    cases hl
    obtain rfl := writeInt_ok h
    have numeral : ∀ c ∈ (toString i).toList, isNumeralChar c = true := by
      intro c hc
      rcases mem_toString_int hc with digit | rfl
      · exact isNumeralChar_of_isDigit digit
      · decide
    exact reads_numeral (toString_int_ne_nil i) numeral
  | float x =>
    obtain ⟨finite, rfl⟩ := Sql.Literal.ofFloat_ok hl
    obtain ⟨numeral, mark⟩ := Double.toText_finite finite
    obtain rfl : writeFloat x = t := Except.ok.inj h
    have nonempty : x.toText.toList ≠ [] := by
      intro none
      simp [none] at mark
    rw [writeFloat_of_isFinite finite]
    exact reads_numeral nonempty numeral
  | text s =>
    obtain ⟨nulFree, rfl⟩ := Sql.Literal.ofText_ok hl
    obtain rfl : writeText s = t := Except.ok.inj h
    exact reads_text s
  | date d =>
    cases hl
    obtain rfl : writeText d.toIso = t := Except.ok.inj h
    exact reads_text _
  | datetime d =>
    cases hl
    obtain rfl : writeText d.toSecondsText = t := Except.ok.inj h
    exact reads_text _
  | bytes _ | list _ | tuple _ | set _ | mapping _ => cases hl

theorem elementAt?_joined {texts : List String} {data : List Datum}
    (h : List.Forall₂ (Reads numerals) texts data) {k : ℕ} (hk : data[k]? = some d) :
    elementAt? numerals k (Text.joined "," texts).toList = some d := by
  induction h generalizing k with
  | nil => simp at hk
  | @cons t d' texts data first rest ih =>
    rw [Text.toList_joined_cons]
    have read := first _ (head_tail texts)
    cases k with
    | zero =>
      rw [elementAt?, read]
      simpa using hk
    | succ k =>
      rw [elementAt?, read]
      cases texts with
      | nil =>
        cases rest
        simp at hk
      | cons t' texts =>
        have later := ih (by simpa using hk)
        rw [Text.toList_joined_cons] at later
        simpa using later

theorem extract?_list {texts : List String} {data : List Datum}
    (h : List.Forall₂ (Reads numerals) texts data) {k : ℕ} (hk : data[k]? = some d) :
    extract? numerals ("[" ++ Text.joined "," texts ++ "]") ("$[" ++ toString k ++ "]") =
      some d := by
  have found := elementAt?_joined h hk
  have place : natOfDigits (Nat.toDigits 10 k) = k := natOfDigits_natDigits k
  simpa [extract?, place] using found

end Json

end SyntheticRows
