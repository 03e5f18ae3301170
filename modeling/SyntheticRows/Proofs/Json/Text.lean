import Mathlib.Data.List.Basic
import SyntheticRows.Json.Reader
import SyntheticRows.Json.Writer

/-!
# Texts in JSON

A text is read back from its written form, whatever follows the closing quote. So the form of one
text is never the beginning of the form of another.
-/
namespace SyntheticRows

theorem Text.hexDigits_succ (k n : Nat) : hexDigits (k + 2) n =
    hexDigits (k + 1) (n / 16) ++ [(n % 16).digitChar] := by
  have digits : Nat.toDigits 16 n =
      if n < 16 then [n.digitChar] else Nat.toDigits 16 (n / 16) ++ [(n % 16).digitChar] :=
    Nat.toDigits_eq_if (by decide)
  by_cases h : n < 16
  · have small : n / 16 = 0 ∧ n % 16 = n := by omega
    simp [hexDigits, digits, h, small, List.replicate_succ']
  · simp [hexDigits, digits, h]

namespace Json

theorem hexValue?_digitChar {d : Nat} (h : d < 16) : hexValue? d.digitChar = some d := by
  revert d
  decide

/-- The four digits of a unit are read as the unit. -/
theorem hexDigits_unit {u : Nat} (h : u < 0x10000) :
    ∃ a b c d, Text.hexDigits 4 u = [a, b, c, d] ∧ natOfBase? 16 [a, b, c, d] = some u := by
  have first : Text.hexDigits 1 (u / 16 / 16 / 16) = [(u / 16 / 16 / 16).digitChar] := by
    have single := Nat.toDigits_of_lt_base (b := 16) (n := u / 16 / 16 / 16) (by omega)
    simp [Text.hexDigits, single]
  have digits : Text.hexDigits 4 u = [(u / 16 / 16 / 16).digitChar, (u / 16 / 16 % 16).digitChar,
      (u / 16 % 16).digitChar, (u % 16).digitChar] := by
    rw [Text.hexDigits_succ, Text.hexDigits_succ, Text.hexDigits_succ, first]
    rfl
  refine ⟨_, _, _, _, digits, ?_⟩
  have value (n : Nat) : hexValue? (n % 16).digitChar = some (n % 16) :=
    hexValue?_digitChar (n.mod_lt (by decide))
  have lead := hexValue?_digitChar (d := u / 16 / 16 / 16) (by omega)
  have below (n : Nat) : n % 16 < 16 := n.mod_lt (by decide)
  have small : u / 16 / 16 / 16 < 16 := by omega
  simp [natOfBase?, value, lead, below, small]
  omega

theorem readUnits?_unit {u : Nat} (h : u < 0x10000) (rest : List Char) :
    readUnits? ('\\' :: 'u' :: Text.hexDigits 4 u ++ rest) =
      (readUnits? rest).map fun r => (u :: r.1, r.2) := by
  obtain ⟨a, b, c, d, digits, value⟩ := hexDigits_unit h
  rw [digits]
  cases hr : readUnits? rest <;> simp [readUnits?, value, hr]

theorem readUnits?_simple {c : Char} {n : Nat} (h : simpleEscape? c = some n) (rest : List Char) :
    readUnits? ('\\' :: c :: rest) = (readUnits? rest).map fun r => (n :: r.1, r.2) := by
  have other : c ≠ 'u' := by
    rintro rfl
    simp [simpleEscape?] at h
  rw [readUnits?]
  · cases hr : readUnits? rest <;> simp [h]
  · simp [other]

theorem readUnits?_plain {c : Char} (quote : c ≠ '"') (slash : c ≠ '\\') (control : 32 ≤ c.toNat)
    (rest : List Char) :
    readUnits? (c :: rest) = (readUnits? rest).map fun r => (c.toNat :: r.1, r.2) := by
  rw [readUnits?]
  · cases hr : readUnits? rest <;> simp [control]
  · simp [quote]
  · simp [slash]
  · simp [slash]

theorem toNat_isValidChar (c : Char) : c.toNat.isValidChar := c.valid

theorem units16_lt (c : Char) : ∀ u ∈ units16 c.toNat, u < 0x10000 := by
  have valid := toNat_isValidChar c
  simp only [Nat.isValidChar] at valid
  intro u hu
  unfold units16 at hu
  split at hu
  · simp at hu
    omega
  · simp at hu
    omega

theorem readUnits?_units {us : List Nat} (h : ∀ u ∈ us, u < 0x10000) (rest : List Char) :
    readUnits? ((us.flatMap fun u => '\\' :: 'u' :: Text.hexDigits 4 u) ++ rest) =
      (readUnits? rest).map fun r => (us ++ r.1, r.2) := by
  induction us with
  | nil => simp
  | cons u us ih =>
    rw [List.forall_mem_cons] at h
    rw [List.flatMap_cons, List.append_assoc, readUnits?_unit h.1, ih h.2]
    simp [Function.comp_def]

/-- A character puts its units in front of what is read. -/
theorem readUnits?_escapeChar (c : Char) (rest : List Char) :
    readUnits? (escapeChar c ++ rest) =
      (readUnits? rest).map fun r => (units16 c.toNat ++ r.1, r.2) := by
  unfold escapeChar
  split
  · exact readUnits?_simple rfl rest
  · exact readUnits?_simple rfl rest
  · exact readUnits?_simple rfl rest
  · exact readUnits?_simple rfl rest
  · exact readUnits?_simple rfl rest
  next quote slash _ _ _ =>
    split
    · next h => rw [h]; exact readUnits?_simple rfl rest
    split
    · next h => rw [h]; exact readUnits?_simple rfl rest
    split
    · next plain =>
      have unit : units16 c.toNat = [c.toNat] := if_pos (by omega)
      rw [unit]
      exact readUnits?_plain quote slash plain.1 rest
    · exact readUnits?_units (units16_lt c) rest

/-- The units of a character are put together again, whatever follows. -/
theorem joinUnits_units16 (c : Char) (us : List Nat) :
    joinUnits (units16 c.toNat ++ us) = c :: joinUnits us := by
  have valid := toNat_isValidChar c
  have range := valid
  simp only [Nat.isValidChar] at range
  unfold units16
  split
  · have single : charOfUnit c.toNat = c := by simp [charOfUnit, valid]
    have low : isHighSurrogate c.toNat = false := by
      simp [isHighSurrogate]
      omega
    cases us with
    | nil => simp [joinUnits, single]
    | cons u us => simp [joinUnits, single, low]
  · have high : isHighSurrogate (0xd800 + (c.toNat - 0x10000) / 0x400) = true := by
      simp [isHighSurrogate]
      omega
    have low : isLowSurrogate (0xdc00 + (c.toNat - 0x10000) % 0x400) = true := by
      simp [isLowSurrogate]
      omega
    have whole : 0x10000 + (c.toNat - 0x10000) / 0x400 * 0x400 +
        (c.toNat - 0x10000) % 0x400 = c.toNat := by omega
    simp [joinUnits, high, low, whole]

theorem readUnits?_written (cs rest : List Char) :
    readUnits? (cs.flatMap escapeChar ++ '"' :: rest) =
      some (cs.flatMap fun c => units16 c.toNat, rest) := by
  induction cs with
  | nil => simp [readUnits?]
  | cons c cs ih => simp [readUnits?_escapeChar, ih]

theorem joinUnits_flatMap (cs : List Char) :
    joinUnits (cs.flatMap fun c => units16 c.toNat) = cs := by
  induction cs with
  | nil => rfl
  | cons c cs ih => rw [List.flatMap_cons, joinUnits_units16, ih]

theorem readText?_written (s : String) (rest : List Char) :
    readText? (s.toList.flatMap escapeChar ++ '"' :: rest) = some (s, rest) := by
  simp [readText?, readUnits?_written, joinUnits_flatMap]

/-- Two texts that are written the same up to the end of one of them are the same. -/
theorem writeText_append_inj {s t : String} {more rest : List Char}
    (h : (writeText s).toList ++ more = (writeText t).toList ++ rest) : s = t ∧ more = rest := by
  have unquoted (s : String) (rest : List Char) : (writeText s).toList ++ rest =
      '"' :: (s.toList.flatMap escapeChar ++ '"' :: rest) := by simp [writeText]
  rw [unquoted, unquoted, List.cons.injEq] at h
  have read := congrArg readText? h.2
  simpa [readText?_written] using read

end Json
end SyntheticRows
