import Mathlib.Data.Int.Notation
import SyntheticRows.Proofs.Lexical.Numeral
import SyntheticRows.Proofs.Lexical.Token

/-!
# Number tokens

A written number is read as one token, with one for its sign before it if it is below zero.
-/
namespace SyntheticRows
open Sql

section Digits

variable {e : Engine} {c : Char} {cs ds : List Char} {p : NumberPart}

def AllDigits (cs : List Char) : Prop := ∀ c ∈ cs, c.isDigit = true

theorem AllDigits.append (h : AllDigits cs) (hd : AllDigits ds) : AllDigits (cs ++ ds) := by
  intro c hc
  rcases List.mem_append.1 hc with hc | hc
  · exact h c hc
  · exact hd c hc

theorem allDigits_zeros (n : ℕ) : AllDigits (List.replicate n '0') := by
  intro c hc
  rw [List.eq_of_mem_replicate hc]
  rfl

theorem allDigits_natDigits (n : ℕ) : AllDigits (natDigits n) := fun _ => isDigit_of_mem_natDigits

theorem allDigits_padded (width n : ℕ) : AllDigits (padded width n) := fun _ =>
  isDigit_of_mem_padded

theorem natDigits_ne_nil (n : ℕ) : natDigits n ≠ [] := Nat.toDigits_ne_nil

theorem padded_ne_nil (width n : ℕ) : padded width n ≠ [] := by
  simp [padded, natDigits_ne_nil]

theorem start_of_isDigit (h : c.isDigit = true) : e.start c = ([], .number .whole) := by
  have other {d : Char} (hd : d.isDigit = false) : c ≠ d := by
    rintro rfl
    simp [h] at hd
  have blank : c ∉ [' ', '\t', '\n', '\r'] := by
    simp [other (d := ' ') rfl, other (d := '\t') rfl, other (d := '\n') rfl,
      other (d := '\r') rfl]
  have quote : c ≠ e.nameQuoting.quote := by cases e <;> exact other rfl
  rw [Engine.start, if_neg blank, if_neg (other rfl), if_neg quote, if_pos h]

theorem step_number {next : NumberPart} (h : p.next? c = some next) :
    e.step (.number p) c = ([], .number next) := by
  simp [Engine.step, h]

/-- Digits go on with a part that has some. -/
theorem scan_digits (p : NumberPart) (hp : p.isComplete = true) (h : AllDigits cs) :
    e.scan (.number p) cs = ([], .number p) := by
  induction cs with
  | nil => rfl
  | cons c cs ih =>
    have digit : c.isDigit = true := h c (by simp)
    have stays : p.next? c = some p := by
      cases p with
      | whole | fraction | exponent => exact if_pos digit
      | mark | sign => cases hp
    have others := ih fun d hd => h d (by simp [hd])
    simp [scan_cons, step_number stays, others]

end Digits

/-- A text that is one number so far. -/
structure IsNumber (e : Engine) (p : NumberPart) (cs : List Char) : Prop where
  first : ∃ c rest, cs = c :: rest ∧ c.isDigit = true
  read : e.scan .between cs = ([], .number p)

namespace IsNumber

variable {e : Engine} {cs ds : List Char} {p : NumberPart}

theorem whole (h : AllDigits cs) (filled : cs ≠ []) : IsNumber e .whole cs := by
  obtain ⟨c, cs, rfl⟩ := List.exists_cons_of_ne_nil filled
  have digit := h c (by simp)
  have rest : AllDigits cs := fun d hd => h d (by simp [hd])
  refine ⟨⟨c, cs, rfl, digit⟩, ?_⟩
  simp [scan_cons, start_of_isDigit digit, scan_digits .whole rfl rest]

/-- What goes on with a number is a part of it. -/
theorem append {next : NumberPart} (h : IsNumber e p cs)
    (hd : e.scan (.number p) ds = ([], .number next)) : IsNumber e next (cs ++ ds) := by
  obtain ⟨⟨c, rest, rfl, digit⟩, read⟩ := h
  exact ⟨⟨c, rest ++ ds, rfl, digit⟩, by rw [scan_append, read, hd]; rfl⟩

theorem fraction (h : AllDigits cs) (filled : cs ≠ []) (hd : AllDigits ds) :
    IsNumber e .fraction (cs ++ '.' :: ds) := by
  have point : NumberPart.whole.next? '.' = some .fraction := rfl
  refine (whole h filled).append ?_
  simp [scan_cons, step_number point, scan_digits .fraction rfl hd]

/-- The letter of an exponent, its sign, and its digits. -/
theorem exponent {sign : Char} (h : IsNumber e p cs) (hp : p = .whole ∨ p = .fraction)
    (hs : sign = '-' ∨ sign = '+') (hd : AllDigits ds) (filled : ds ≠ []) :
    IsNumber e .exponent (cs ++ 'e' :: sign :: ds) := by
  obtain ⟨d, ds, rfl⟩ := List.exists_cons_of_ne_nil filled
  have rest : AllDigits ds := fun c hc => hd c (by simp [hc])
  have letter : p.next? 'e' = some .mark := by rcases hp with rfl | rfl <;> rfl
  have signed : NumberPart.mark.next? sign = some .sign := by rcases hs with rfl | rfl <;> rfl
  have digit : NumberPart.sign.next? d = some .exponent := if_pos (hd d (by simp))
  refine h.append ?_
  simp [scan_cons, step_number letter, step_number signed, step_number digit,
    scan_digits .exponent rfl rest]

theorem tokens (h : IsNumber e p cs) (hp : p.isComplete = true) :
    e.tokens (String.ofList cs) = some [.number] := by
  rw [tokens_eq_some_iff, String.toList_ofList, h.read]
  exact ⟨hp, rfl⟩

/-- A minus sign before a number is a token of its own. -/
theorem tokens_minus (h : IsNumber e p cs) (hp : p.isComplete = true) :
    e.tokens (String.ofList ('-' :: cs)) = some [.symbol ['-'], .number] := by
  obtain ⟨⟨c, cs, rfl, digit⟩, read⟩ := h
  have other {d : Char} (hd : d.isDigit = false) : c ≠ d := by
    rintro rfl
    simp [digit] at hd
  have minus : e.start '-' = ([], .operator ['-']) := by cases e <;> rfl
  have pair : ['-', c] ∉ Engine.pairs := by simp [Engine.pairs, other (d := '>') rfl]
  have operator : c ∉ e.operatorChars := by
    have none : e.operatorChars.all (!·.isDigit) = true := by cases e <;> rfl
    intro hc
    have letter := List.all_eq_true.1 none c hc
    simp [digit] at letter
  have step : e.step (.operator ['-']) c = ([.symbol ['-']], .number .whole) := by
    simp [Engine.step, pair, operator, Engine.leave, start_of_isDigit digit, LexState.pending]
  rw [scan_cons, step_between, start_of_isDigit digit] at read
  rw [tokens_eq_some_iff, String.toList_ofList, scan_cons, step_between, minus, scan_cons, step]
  simp only [List.nil_append, Prod.mk.injEq] at read
  simp [read.1, read.2, LexState.isComplete, LexState.pending, hp]

end IsNumber

section Written

variable {e : Engine}

theorem tokens_nat (e : Engine) (n : ℕ) : e.tokens (toString n) = some [.number] := by
  have written : toString n = String.ofList (natDigits n) := Nat.repr_eq_ofList_toDigits
  rw [written]
  exact (IsNumber.whole (allDigits_natDigits n) (natDigits_ne_nil n)).tokens rfl

theorem tokens_int (e : Engine) (i : ℤ) : ∃ ks, e.tokens (toString i) = some ks := by
  change ∃ ks, e.tokens i.repr = some ks
  rw [Int.repr_eq_if]
  split
  · exact ⟨_, tokens_nat e _⟩
  · rw [Nat.repr_eq_ofList_toDigits, ← String.ofList_append]
    have number : IsNumber e .whole (natDigits (-i).toNat) :=
      .whole (allDigits_natDigits _) (natDigits_ne_nil _)
    exact ⟨_, number.tokens_minus rfl⟩

/-- A laid out decimal is one number, which ends in its fraction unless it has the letter of an
exponent. -/
theorem isNumber_layout (e : Engine) (s : Scientific) :
    IsNumber e .fraction (Double.layout s) ∨
      'e' ∈ Double.layout s ∧ IsNumber e .exponent (Double.layout s) := by
  have digits := allDigits_natDigits s.digits
  have filled := natDigits_ne_nil s.digits
  simp only [Double.layout]
  split
  · exact .inl (.fraction (allDigits_zeros 1) (by simp) (allDigits_zeros 1))
  split
  · next range =>
    refine .inl ?_
    split
    · exact .fraction (allDigits_zeros 1) (by simp) ((allDigits_zeros _).append digits)
    split
    · exact .fraction (digits.append (allDigits_zeros _)) (by simp [filled]) (allDigits_zeros 1)
    · next positive _ =>
      have taken : AllDigits ((natDigits s.digits).take
          (s.exponent + (natDigits s.digits).length).toNat) := fun c hc =>
        digits c (List.mem_of_mem_take hc)
      have left : AllDigits ((natDigits s.digits).drop
          (s.exponent + (natDigits s.digits).length).toNat) := fun c hc =>
        digits c (List.mem_of_mem_drop hc)
      refine .fraction taken ?_ left
      rw [Ne, List.take_eq_nil_iff, not_or]
      exact ⟨by omega, filled⟩
  · refine .inr ⟨by simp, ?_⟩
    have signed (b : Prop) [Decidable b] :
        (if b then '-' else '+') = '-' ∨ (if b then '-' else '+') = '+' := by
      by_cases h : b <;> simp [h]
    have scaled {p : NumberPart} {cs : List Char} (mantissa : IsNumber e p cs)
        (hp : p = .whole ∨ p = .fraction) (b : Prop) [Decidable b] (n : ℕ) :
        IsNumber e .exponent (cs ++ 'e' :: (if b then '-' else '+') :: padded 2 n) :=
      mantissa.exponent hp (signed b) (allDigits_padded 2 n) (padded_ne_nil 2 n)
    split
    · next d single =>
      rw [single] at digits filled
      exact scaled (.whole digits filled) (.inl rfl) _ _
    · next d rest _ whole =>
      rw [whole] at digits
      have first : AllDigits [d] := fun c hc => digits c (by simp_all)
      have others : AllDigits rest := fun c hc => digits c (by simp [hc])
      exact scaled (.fraction first (by simp) others) (.inr rfl) _ _
    · next none => exact (filled none).elim

/-- A double that is finite, on Trino with an exponent in any case. -/
theorem tokens_float (e : Engine) {x : Double} (h : x.isFinite = true) :
    ∃ ks, e.tokens (Literal.renderFloat e x) = some ks := by
  cases x with
  | nan => cases h
  | infinite _ => cases h
  | finite negative m exponent =>
    have laid := isNumber_layout e (Double.trimmed (Scientific.shortest m exponent))
    generalize hbody : Double.layout (Double.trimmed (Scientific.shortest m exponent)) = body
      at laid
    have text : (Double.finite negative m exponent).toText =
        String.ofList (if negative then '-' :: body else body) := by rw [Double.toText, hbody]
    obtain ⟨p, tail, complete, number, rendered⟩ : ∃ p tail, p.isComplete = true ∧
        IsNumber e p (body ++ tail) ∧ Literal.renderFloat e (.finite negative m exponent) =
          String.ofList (if negative then '-' :: (body ++ tail) else body ++ tail) := by
      rw [Literal.renderFloat, text]
      by_cases scaled : 'e' ∈ body
      · have written : 'e' ∈ (if negative then '-' :: body else body) := by
          cases negative <;> simp [scaled]
        obtain ⟨p, complete, number⟩ :
            ∃ p : NumberPart, p.isComplete = true ∧ IsNumber e p body := by
          rcases laid with number | ⟨_, number⟩
          · exact ⟨_, rfl, number⟩
          · exact ⟨_, rfl, number⟩
        exact ⟨p, [], complete, by simpa using number, by simp [written]⟩
      · have number := laid.resolve_right fun h => scaled h.1
        by_cases trino : e = .trino
        · refine ⟨.exponent, ['E', '0'], rfl, number.append rfl, ?_⟩
          cases negative <;> simp [trino, scaled, String.ofList_append, String.append_assoc]
        · exact ⟨.fraction, [], rfl, by simpa using number, by simp [trino]⟩
    rw [rendered]
    cases negative with
    | true => exact ⟨_, number.tokens_minus complete⟩
    | false => exact ⟨_, number.tokens complete⟩

end Written
end SyntheticRows
