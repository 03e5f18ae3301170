import Mathlib.Data.List.Basic
import SyntheticRows.Proofs.Calendar.DayNumber
import SyntheticRows.Proofs.Draw.Tag
import SyntheticRows.Proofs.Json.Element
import SyntheticRows.Proofs.Lexical.TextToken

/-!
# Points in time in statements

The literal of a point in time shows its clock, and a span of one instant gives the second of the
epoch. The two stand for one second exactly if the year has four digits and the offset does not
move the second.
-/
namespace SyntheticRows
open Sql

theorem natOfDigits_padded (width n : ℕ) : natOfDigits (padded width n) = n := by
  have zeros (k : ℕ) : natOfDigits (List.replicate k '0') = 0 := by
    induction k with
    | zero => rfl
    | succ k ih => exact ih
  have front := zeros (width - (natDigits n).length)
  rw [natOfDigits] at front
  rw [padded, natOfDigits, List.foldl_append, front, ← natOfDigits, natOfDigits_natDigits]

theorem length_natDigits_le {width n : ℕ} (h : 0 < width) :
    (natDigits n).length ≤ width ↔ n < 10 ^ width := Nat.length_toDigits_le_iff (by decide) h

theorem length_padded {width n : ℕ} (h : 0 < width) (small : n < 10 ^ width) :
    (padded width n).length = width := by
  have short := (length_natDigits_le h).2 small
  rw [padded, List.length_append, List.length_replicate]
  omega

/-- A number with digits enough is not filled up. -/
theorem padded_eq_natDigits {width n : ℕ} (h : 0 < width) (large : 10 ^ width ≤ n) :
    padded (width + 1) n = natDigits n := by
  have long := (length_natDigits_le h).not.2 (Nat.not_lt.2 large)
  rw [padded, Nat.sub_eq_zero_of_le (by omega), List.replicate_zero, List.nil_append]

theorem isDigit_eq (c : Char) : isDigit c = c.isDigit := rfl

namespace Iso

variable {n width : ℕ} {c : Char} {cs ds t : List Char}

/-- The character at the front, if it is the given one. -/
def mark? (c : Char) : List Char → Option (List Char)
  | d :: rest => if d = c then some rest else none
  | [] => none

@[simp] theorem mark?_cons : mark? c (c :: t) = some t := if_pos rfl

theorem digits?_append (full : ds.length = width) (digits : ∀ c ∈ ds, c.isDigit = true) :
    digits? width (ds ++ t) = some (natOfDigits ds, t) := by
  subst full
  simpa [digits?, isDigit_eq] using digits

theorem digits?_padded (h : 0 < width) (small : n < 10 ^ width) :
    digits? width (padded width n ++ t) = some (n, t) := by
  rw [digits?_append (length_padded h small) fun _ => isDigit_of_mem_padded, natOfDigits_padded]

/-- Too few digits in front of something else are not read. -/
theorem digits?_short (few : ds.length < width) (hc : c.isDigit = false) :
    digits? width (ds ++ c :: t) = none := by
  refine if_neg fun ⟨_, all⟩ => ?_
  have inside : c ∈ (ds ++ c :: t).take width := by
    rw [List.take_append, List.take_cons (by omega)]
    exact List.mem_append_right _ List.mem_cons_self
  have digit := List.all_eq_true.1 all c inside
  rw [isDigit_eq, hc] at digit
  cases digit

/-- Numbers of as many digits as given, each with its mark behind it, and one more to the end. -/
def fields? (last : ℕ) : List (ℕ × Char) → List Char → Option (List ℕ)
  | [], cs => do
    let (n, rest) ← digits? last cs
    if rest.isEmpty then some [n] else none
  | (width, mark) :: more, cs => do
    let (n, rest) ← digits? width cs
    let ns ← fields? last more (← mark? mark rest)
    return n :: ns

theorem fields?_nil (h : 0 < width) (small : n < 10 ^ width) :
    fields? width [] (padded width n) = some [n] := by
  have read := digits?_padded (t := []) h small
  rw [List.append_nil] at read
  rw [fields?, read]
  rfl

theorem fields?_cons {last : ℕ} {more : List (ℕ × Char)} (h : 0 < width)
    (small : n < 10 ^ width) : fields? last ((width, c) :: more) (padded width n ++ c :: t) =
      (fields? last more t).map (n :: ·) := by
  simp only [fields?, digits?_padded h small, Option.bind_eq_bind, Option.bind_some, mark?_cons]
  cases fields? last more t <;> rfl

/-- Reads `YYYY-MM-DD HH:MM:SS`, every part with all its digits and nothing behind them. -/
def clockReading? (cs : List Char) : Option DateTime :=
  match fields? 2 [(4, '-'), (2, '-'), (2, ' '), (2, ':'), (2, ':')] cs with
  | some [year, month, day, hour, minute, second] => do
    return ⟨← Date.ofParts? year month day, ← TimeOfDay.ofParts? hour minute second 0, none⟩
  | _ => none

end Iso

namespace DateTime

/-- The clock reading to the second, without offset. -/
def toSecond (t : DateTime) : DateTime :=
  ⟨t.date, ⟨t.time.hour, t.time.minute, t.time.second, 0, by
    obtain ⟨hh, hm, hs, -⟩ := t.time.valid
    exact ⟨hh, hm, hs, by decide⟩⟩, none⟩

/-- The whole seconds of a clock reading since 1970-01-01. -/
def clockSeconds (t : DateTime) : ℤ := t.localMicros / 1000000

theorem clockSeconds_toSecond (t : DateTime) : t.toSecond.clockSeconds = t.clockSeconds := by
  obtain ⟨-, -, -, hu⟩ := t.time.valid
  simp only [clockSeconds, localMicros, toSecond, TimeOfDay.micros, microsPerDay]
  omega

/-- Years below 1000 are written with fewer digits than are read. -/
theorem clockReading?_toSecondsText (t : DateTime) :
    Iso.clockReading? t.toSecondsText.toList =
      if 1000 ≤ t.date.year then some t.toSecond else none := by
  obtain ⟨-, hy, -, hm, -, hd⟩ := t.date.valid
  obtain ⟨hh, hn, hs, -⟩ := t.time.valid
  have month : daysInMonth t.date.year t.date.month ≤ 31 := by
    unfold daysInMonth
    split <;> (try split) <;> decide
  rw [toSecondsText, String.toList_ofList]
  simp only [List.append_assoc, List.cons_append]
  by_cases h : 1000 ≤ t.date.year
  · have clock : TimeOfDay.ofParts? t.time.hour t.time.minute t.time.second 0 =
        some t.toSecond.time := t.toSecond.time.ofParts?_eq
    have long : padded 4 t.date.year = natDigits t.date.year := padded_eq_natDigits (by decide) h
    rw [if_pos h, ← long, Iso.clockReading?]
    simp (disch := omega) only [Iso.fields?_cons, Iso.fields?_nil, Option.map_some,
      Date.ofParts?_eq, clock]
    rfl
  · have few : (natDigits t.date.year).length < 4 :=
      Nat.lt_succ_of_le ((length_natDigits_le (by decide)).2
        (show t.date.year < 10 ^ 3 by omega))
    rw [if_neg h, Iso.clockReading?, Iso.fields?, Iso.digits?_short few (by decide)]
    rfl

end DateTime

namespace Engine

/-- What stands before and behind the text of a point in time. -/
def momentFrame : Engine → String × String
  | .clickhouse => ("toDateTime(", ")")
  | .sqlite => ("", "")
  | .postgresql | .trino => ("TIMESTAMP ", "")

/-- The second that a literal of a point in time stands for, its text read as a clock in UTC. -/
def readMoment (e : Engine) (cs : List Char) : Option ℤ := do
  let (text, behind) ← e.readText (← cs.dropPrefix? e.momentFrame.1.toList)
  if behind = e.momentFrame.2.toList then (Iso.clockReading? text).map DateTime.clockSeconds
  else none

theorem renderMoment_eq (e : Engine) (text : String) :
    (Literal.renderMoment e "toDateTime" "TIMESTAMP" text).toList =
      e.momentFrame.1.toList ++ (Literal.quotedText e text.toList ++ e.momentFrame.2.toList) := by
  have quoted : (Literal.quoteText e text).toList = Literal.quotedText e text.toList :=
    String.toList_ofList
  cases e <;> simp [Literal.renderMoment, momentFrame, quoted]

/-- The literal of a point in time is read as what its clock shows, from the year 1000 on. -/
theorem readMoment_render (e : Engine) (t : DateTime) :
    e.readMoment ((Literal.datetime t).render e).toList =
      if 1000 ≤ t.date.year then some t.clockSeconds else none := by
  have behind : e.momentFrame.2.toList.head? ≠ some '\'' := by cases e <;> decide
  rw [Literal.render, renderMoment_eq, readMoment, List.dropPrefix?_append_of_beq _ (by simp)]
  simp only [Option.bind_eq_bind, Option.bind_some, Literal.readText_quotedText behind, if_true,
    DateTime.clockReading?_toSecondsText]
  split
  · simp [DateTime.clockSeconds_toSecond]
  · rfl

end Engine

namespace Generator

variable {e : Engine} {t : DateTime}

/-- The span of one instant is taken, and gives the second of the epoch. -/
theorem expression_instant (h : t.HasUtcReading) (now : ℤ) (row : Expr) (salt : ℤ) :
    ∃ g, ofSpan (.datetime t) (.datetime t) = .ok g ∧
      expression (.of e) now row salt g =
        (Dialect.of e).fromEpoch (.int (t.utcMicros / 1000000)) := by
  obtain ⟨u, found, -⟩ := DateTime.naiveUtc?_of_hasUtcReading h
  refine ⟨.span ⟨t, some t, by rintro _ ⟨⟩; exact le_rfl⟩, ?_, ?_⟩
  · have kept : orError Error.dateTooFar t.naiveUtc? = .ok u := by rw [found, orError]
    simp only [ofSpan, checkDateTime, except_ok_bind, kept]
    exact dif_pos le_rfl
  · have seconds := DateTime.epochSeconds?_of_hasUtcReading h
    have single (n : ℤ) : spanBetween (.of e) n n = liftM ((Dialect.of e).fromEpoch (.int n)) := by
      rw [spanBetween, if_neg (Int.lt_irrefl n), if_pos rfl]
    rw [expression, compile, spanExpr_eq, Option.elim_some, seconds]
    change Prod.fst <$> StateT.run (spanBetween (.of e) _ _) _ = _
    rw [single]
    cases e <;> rfl

/-- The literal of a point in time and the span of that one instant stand for the same second
exactly if the year has four digits and the offset does not move the second. -/
theorem sameSecond_iff (e : Engine) (now : ℤ) (row : Expr) (salt : ℤ) (t : DateTime)
    (h : t.HasUtcReading) :
    ∃ n g y x, t.epochSeconds? = some n ∧
      ofSpan (.datetime t) (.datetime t) = .ok g ∧
      expression (.of e) now row salt g = .ok y ∧ (Dialect.of e).fromEpoch (.int n) = .ok y ∧
      expression (.of e) now row salt (.constant (.datetime t)) = .ok x ∧
      (e.readMoment (x.render e).toList = some n ↔
        1000 ≤ t.date.year ∧ t.localMicros / 1000000 = t.utcMicros / 1000000) := by
  obtain ⟨g, accepted, compiled⟩ := expression_instant (e := e) h now row salt
  obtain ⟨y, hy⟩ : ∃ y, (Dialect.of e).fromEpoch (.int (t.utcMicros / 1000000)) = .ok y := by
    cases e <;> exact ⟨_, rfl⟩
  refine ⟨_, g, y, _, DateTime.epochSeconds?_of_hasUtcReading h, accepted, compiled.trans hy, hy,
    rfl, ?_⟩
  rw [Expr.render, Engine.readMoment_render, DateTime.clockSeconds]
  split <;> simp [*]

/-- Two hours ahead of UTC. -/
def aheadMoment : DateTime :=
  ⟨⟨2031, 8, 9, by decide⟩, ⟨10, 11, 12, 0, by decide⟩, some 7200000000⟩

/-- In a year of two digits. -/
def earlyMoment : DateTime := ⟨⟨97, 10, 30, by decide⟩, ⟨13, 14, 15, 0, by decide⟩, none⟩

theorem hasUtcReading_aheadMoment : aheadMoment.HasUtcReading :=
  ⟨⟨aheadMoment.date, ⟨8, 11, 12, 0, by decide⟩, none⟩, by decide⟩

theorem hasUtcReading_earlyMoment : earlyMoment.HasUtcReading :=
  DateTime.hasUtcReading_of_naive rfl

theorem sameSecond_of_aheadMoment : aheadMoment.HasUtcReading ∧
    ∃ n g y x, aheadMoment.epochSeconds? = some n ∧
      ofSpan (.datetime aheadMoment) (.datetime aheadMoment) = .ok g ∧
      expression (.of .trino) 0 .null 0 g = .ok y ∧
      (Dialect.of .trino).fromEpoch (.int n) = .ok y ∧
      expression (.of .trino) 0 .null 0 (.constant (.datetime aheadMoment)) = .ok x ∧
      (Engine.readMoment .trino (x.render .trino).toList = some n ↔
        1000 ≤ aheadMoment.date.year ∧
          aheadMoment.localMicros / 1000000 = aheadMoment.utcMicros / 1000000) :=
  ⟨hasUtcReading_aheadMoment, sameSecond_iff .trino 0 .null 0 _ hasUtcReading_aheadMoment⟩

/-- The literal of a moment ahead of UTC is two hours late, and that of a moment in a year of two
digits is not read. -/
theorem otherSecond_of_moments :
    (aheadMoment.HasUtcReading ∧ aheadMoment.epochSeconds? = some 1944029472 ∧
      (Literal.datetime aheadMoment).render .postgresql = "TIMESTAMP '2031-08-09 10:11:12'" ∧
      Engine.readMoment .postgresql ((Literal.datetime aheadMoment).render .postgresql).toList =
        some 1944036672) ∧
    (earlyMoment.HasUtcReading ∧ earlyMoment.epochSeconds? = some (-59079926745) ∧
      (Literal.datetime earlyMoment).render .sqlite = "'97-10-30 13:14:15'" ∧
      Engine.readMoment .sqlite ((Literal.datetime earlyMoment).render .sqlite).toList = none) := by
  refine ⟨⟨hasUtcReading_aheadMoment, ?_, by decide, ?_⟩, hasUtcReading_earlyMoment, ?_,
    by decide, ?_⟩
  · rw [DateTime.epochSeconds?_of_hasUtcReading hasUtcReading_aheadMoment]
    decide
  · rw [Engine.readMoment_render]
    decide
  · rw [DateTime.epochSeconds?_of_hasUtcReading hasUtcReading_earlyMoment]
    decide
  · rw [Engine.readMoment_render]
    decide

end Generator
end SyntheticRows
