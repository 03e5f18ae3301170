import Mathlib.Data.List.Basic
import Mathlib.Order.Monotone.Basic
import SyntheticRows.Calendar.DateTime

/-!
# Day numbers

A date is found again by its day number, and a clock reading by its microseconds. The year of a day
is the one that starts before it and does not end before it, and the month is found by taking away
the lengths of the months before.
-/
namespace SyntheticRows

theorem isLeap_iff {year : ℕ} :
    isLeap year = true ↔ 4 ∣ year ∧ (¬100 ∣ year ∨ 400 ∣ year) := by
  simp [isLeap, Nat.dvd_iff_mod_eq_zero]

def yearLength (year : ℕ) : ℕ := if isLeap year then 366 else 365

namespace Date

variable {n year month day : ℕ}

theorem daysBeforeYear_succ (h : 1 ≤ year) :
    daysBeforeYear (year + 1) = daysBeforeYear year + yearLength year := by
  obtain ⟨y, rfl⟩ := Nat.exists_eq_add_of_le' h
  have hundreds : y / 100 ≤ y / 4 := Nat.div_le_div_left (by decide) (by decide)
  have hundred : 100 ∣ y + 1 → 4 ∣ y + 1 := Nat.dvd_trans (by decide)
  have four : 400 ∣ y + 1 → 100 ∣ y + 1 := Nat.dvd_trans (by decide)
  simp only [daysBeforeYear, yearLength, isLeap_iff, Nat.add_sub_cancel, Nat.succ_div]
  by_cases h400 : 400 ∣ y + 1
  · simp only [h400, four h400, hundred (four h400), if_true, not_true, or_true, and_self]
    omega
  by_cases h100 : 100 ∣ y + 1
  · simp only [h400, h100, hundred h100, if_true, if_false, not_true, or_self, and_false]
    omega
  by_cases h4 : 4 ∣ y + 1
  · simp only [h400, h100, h4, if_true, if_false, not_false_eq_true, true_or, and_self]
    omega
  · simp only [h400, h100, h4, if_false, false_and]
    omega

theorem daysBeforeYear_mono : Monotone daysBeforeYear := by
  refine monotone_nat_of_le_succ fun y => ?_
  rcases Nat.eq_zero_or_pos y with rfl | h
  · decide
  · rw [daysBeforeYear_succ h]
    exact Nat.le_add_right ..

/-- The years have 365 or 366 days each. -/
theorem daysBeforeYear_bounds (y : ℕ) :
    365 * y ≤ daysBeforeYear (y + 1) ∧ daysBeforeYear (y + 1) ≤ 366 * y := by
  simp only [daysBeforeYear, Nat.add_sub_cancel]
  omega

theorem daysBeforeMonth_succ (h : 1 ≤ month) :
    daysBeforeMonth year (month + 1) = daysBeforeMonth year month + daysInMonth year month := by
  obtain ⟨m, rfl⟩ := Nat.exists_eq_add_of_le' h
  simp [daysBeforeMonth, List.range_succ]

theorem daysBeforeMonth_mono (year : ℕ) : Monotone (daysBeforeMonth year) := by
  refine monotone_nat_of_le_succ fun m => ?_
  rcases Nat.eq_zero_or_pos m with rfl | h
  · exact le_rfl
  · rw [daysBeforeMonth_succ h]
    exact Nat.le_add_right ..

/-- The twelve months fill the year. -/
theorem daysBeforeMonth_thirteen (year : ℕ) : daysBeforeMonth year 13 = yearLength year := by
  unfold yearLength
  cases h : isLeap year <;> simp [daysBeforeMonth, List.range_succ, daysInMonth, h]

/-- The days of a date within its year. -/
theorem dayOfYear_bounds (d : Date) :
    1 ≤ daysBeforeMonth d.year d.month + d.day ∧
      daysBeforeMonth d.year d.month + d.day ≤ yearLength d.year := by
  obtain ⟨-, -, hm, hm', hd, hd'⟩ := d.valid
  refine ⟨by omega, ?_⟩
  calc daysBeforeMonth d.year d.month + d.day
      ≤ daysBeforeMonth d.year (d.month + 1) := by
        rw [daysBeforeMonth_succ hm]
        exact Nat.add_le_add_left hd' _
    _ ≤ daysBeforeMonth d.year 13 := daysBeforeMonth_mono _ (by omega)
    _ = yearLength d.year := daysBeforeMonth_thirteen _

theorem dayNumber_bounds (d : Date) :
    daysBeforeYear d.year < d.dayNumber ∧ d.dayNumber ≤ daysBeforeYear (d.year + 1) := by
  have inside := d.dayOfYear_bounds
  rw [daysBeforeYear_succ d.valid.1]
  unfold dayNumber
  omega

/-- The search ends at the year that holds the day, if it starts no later and has steps enough. -/
theorem yearOfDay_go (before : daysBeforeYear year < n) (upTo : n ≤ daysBeforeYear (year + 1))
    {start steps : ℕ} (low : start ≤ year) (high : year ≤ start + steps) :
    yearOfDay.go n start steps = year := by
  induction steps generalizing start with
  | zero => exact Nat.le_antisymm low high
  | succ k ih =>
    rw [yearOfDay.go]
    split
    · next more =>
      refine ih (Nat.lt_of_le_of_ne low ?_) (by omega)
      rintro rfl
      omega
    · next last =>
      refine Nat.le_antisymm low (Nat.not_lt.1 fun earlier => last ?_)
      exact Nat.lt_of_le_of_lt (daysBeforeYear_mono earlier) before

theorem yearOfDay_eq (h : 1 ≤ year) (before : daysBeforeYear year < n)
    (upTo : n ≤ daysBeforeYear (year + 1)) : yearOfDay n = year := by
  obtain ⟨y, rfl⟩ := Nat.exists_eq_add_of_le' h
  have low := (daysBeforeYear_bounds y).1
  have high := (daysBeforeYear_bounds (y + 1)).2
  exact yearOfDay_go before upTo (by omega) (by omega)

/-- Taking away the lengths of the first months leads to a later month with what is left. -/
theorem monthDay_skip (fuel : ℕ) (h : 1 ≤ n) (skipped : ℕ) :
    monthDay year 1 (daysBeforeMonth year (skipped + 1) + n) (skipped + fuel) =
      monthDay year (skipped + 1) n fuel := by
  induction skipped generalizing n fuel with
  | zero => simp [daysBeforeMonth]
  | succ k ih =>
    have step : monthDay year (k + 1) (daysInMonth year (k + 1) + n) (fuel + 1) =
        monthDay year (k + 2) n fuel := by
      rw [monthDay, if_neg (by omega), Nat.add_sub_cancel_left]
    rw [← step, ← ih (fuel + 1) (by omega), daysBeforeMonth_succ (by omega), Nat.add_assoc,
      Nat.add_right_comm k 1 fuel, Nat.add_assoc k fuel 1]

theorem monthDay_eq (hm : 1 ≤ month) (hm' : month ≤ 12) (hd : 1 ≤ day)
    (hd' : day ≤ daysInMonth year month) :
    monthDay year 1 (daysBeforeMonth year month + day) 12 = (month, day) := by
  obtain ⟨m, rfl⟩ := Nat.exists_eq_add_of_le' hm
  have found : monthDay year (m + 1) day (11 - m + 1) = (m + 1, day) := by
    rw [monthDay, if_pos hd']
  rw [← found, ← monthDay_skip _ hd]
  congr 1
  omega

theorem ofParts?_eq (d : Date) : ofParts? d.year d.month d.day = some d := dif_pos d.valid

/-- A date is found by its day number. -/
theorem ofDayNumber?_dayNumber (d : Date) : ofDayNumber? d.dayNumber = some d := by
  obtain ⟨hy, -, hm, hm', hd, hd'⟩ := d.valid
  have bounds := d.dayNumber_bounds
  have inYear : d.dayNumber - daysBeforeYear d.year =
      daysBeforeMonth d.year d.month + d.day := by
    rw [dayNumber, Nat.add_assoc, Nat.add_sub_cancel_left]
  simp only [ofDayNumber?, yearOfDay_eq hy bounds.1 bounds.2, inYear, monthDay_eq hm hm' hd hd',
    ofParts?_eq]

end Date

namespace TimeOfDay

theorem micros_lt (t : TimeOfDay) : t.micros < DateTime.microsPerDay := by
  obtain ⟨hh, hm, hs, hu⟩ := t.valid
  unfold micros DateTime.microsPerDay
  omega

theorem ofParts?_eq (t : TimeOfDay) : ofParts? t.hour t.minute t.second t.micro = some t :=
  dif_pos t.valid

/-- The parts of a time of day are the digits of its microseconds to the bases of the clock. -/
theorem parts_micros (t : TimeOfDay) :
    t.micros / 1000000 / 3600 = t.hour ∧ t.micros / 1000000 / 60 % 60 = t.minute ∧
      t.micros / 1000000 % 60 = t.second ∧ t.micros % 1000000 = t.micro := by
  obtain ⟨hh, hm, hs, hu⟩ := t.valid
  unfold micros
  refine ⟨?_, ?_, ?_, ?_⟩ <;> omega

end TimeOfDay

namespace DateTime

/-- A clock reading is found by its microseconds. -/
theorem ofMicros?_localMicros (t : DateTime) :
    ofMicros? t.localMicros = some { t with offset := none } := by
  have inDay : (t.time.micros : ℤ) < microsPerDay := Int.ofNat_lt.2 t.time.micros_lt
  have split : t.localMicros =
      t.time.micros + (t.date.dayNumber - Date.epochDay : ℤ) * microsPerDay := by
    unfold localMicros
    omega
  have day : t.localMicros / microsPerDay + Date.epochDay = t.date.dayNumber := by
    rw [split, Int.add_mul_ediv_right _ _ (by decide), Int.ediv_eq_zero_of_lt (by omega) inDay]
    omega
  have rest : (t.localMicros % microsPerDay).toNat = t.time.micros := by
    rw [split, Int.add_mul_emod_self_right, Int.emod_eq_of_lt (by omega) inDay, Int.toNat_natCast]
  have later : ¬((t.date.dayNumber : ℤ) < 1) := by
    have := t.date.dayNumber_bounds
    omega
  obtain ⟨hour, minute, second, micro⟩ := t.time.parts_micros
  simp [ofMicros?, day, rest, later, Date.ofDayNumber?_dayNumber, hour, minute, second, micro,
    TimeOfDay.ofParts?_eq]

variable {t : DateTime}

/-- The calendar has a clock reading in UTC for the instant. -/
def HasUtcReading (t : DateTime) : Prop := ∃ u : DateTime, u.localMicros = t.utcMicros

theorem hasUtcReading_of_naive (h : t.offset = none) : t.HasUtcReading :=
  ⟨t, by simp [utcMicros, h]⟩

theorem naiveUtc?_of_hasUtcReading (h : t.HasUtcReading) :
    ∃ u, t.naiveUtc? = some u ∧ u.localMicros = t.utcMicros := by
  obtain ⟨u, hu⟩ := h
  cases ho : t.offset with
  | none => exact ⟨t, by simp [naiveUtc?, ho], by simp [utcMicros, ho]⟩
  | some offset =>
    refine ⟨{ u with offset := none }, ?_, hu⟩
    rw [← ofMicros?_localMicros, hu]
    simp [naiveUtc?, ho]

theorem epochSeconds?_of_hasUtcReading (h : t.HasUtcReading) :
    t.epochSeconds? = some (t.utcMicros / 1000000) := by
  obtain ⟨u, found, same⟩ := naiveUtc?_of_hasUtcReading h
  rw [epochSeconds?, found, ← same]
  rfl

end DateTime
end SyntheticRows
