import AccessJournal.Proofs.Numeral.Columns
import AccessJournal.WallTime.Universal

/-!
# The order of wall-clock times

Days are counted from the first day of year 1, and milliseconds from the beginning of the day
before it.  A day later counts one more (`dayNumber_of_dayLater?`).  Dates and times are
in the order of these counts just if their numbers are, year before month before day, and so
on down to the milliseconds (`instant_lt_iff`).

Offsets play no part here: all times are told in the same zone.
-/

namespace AccessJournal.WallTime

/-- The reading can be had from a clock: date and time of day are in the calendar, and the offset
is less than a day. -/
structure IsValid (t : WallTime) : Prop where
  year : 1 ≤ t.year ∧ t.year ≤ lastYear
  month : 1 ≤ t.month ∧ t.month ≤ 12
  day : 1 ≤ t.day ∧ t.day ≤ daysIn t.year t.month
  hour : t.hour < 24
  minute : t.minute < 60
  second : t.second < 60
  microsecond : t.microsecond < 1000000
  offset : ∀ offset, t.offset = some offset → -daySeconds < offset ∧ offset < daySeconds

/-! ## Days -/

/-- The days of a year before a month. -/
def daysBeforeMonth (year : ℕ) : ℕ → ℕ
  | 0 | 1 => 0
  | month + 2 => daysBeforeMonth year (month + 1) + daysIn year (month + 1)

/-- The days before a year, from year 1 on. -/
def daysBeforeYear : ℕ → ℕ
  | 0 | 1 => 0
  | year + 2 => daysBeforeYear (year + 1) + daysBeforeMonth (year + 1) 13

/-- The number of the day; the first day of year 1 has the number one. -/
def dayNumber (t : WallTime) : ℕ :=
  daysBeforeYear t.year + daysBeforeMonth t.year t.month + t.day

theorem daysBeforeMonth_succ (year : ℕ) {month : ℕ} (hmonth : 1 ≤ month) :
    daysBeforeMonth year (month + 1) = daysBeforeMonth year month + daysIn year month := by
  obtain ⟨before, rfl⟩ : ∃ before, month = before + 1 := ⟨month - 1, by omega⟩
  rfl

theorem daysBeforeYear_succ {year : ℕ} (hyear : 1 ≤ year) :
    daysBeforeYear (year + 1) = daysBeforeYear year + daysBeforeMonth year 13 := by
  obtain ⟨before, rfl⟩ : ∃ before, year = before + 1 := ⟨year - 1, by omega⟩
  rfl

theorem daysBeforeMonth_mono (year : ℕ) {month later : ℕ} (hmonth : 1 ≤ month)
    (h : month ≤ later) : daysBeforeMonth year month ≤ daysBeforeMonth year later := by
  induction later, h using Nat.le_induction with
  | base => exact le_rfl
  | succ later hle ih =>
      rw [daysBeforeMonth_succ year (by omega)]
      omega

theorem daysBeforeYear_mono {year later : ℕ} (hyear : 1 ≤ year) (h : year ≤ later) :
    daysBeforeYear year ≤ daysBeforeYear later := by
  induction later, h using Nat.le_induction with
  | base => exact le_rfl
  | succ later hle ih =>
      rw [daysBeforeYear_succ (by omega)]
      omega

/-- A day of a month comes before the months behind it. -/
theorem day_le_daysBeforeMonth {t : WallTime} (ht : t.IsValid) {month : ℕ}
    (h : t.month < month) :
    daysBeforeMonth t.year t.month + t.day ≤ daysBeforeMonth t.year month := by
  have hmono := daysBeforeMonth_mono t.year (Nat.le_add_left 1 t.month) h
  rw [daysBeforeMonth_succ t.year ht.month.1] at hmono
  have hday := ht.day.2
  omega

/-- A day of a year comes before the years behind it. -/
theorem dayNumber_le_daysBeforeYear {t : WallTime} (ht : t.IsValid) {year : ℕ}
    (h : t.year < year) : t.dayNumber ≤ daysBeforeYear year := by
  have hmono := daysBeforeYear_mono (Nat.le_add_left 1 t.year) h
  rw [daysBeforeYear_succ ht.year.1] at hmono
  have hmonth : daysBeforeMonth t.year t.month + t.day ≤ daysBeforeMonth t.year 13 :=
    day_le_daysBeforeMonth ht (Nat.lt_succ_of_le ht.month.2)
  rw [dayNumber]
  omega

/-- A day later counts one more. -/
theorem dayNumber_of_dayLater? {t u : WallTime} (ht : t.IsValid) (h : t.dayLater? = some u) :
    u.dayNumber = t.dayNumber + 1 := by
  have hday := ht.day.2
  have hmonth := ht.month
  unfold dayLater? at h
  by_cases hinside : t.day < daysIn t.year t.month
  · rw [if_pos hinside] at h
    cases h
    simp only [dayNumber]
    omega
  · have hlast : t.day = daysIn t.year t.month := by omega
    rw [if_neg hinside] at h
    by_cases hnext : t.month < 12
    · rw [if_pos hnext] at h
      cases h
      simp only [dayNumber, daysBeforeMonth_succ t.year hmonth.1, hlast]
      omega
    · rw [if_neg hnext, Option.ite_none_right_eq_some] at h
      obtain ⟨-, h⟩ := h
      cases h
      have htwelve : t.month = 12 := by omega
      have hyear : daysBeforeMonth t.year 13 = daysBeforeMonth t.year 12 + daysIn t.year 12 :=
        daysBeforeMonth_succ t.year (by omega)
      have hfirst : daysBeforeMonth (t.year + 1) 1 = 0 := rfl
      simp only [dayNumber, daysBeforeYear_succ ht.year.1, hyear, hlast, htwelve, hfirst]
      omega

/-! ## Dates in order -/

section

variable {a b : WallTime} (ha : a.IsValid) (hb : b.IsValid)

include ha hb

/-- The date is the earlier one, by its year, month and day. -/
theorem dayNumber_lt_of_date (h : a.year < b.year ∨ a.year = b.year ∧
      (a.month < b.month ∨ a.month = b.month ∧ a.day < b.day)) :
    a.dayNumber < b.dayNumber := by
  have hday := hb.day.1
  rcases h with hyear | ⟨hyear, hmonth | ⟨hmonth, hdays⟩⟩
  · have hle := dayNumber_le_daysBeforeYear ha hyear
    simp only [dayNumber] at hle ⊢
    omega
  · have hle := day_le_daysBeforeMonth ha hmonth
    simp only [dayNumber, ← hyear]
    omega
  · simp only [dayNumber, ← hyear, ← hmonth]
    omega

theorem dayNumber_lt_iff :
    a.dayNumber < b.dayNumber ↔ a.year < b.year ∨ a.year = b.year ∧
      (a.month < b.month ∨ a.month = b.month ∧ a.day < b.day) := by
  refine ⟨fun h => ?_, dayNumber_lt_of_date ha hb⟩
  by_contra hnot
  have hsame : a.dayNumber = b.dayNumber ∨ b.dayNumber < a.dayNumber := by
    by_cases heq : a.year = b.year ∧ a.month = b.month ∧ a.day = b.day
    · obtain ⟨hyear, hmonth, hday⟩ := heq
      exact .inl (by rw [dayNumber, dayNumber, hyear, hmonth, hday])
    · exact .inr (dayNumber_lt_of_date hb ha (by omega))
  omega

theorem dayNumber_eq_iff :
    a.dayNumber = b.dayNumber ↔ a.year = b.year ∧ a.month = b.month ∧ a.day = b.day := by
  have hbefore := dayNumber_lt_iff ha hb
  have hbehind := dayNumber_lt_iff hb ha
  omega

end

/-! ## Times in order -/

/-- The milliseconds of a day before the time of day, which is cut off at a millisecond. -/
def millisecondOfDay (t : WallTime) : ℕ :=
  ((t.hour * 60 + t.minute) * 60 + t.second) * 1000 + t.microsecond / 1000

/-- The milliseconds before the time, cut off at a millisecond, from the beginning of the day
before the first day of year 1. -/
def instant (t : WallTime) : ℕ := 86400000 * t.dayNumber + t.millisecondOfDay

/-- The numbers that are shown of a reading, but for the offset. -/
def numbers (t : WallTime) : List ℕ :=
  [t.year, t.month, t.day, t.hour, t.minute, t.second, t.microsecond / 1000]

/-- Times are in order as their numbers are. -/
theorem instant_lt_iff {a b : WallTime} (ha : a.IsValid) (hb : b.IsValid) :
    a.instant < b.instant ↔ a.numbers < b.numbers := by
  have hhour := ha.hour
  have hminute := ha.minute
  have hsecond := ha.second
  have hmicrosecond := ha.microsecond
  have hhour' := hb.hour
  have hminute' := hb.minute
  have hsecond' := hb.second
  have hmicrosecond' := hb.microsecond
  have htime : a.millisecondOfDay < b.millisecondOfDay ↔
      [a.hour, a.minute, a.second, a.microsecond / 1000] <
        [b.hour, b.minute, b.second, b.microsecond / 1000] := by
    simp only [millisecondOfDay, List.cons_lt_cons_iff, List.lt_irrefl, and_false, or_false]
    omega
  have hdate : [a.year, a.month, a.day] < [b.year, b.month, b.day] ↔
      a.dayNumber < b.dayNumber := by
    rw [dayNumber_lt_iff ha hb]
    simp [List.cons_lt_cons_iff]
  have hsame : [a.year, a.month, a.day] = [b.year, b.month, b.day] ↔
      a.dayNumber = b.dayNumber := by
    rw [dayNumber_eq_iff ha hb]
    simp
  have hlength : [a.year, a.month, a.day].length = [b.year, b.month, b.day].length := rfl
  calc a.instant < b.instant
      ↔ a.dayNumber < b.dayNumber ∨ a.dayNumber = b.dayNumber ∧
          a.millisecondOfDay < b.millisecondOfDay :=
        Numeral.place_lt_place_iff (by rw [millisecondOfDay]; omega)
          (by rw [millisecondOfDay]; omega)
    _ ↔ [a.year, a.month, a.day] ++ [a.hour, a.minute, a.second, a.microsecond / 1000] <
          [b.year, b.month, b.day] ++ [b.hour, b.minute, b.second, b.microsecond / 1000] := by
        rw [Numeral.append_lt_append_iff hlength, hdate, hsame, htime]
    _ ↔ a.numbers < b.numbers := Iff.rfl

/-- Only the same numbers are the same time. -/
theorem instant_inj {a b : WallTime} (ha : a.IsValid) (hb : b.IsValid) :
    a.instant = b.instant ↔ a.numbers = b.numbers := by
  rw [eq_iff_le_not_lt, eq_iff_le_not_lt, ← not_lt, ← not_lt, instant_lt_iff ha hb,
    instant_lt_iff hb ha]

end AccessJournal.WallTime
