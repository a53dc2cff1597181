import EwfImage.Metadata.Calendar
import Mathlib.Order.Monotone.Basic
import Mathlib.Data.List.Lex

/-!
# The order of dates

The dates without a leap second from 1970 on, up to the last year of a `u16`, in the order of
their fields, are the numbers of seconds below `timestampLimit`: `unix_timestamp` and
`from_unix_timestamp` undo each other and keep the order. The weekday of a date is counted from
the Thursday on which 1970 began (`weekdayIndex_eq`).

The main result is `unixTimestamp_calendar`, about every date that the program can hold from
1970 on: the two functions are inverse to each other, strictly monotone in the lexicographic
order of the fields, and the weekday is the number of days since the start modulo seven. The
leap second of a minute is left out, since it has the number of the second behind it.
-/

namespace EwfImage

namespace HeaderDateTime

/-- The valid dates from 1970 on that end no minute with a leap second. -/
structure InEpoch (date : HeaderDateTime) : Prop where
  valid : date.validate = true
  year_lt : date.year < 2 ^ 16
  epoch : 1970 ≤ date.year
  second_le : date.second ≤ 59

instance (date : HeaderDateTime) : Decidable date.InEpoch :=
  decidable_of_iff (date.validate = true ∧ date.year < 2 ^ 16 ∧ 1970 ≤ date.year ∧ date.second ≤ 59)
    ⟨fun ⟨valid, year_lt, epoch, second_le⟩ => ⟨valid, year_lt, epoch, second_le⟩,
      fun h => ⟨h.valid, h.year_lt, h.epoch, h.second_le⟩⟩

/-- The fields of a date, the largest unit first. Dates are compared by them. -/
def fields (date : HeaderDateTime) : List Nat :=
  [date.year, date.month, date.day, date.hour, date.minute, date.second]

theorem fields_injective : Function.Injective fields := by
  rintro ⟨year, month, day, hour, minute, second⟩ ⟨year', month', day', hour', minute', second'⟩ h
  simp only [fields, List.cons.injEq, and_true] at h
  simp only [mk.injEq]
  exact h

theorem fields_lt_iff {date later : HeaderDateTime} :
    date.fields < later.fields ↔ date.year < later.year ∨ date.year = later.year ∧
      (date.month < later.month ∨ date.month = later.month ∧
        (date.day < later.day ∨ date.day = later.day ∧
          (date.hour < later.hour ∨ date.hour = later.hour ∧
            (date.minute < later.minute ∨ date.minute = later.minute ∧
              date.second < later.second)))) := by
  simp only [fields, List.cons_lt_cons_iff, List.not_lt_nil, and_false, or_false]

/-! ## Days -/

/-- A day in front of another one in the calendar has a smaller number. -/
theorem days_lt {date later : HeaderDateTime} (hdate : date.validate = true)
    (hlater : later.validate = true)
    (h : date.year < later.year ∨ date.year = later.year ∧
      (date.month < later.month ∨ date.month = later.month ∧ date.day < later.day)) :
    date.days < later.days := by
  obtain ⟨_, ⟨hmonth, _⟩, hday, hdayLe, _⟩ := validate_iff.mp hdate
  have hlaterDay := (validate_iff.mp hlater).2.2.1
  rcases h with hyear | ⟨hyear, hmonths | ⟨hmonths, hdays⟩⟩
  · have hbounds := days_bounds hdate
    have hlaterBounds := days_bounds hlater
    have hle := daysBeforeYear_le (show date.year + 1 ≤ later.year from hyear)
    omega
  · have hle := daysBeforeMonth_le date.year (Nat.le_add_left 1 date.month)
      (Nat.succ_le_of_lt hmonths)
    rw [daysBeforeMonth_succ _ hmonth] at hle
    rw [days, days, ← hyear]
    omega
  · rw [days, days, ← hyear, ← hmonths]
    omega

theorem days_nonneg {date : HeaderDateTime} (h : date.InEpoch) : 0 ≤ date.days := by
  have hstart : daysBeforeYear 1970 = 0 := by decide
  have hle := daysBeforeYear_le h.epoch
  have hbounds := days_bounds h.valid
  omega

/-! ## Seconds -/

theorem secondsOfDay_lt {date : HeaderDateTime} (h : date.InEpoch) : date.secondsOfDay < 86400 := by
  obtain ⟨hle, hlast⟩ := secondsOfDay_bounds h.valid
  have hsecond := h.second_le
  omega

theorem unixTimestamp_lt {date later : HeaderDateTime} (hdate : date.InEpoch)
    (hlater : later.InEpoch) (h : date.fields < later.fields) :
    date.unixTimestamp < later.unixTimestamp := by
  have hseconds := secondsOfDay_lt hdate
  rw [unixTimestamp_eq, unixTimestamp_eq]
  rw [fields_lt_iff] at h
  by_cases hday : date.year < later.year ∨ date.year = later.year ∧
      (date.month < later.month ∨ date.month = later.month ∧ date.day < later.day)
  · have hdays := days_lt hdate.valid hlater.valid hday
    omega
  · have hsame : date.year = later.year ∧ date.month = later.month ∧ date.day = later.day := by
      omega
    have hdays : date.days = later.days := by
      rw [days, days, hsame.1, hsame.2.1, hsame.2.2]
    obtain ⟨_, _, _, _, _, hminute, _⟩ := validate_iff.mp hdate.valid
    have hsecond := hdate.second_le
    rw [hdays, secondsOfDay, secondsOfDay]
    omega

/-- The numbers of seconds are in the order of the dates. -/
theorem unixTimestamp_lt_iff {date later : HeaderDateTime} (hdate : date.InEpoch)
    (hlater : later.InEpoch) :
    date.unixTimestamp < later.unixTimestamp ↔ date.fields < later.fields := by
  refine ⟨fun h => ?_, unixTimestamp_lt hdate hlater⟩
  rcases lt_trichotomy date.fields later.fields with hlt | hsame | hgt
  · exact hlt
  · rw [fields_injective hsame] at h
    exact absurd h (lt_irrefl _)
  · exact absurd h (lt_asymm (unixTimestamp_lt hlater hdate hgt))

theorem eq_of_unixTimestamp_eq {date other : HeaderDateTime} (hdate : date.InEpoch)
    (hother : other.InEpoch) (h : date.unixTimestamp = other.unixTimestamp) : date = other := by
  rcases lt_trichotomy date.fields other.fields with hlt | hsame | hgt
  · exact absurd h (unixTimestamp_lt hdate hother hlt).ne
  · exact fields_injective hsame
  · exact absurd h.symm (unixTimestamp_lt hother hdate hgt).ne

theorem unixTimestamp_bounds {date : HeaderDateTime} (h : date.InEpoch) :
    0 ≤ date.unixTimestamp ∧ date.unixTimestamp < timestampLimit := by
  refine ⟨(timestamp_nonneg_iff h.valid).mpr (.inl h.epoch), ?_⟩
  rw [timestamp_lt_iff h.valid h.year_lt]
  rintro rfl
  exact absurd h.second_le (by decide)

/-- The search succeeds on the numbers of seconds in range, and there it finds the date that has the
number. -/
theorem fromUnixTimestamp_eq_some_iff {timestamp : Int} {date : HeaderDateTime} :
    fromUnixTimestamp timestamp = some date ↔ date.InEpoch ∧ date.unixTimestamp = timestamp := by
  have hfinds : 0 ≤ timestamp ∧ timestamp < timestampLimit → ∃ found,
      fromUnixTimestamp timestamp = some found ∧ found.InEpoch ∧
        found.unixTimestamp = timestamp := by
    rintro ⟨hpos, hlimit⟩
    obtain ⟨found, hfound, hsame, hvalid, hyear, hepoch, hsecond⟩ :=
      fromUnixTimestamp_eq_some hpos hlimit
    exact ⟨found, hfound, ⟨hvalid, hyear, hepoch, hsecond⟩, hsame⟩
  constructor
  · intro h
    by_cases hrange : 0 ≤ timestamp ∧ timestamp < timestampLimit
    · obtain ⟨found, hfound, hepoch, hsame⟩ := hfinds hrange
      rw [h] at hfound
      cases hfound
      exact ⟨hepoch, hsame⟩
    · rw [fromUnixTimestamp_eq_none (by omega)] at h
      cases h
  · rintro ⟨hepoch, rfl⟩
    obtain ⟨found, hfound, hfoundEpoch, hsame⟩ := hfinds (unixTimestamp_bounds hepoch)
    rw [hfound, eq_of_unixTimestamp_eq hfoundEpoch hepoch hsame]

/-! ## Weekdays -/

/-- The days in front of a month from March on. -/
theorem daysBeforeMonth_eq (year : Nat) {month : Nat} (h : 3 ≤ month) (hle : month ≤ 12) :
    daysBeforeMonth year month + 400 = daysInYear year + 28 * month + (13 * (month + 1)) / 5 := by
  have hcases : month = 3 ∨ month = 4 ∨ month = 5 ∨ month = 6 ∨ month = 7 ∨ month = 8 ∨ month = 9 ∨
      month = 10 ∨ month = 11 ∨ month = 12 := by omega
  cases hleap : isLeapYear year with
  | true =>
    rcases hcases with rfl | rfl | rfl | rfl | rfl | rfl | rfl | rfl | rfl | rfl <;>
      simp [daysBeforeMonth, daysInMonth, daysInYear, hleap, List.range'_succ]
  | false =>
    rcases hcases with rfl | rfl | rfl | rfl | rfl | rfl | rfl | rfl | rfl | rfl <;>
      simp [daysBeforeMonth, daysInMonth, daysInYear, hleap, List.range'_succ]

/-- The days in front of January or February, that are the last months of the year before. -/
theorem daysBeforeMonth_early (year : Nat) {month : Nat} (h : 1 ≤ month) (hlt : month < 3) :
    daysBeforeMonth year month + 400 = 28 * (month + 12) + (13 * (month + 12 + 1)) / 5 := by
  have hcases : month = 1 ∨ month = 2 := by omega
  rcases hcases with rfl | rfl
  · rfl
  · simp [daysBeforeMonth, daysInMonth]

/-- The remainder of a number of days by the week, from the century and the year in it. -/
theorem daysBeforeYear_weeks (century yearOfCentury : Nat) (h : yearOfCentury < 100) :
    (daysBeforeYear (100 * century + yearOfCentury + 1) + 3) % 7 =
      ((yearOfCentury + yearOfCentury / 4 + century / 4 + 5 * century : Nat) : Int) % 7 := by
  have hprevious : ((100 * century + yearOfCentury + 1 : Nat) : Int) - 1 =
      100 * century + yearOfCentury := by omega
  have hfour : (100 * (century : Int) + yearOfCentury) / 4 = 25 * century + yearOfCentury / 4 := by
    omega
  have hhundred : (100 * (century : Int) + yearOfCentury) / 100 = century := by omega
  have hcycle : (100 * (century : Int) + yearOfCentury) / 400 = century / 4 := by omega
  rw [daysBeforeYear, hprevious, hfour, hhundred, hcycle]
  omega

/-- The weekday is the one that is counted from the start of 1970. -/
theorem weekdayIndex_eq {date : HeaderDateTime} (h : date.validate = true) :
    (weekdayIndex date.year date.month date.day : Int) = (date.days + 4) % 7 := by
  obtain ⟨hyear, ⟨hmonth, hmonthLe⟩, hday, _⟩ := validate_iff.mp h
  rw [days, weekdayIndex]
  by_cases hearly : date.month < 3
  · rw [if_pos hearly]
    have hmonths := daysBeforeMonth_early date.year hmonth hearly
    have hweeks := daysBeforeYear_weeks ((date.year - 1) / 100) ((date.year - 1) % 100)
      (Nat.mod_lt _ (by decide))
    rw [Nat.div_add_mod, Nat.sub_add_cancel hyear] at hweeks
    dsimp only
    omega
  · rw [if_neg hearly]
    have hmonths := daysBeforeMonth_eq date.year (Nat.not_lt.mp hearly) hmonthLe
    have hweeks := daysBeforeYear_weeks (date.year / 100) (date.year % 100)
      (Nat.mod_lt _ (by decide))
    rw [Nat.div_add_mod, daysBeforeYear_succ] at hweeks
    dsimp only
    omega

/-! ## Dates and seconds in order -/

/-- Dates without leap seconds from 1970 on, in the order of their fields, and numbers of seconds in
range are the same. The weekday of a date is counted from Thursday, the day of the number 0. -/
theorem unixTimestamp_calendar :
    (∀ date, InEpoch date → fromUnixTimestamp date.unixTimestamp = some date) ∧
    (∀ timestamp, 0 ≤ timestamp → timestamp < timestampLimit → ∃ date,
      fromUnixTimestamp timestamp = some date ∧ date.InEpoch ∧ date.unixTimestamp = timestamp) ∧
    (∀ timestamp, timestamp < 0 ∨ timestampLimit ≤ timestamp →
      fromUnixTimestamp timestamp = none) ∧
    (∀ date later, InEpoch date → InEpoch later → date.fields < later.fields →
      date.unixTimestamp < later.unixTimestamp) ∧
    (∀ timestamp laterTimestamp date later, fromUnixTimestamp timestamp = some date →
      fromUnixTimestamp laterTimestamp = some later → timestamp < laterTimestamp →
      date.fields < later.fields) ∧
    ∀ date, InEpoch date → 0 ≤ date.days ∧
      (weekdayIndex date.year date.month date.day : Int) = (date.days + 4) % 7 := by
  refine ⟨fun date h => ?_, fun timestamp hpos hlimit => ?_,
    fun timestamp h => fromUnixTimestamp_eq_none h, fun date later => unixTimestamp_lt,
    fun timestamp laterTimestamp date later hdate hlater hlt => ?_,
    fun date h => ⟨days_nonneg h, weekdayIndex_eq h.valid⟩⟩
  · exact fromUnixTimestamp_eq_some_iff.mpr ⟨h, rfl⟩
  · obtain ⟨date, hdate, hsame, hvalid, hyear, hepoch, hsecond⟩ :=
      fromUnixTimestamp_eq_some hpos hlimit
    exact ⟨date, hdate, ⟨hvalid, hyear, hepoch, hsecond⟩, hsame⟩
  · obtain ⟨hepoch, rfl⟩ := fromUnixTimestamp_eq_some_iff.mp hdate
    obtain ⟨hlaterEpoch, rfl⟩ := fromUnixTimestamp_eq_some_iff.mp hlater
    exact (unixTimestamp_lt_iff hepoch hlaterEpoch).mp hlt

/-- The last second of a leap day, a Saturday. -/
theorem unixTimestamp_calendar_leapDay :
    fromUnixTimestamp (unixTimestamp ⟨2020, 2, 29, 23, 59, 59⟩) =
        some ⟨2020, 2, 29, 23, 59, 59⟩ ∧
      (weekdayIndex 2020 2 29 : Int) = (days ⟨2020, 2, 29, 23, 59, 59⟩ + 4) % 7 := by
  obtain ⟨hback, _, _, _, _, hweekday⟩ := unixTimestamp_calendar
  have hepoch : InEpoch ⟨2020, 2, 29, 23, 59, 59⟩ := by decide
  exact ⟨hback _ hepoch, (hweekday _ hepoch).2⟩

end HeaderDateTime

end EwfImage
