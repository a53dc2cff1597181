import EwfImage.Metadata.DateTime

/-!
# Dates and seconds

Every number of seconds from 1970 on, up to the end of the last year of a `u16`, is the number
of a date that `from_unix_timestamp` finds (`unixTimestamp_fromUnixTimestamp`); and a valid date
has such a number unless it lies outside these years, leap seconds at both ends apart
(`timestamp_nonneg_iff`, `timestamp_lt_iff`).

The two functions are those of the source, which counts days with tables of months and a loop
over years; here the days in front of a year have a closed form, and the loops are shown to come
to it. Years are those of a `u16`.
-/

namespace EwfImage

/-! ## Years -/

theorem daysBeforeYear_succ (year : Nat) :
    daysBeforeYear (year + 1) = daysBeforeYear year + daysInYear year := by
  simp only [daysBeforeYear, daysInYear, isLeapYear, decide_eq_true_eq]
  by_cases hleap : (year % 4 = 0 ∧ year % 100 ≠ 0) ∨ year % 400 = 0
  · rw [if_pos hleap]
    omega
  · rw [if_neg hleap]
    omega

theorem daysInYear_pos (year : Nat) : 365 ≤ daysInYear year := by
  rw [daysInYear]
  split <;> decide

/-- Later years are later by at least their number of ordinary years. -/
theorem daysBeforeYear_add (year count : Nat) :
    daysBeforeYear year + 365 * count ≤ daysBeforeYear (year + count) := by
  induction count with
  | zero => simp
  | succ count ih =>
    have hsucc := daysBeforeYear_succ (year + count)
    have hpos := daysInYear_pos (year + count)
    rw [← Nat.add_assoc, hsucc]
    omega

theorem daysBeforeYear_le {year year' : Nat} (hle : year ≤ year') :
    daysBeforeYear year + 365 * (year' - year : Nat) ≤ daysBeforeYear year' := by
  obtain ⟨count, rfl⟩ := Nat.exists_eq_add_of_le hle
  have hadd := daysBeforeYear_add year count
  rw [Nat.add_sub_cancel_left]
  exact hadd

namespace HeaderDateTime

/-- The search for the year of a day within the years that it may try. -/
theorem yearOfDays_eq_some {years year days : Nat}
    (hdays : daysBeforeYear year + days < daysBeforeYear (year + years)) :
    ∃ found rest, yearOfDays years year days = some (found, rest) ∧
      daysBeforeYear found + rest = daysBeforeYear year + days ∧ rest < daysInYear found ∧
      year ≤ found ∧ found < year + years := by
  induction years generalizing year days with
  | zero =>
    rw [Nat.add_zero] at hdays
    omega
  | succ years ih =>
    rw [yearOfDays]
    by_cases hfound : days < daysInYear year
    · rw [if_pos hfound]
      exact ⟨year, days, rfl, rfl, hfound, Nat.le_refl _, by omega⟩
    · rw [if_neg hfound]
      have hsucc := daysBeforeYear_succ year
      have hnext : year + 1 + years = year + (years + 1) := by omega
      obtain ⟨found, rest, hsome, hsum, hrest, hle, hlt⟩ :=
        @ih (year + 1) (days - daysInYear year) (by rw [hnext]; omega)
      exact ⟨found, rest, hsome, by omega, hrest, by omega, by omega⟩

theorem yearOfDays_eq_none {years year days : Nat}
    (hdays : daysBeforeYear (year + years) ≤ daysBeforeYear year + days) :
    yearOfDays years year days = none := by
  induction years generalizing year days with
  | zero => rfl
  | succ years ih =>
    have hsucc := daysBeforeYear_succ year
    have hnext : year + 1 + years = year + (years + 1) := by omega
    have hrest := daysBeforeYear_add (year + 1) years
    rw [hnext] at hrest
    rw [yearOfDays, if_neg (by omega)]
    exact ih (by rw [hnext]; omega)

end HeaderDateTime

/-! ## Months -/

theorem daysBeforeMonth_one (year : Nat) : daysBeforeMonth year 1 = 0 := rfl

theorem daysBeforeMonth_succ (year : Nat) {month : Nat} (h : 1 ≤ month) :
    daysBeforeMonth year (month + 1) = daysBeforeMonth year month + daysInMonth year month := by
  obtain ⟨before, rfl⟩ := Nat.exists_eq_add_of_le h
  rw [daysBeforeMonth, daysBeforeMonth, Nat.add_sub_cancel, Nat.add_sub_cancel_left,
    Nat.add_comm 1 before, List.range'_concat, List.map_append, List.sum_append]
  simp [Nat.add_comm]

theorem daysBeforeMonth_le (year : Nat) {month month' : Nat} (h : 1 ≤ month) (hle : month ≤ month') :
    daysBeforeMonth year month ≤ daysBeforeMonth year month' := by
  obtain ⟨count, rfl⟩ := Nat.exists_eq_add_of_le hle
  clear hle
  induction count with
  | zero => exact Nat.le_refl _
  | succ count ih =>
    rw [← Nat.add_assoc, daysBeforeMonth_succ year (Nat.le_trans h (Nat.le_add_right month count))]
    omega

/-- December is the last month of a year. -/
theorem daysBeforeMonth_december (year : Nat) :
    daysBeforeMonth year 12 + 31 = daysInYear year := by
  cases hleap : isLeapYear year with
  | true => simp [daysBeforeMonth, daysInMonth, daysInYear, hleap, List.range'_succ]
  | false => simp [daysBeforeMonth, daysInMonth, daysInYear, hleap, List.range'_succ]

theorem daysBeforeMonth_thirteen (year : Nat) : daysBeforeMonth year 13 = daysInYear year := by
  rw [daysBeforeMonth_succ _ (by decide), ← daysBeforeMonth_december]
  rfl

theorem daysInMonth_pos {year month : Nat} (h : 0 < daysInMonth year month) :
    1 ≤ month ∧ month ≤ 12 := by
  unfold daysInMonth at h
  split at h
  · rename_i hmem
    simp only [List.mem_cons, List.not_mem_nil, or_false] at hmem
    omega
  · split at h
    · rename_i hmem
      simp only [List.mem_cons, List.not_mem_nil, or_false] at hmem
      omega
    · split at h
      · omega
      · omega

/-- The search for the month of a day of a year. -/
theorem HeaderDateTime.monthOfDays_eq_some {year months month days : Nat} (h : 1 ≤ month)
    (hdays : daysBeforeMonth year month + days < daysBeforeMonth year (month + months)) :
    ∃ found rest, monthOfDays year months month days = some (found, rest) ∧
      daysBeforeMonth year found + rest = daysBeforeMonth year month + days ∧
      rest < daysInMonth year found := by
  induction months generalizing month days with
  | zero =>
    rw [Nat.add_zero] at hdays
    omega
  | succ months ih =>
    rw [monthOfDays]
    by_cases hfound : days < daysInMonth year month
    · rw [if_pos hfound]
      exact ⟨month, days, rfl, rfl, hfound⟩
    · rw [if_neg hfound]
      have hsucc := daysBeforeMonth_succ year h
      have hnext : month + 1 + months = month + (months + 1) := by omega
      obtain ⟨found, rest, hsome, hsum, hrest⟩ :=
        @ih (month + 1) (days - daysInMonth year month) (Nat.le_add_left 1 month)
          (by rw [hnext]; omega)
      exact ⟨found, rest, hsome, by omega, hrest⟩

/-! ## Seconds -/

namespace HeaderDateTime

/-- The days from 1970 on. -/
def days (date : HeaderDateTime) : Int :=
  daysBeforeYear date.year + daysBeforeMonth date.year date.month + (date.day - 1 : Nat)

def secondsOfDay (date : HeaderDateTime) : Nat :=
  date.hour * 3600 + date.minute * 60 + date.second

theorem unixTimestamp_eq (date : HeaderDateTime) :
    date.unixTimestamp = date.days * 86400 + date.secondsOfDay := by
  simp only [unixTimestamp, days, secondsOfDay]
  omega

/-- The first second behind the last year of a `u16`. -/
def timestampLimit : Int := daysBeforeYear (2 ^ 16) * 86400

theorem validate_iff {date : HeaderDateTime} :
    date.validate = true ↔ 0 < date.year ∧ (1 ≤ date.month ∧ date.month ≤ 12) ∧ 1 ≤ date.day ∧
      date.day ≤ daysInMonth date.year date.month ∧ date.hour ≤ 23 ∧ date.minute ≤ 59 ∧
      date.second ≤ 60 := by
  rw [validate, decide_eq_true_eq]

/-- A number of seconds in range is the number of the date that is found for it. -/
theorem fromUnixTimestamp_eq_some {timestamp : Int} (hpos : 0 ≤ timestamp)
    (hlimit : timestamp < timestampLimit) :
    ∃ date, fromUnixTimestamp timestamp = some date ∧ date.unixTimestamp = timestamp ∧
      date.validate = true ∧ date.year < 2 ^ 16 ∧ 1970 ≤ date.year ∧ date.second ≤ 59 := by
  obtain ⟨seconds, rfl⟩ := Int.eq_ofNat_of_zero_le hpos
  have hstart : daysBeforeYear 1970 = 0 := by decide
  have hyears : 1970 + (2 ^ 16 - 1970) = 2 ^ 16 := by decide
  have hdays : daysBeforeYear 1970 + (seconds / 86400 : Nat) <
      daysBeforeYear (1970 + (2 ^ 16 - 1970)) := by
    rw [hyears, hstart]
    rw [timestampLimit] at hlimit
    omega
  obtain ⟨year, rest, hyear, hsum, hrest, hle, hlt⟩ := yearOfDays_eq_some hdays
  have hmonths : daysBeforeMonth year 1 + rest < daysBeforeMonth year (1 + (2 ^ 8 - 1)) := by
    have hmono := daysBeforeMonth_le year (show 1 ≤ 13 by decide)
      (show 13 ≤ 1 + (2 ^ 8 - 1) by decide)
    rw [daysBeforeMonth_thirteen] at hmono
    rw [daysBeforeMonth_one]
    omega
  obtain ⟨month, day, hmonth, hmonthSum, hday⟩ := monthOfDays_eq_some (by decide) hmonths
  obtain ⟨hmonthPos, hmonthLe⟩ := daysInMonth_pos (Nat.lt_of_le_of_lt (Nat.zero_le _) hday)
  refine ⟨⟨year, month, day + 1, seconds % 86400 / 3600, seconds % 86400 % 3600 / 60,
    seconds % 86400 % 60⟩, ?_, ?_, ?_, by omega, hle, ?_⟩
  · rw [fromUnixTimestamp, if_neg (Int.not_lt.mpr hpos)]
    simp only [Int.toNat_natCast, hyear, hmonth, Option.bind_eq_bind, Option.bind_some,
      Option.pure_def]
  · rw [unixTimestamp_eq, days, secondsOfDay]
    rw [daysBeforeMonth_one] at hmonthSum
    simp only [Nat.add_sub_cancel]
    omega
  · rw [validate_iff]
    refine ⟨Nat.lt_of_lt_of_le (by decide) hle, ⟨hmonthPos, hmonthLe⟩, Nat.le_add_left 1 day, hday, ?_, ?_, ?_⟩
    · simp only
      omega
    · simp only
      omega
    · simp only
      omega
  · simp only
    omega

theorem fromUnixTimestamp_eq_none {timestamp : Int}
    (h : timestamp < 0 ∨ timestampLimit ≤ timestamp) : fromUnixTimestamp timestamp = none := by
  rw [fromUnixTimestamp]
  by_cases hneg : timestamp < 0
  · rw [if_pos hneg]
  · rw [if_neg hneg]
    obtain ⟨seconds, rfl⟩ := Int.eq_ofNat_of_zero_le (Int.not_lt.mp hneg)
    have hlimit := h.resolve_left hneg
    have hstart : daysBeforeYear 1970 = 0 := by decide
    have hyears : 1970 + (2 ^ 16 - 1970) = 2 ^ 16 := by decide
    have hdays : daysBeforeYear (1970 + (2 ^ 16 - 1970)) ≤
        daysBeforeYear 1970 + (seconds / 86400 : Nat) := by
      rw [hyears, hstart]
      rw [timestampLimit] at hlimit
      omega
    simp only [Int.toNat_natCast, yearOfDays_eq_none hdays, Option.bind_eq_bind, Option.bind_none]

/-- The days of a valid date lie in its year; only the last of December is the last of them. -/
theorem days_bounds {date : HeaderDateTime} (h : date.validate = true) :
    daysBeforeYear date.year ≤ date.days ∧ date.days < daysBeforeYear (date.year + 1) ∧
      (date.days + 1 = daysBeforeYear (date.year + 1) ↔ date.month = 12 ∧ date.day = 31) := by
  obtain ⟨_, ⟨hmonth, hmonthLe⟩, hday, hdayLe, _⟩ := validate_iff.mp h
  have hsucc := daysBeforeYear_succ date.year
  have hdecember := daysBeforeMonth_december date.year
  rw [days]
  by_cases hlast : date.month = 12
  · have hlength : daysInMonth date.year date.month = 31 := by
      rw [hlast]
      rfl
    rw [hlast]
    omega
  · have hmono := daysBeforeMonth_le date.year (Nat.le_add_left 1 date.month)
      (show date.month + 1 ≤ 12 by omega)
    rw [daysBeforeMonth_succ _ hmonth] at hmono
    omega

theorem secondsOfDay_bounds {date : HeaderDateTime} (h : date.validate = true) :
    date.secondsOfDay ≤ 86400 ∧
      (date.secondsOfDay = 86400 ↔ date.hour = 23 ∧ date.minute = 59 ∧ date.second = 60) := by
  obtain ⟨_, _, _, _, hhour, hminute, hsecond⟩ := validate_iff.mp h
  rw [secondsOfDay]
  omega

/-- The leap second at the end of a year. -/
def lastSecond (year : Nat) : HeaderDateTime := ⟨year, 12, 31, 23, 59, 60⟩

theorem eq_lastSecond_iff {date : HeaderDateTime} {year : Nat} :
    date = lastSecond year ↔ date.year = year ∧ (date.month = 12 ∧ date.day = 31) ∧
      date.hour = 23 ∧ date.minute = 59 ∧ date.second = 60 := by
  obtain ⟨year', month, day, hour, minute, second⟩ := date
  simp only [lastSecond, mk.injEq]
  tauto

/-- Valid dates have no negative number of seconds from 1970 on, nor the leap second in front. -/
theorem timestamp_nonneg_iff {date : HeaderDateTime} (h : date.validate = true) :
    0 ≤ date.unixTimestamp ↔ 1970 ≤ date.year ∨ date = lastSecond 1969 := by
  obtain ⟨hlow, hhigh, hlast⟩ := days_bounds h
  obtain ⟨hseconds, hleap⟩ := secondsOfDay_bounds h
  have hstart : daysBeforeYear 1970 = 0 := by decide
  rw [unixTimestamp_eq, eq_lastSecond_iff, ← hlast, ← hleap]
  by_cases hyear : 1970 ≤ date.year
  · have hle := daysBeforeYear_le hyear
    rw [hstart] at hle
    omega
  · have hle := daysBeforeYear_le (show date.year + 1 ≤ 1970 by omega)
    rw [hstart] at hle
    by_cases heq : date.year = 1969
    · rw [heq, hstart] at hhigh ⊢
      omega
    · omega

/-- Only the last leap second of the last year of a `u16` is behind the limit. -/
theorem timestamp_lt_iff {date : HeaderDateTime} (h : date.validate = true)
    (hyear : date.year < 2 ^ 16) :
    date.unixTimestamp < timestampLimit ↔ date ≠ lastSecond 65535 := by
  obtain ⟨hlow, hhigh, hlast⟩ := days_bounds h
  obtain ⟨hseconds, hleap⟩ := secondsOfDay_bounds h
  rw [unixTimestamp_eq, timestampLimit, Ne, eq_lastSecond_iff, ← hlast, ← hleap]
  have hle := daysBeforeYear_le (show date.year + 1 ≤ 2 ^ 16 by omega)
  by_cases heq : date.year = 65535
  · rw [heq] at hhigh hle ⊢
    have hlimit : 65535 + 1 = 2 ^ 16 := by decide
    rw [hlimit] at hhigh ⊢
    omega
  · omega

end HeaderDateTime

end EwfImage
