import EwfImage.Metadata.Calendar

/-!
# Dates through headers

A date that was read from a text is written into each header in a form that is read as the same
second again, unless it lies outside the years that the seconds of the EWF1 `header2` can be read
back for (`headerDate_roundTrip_iff`).

The result is about every text that the parser accepts and all four forms in which a date is
written: the numbers of the EWF1 `header`, the seconds of the `header2`, the EWF2 case data, which
keep the text, and the `ctime` of XML headers. The instant is the one that the program itself
counts from a date, without a zone; a leap second counts as the second behind it.
-/

namespace EwfImage

open Decimal Text

/-! ## Characters -/

theorem isWhitespace_of_isDigit {c : Char} (h : c.isDigit = true) : isWhitespace c = false := by
  have hbounds : 48 ≤ c.toNat ∧ c.toNat ≤ 57 := by
    rw [Char.isDigit, Bool.and_eq_true, decide_eq_true_eq, decide_eq_true_eq] at h
    exact h
  simp only [isWhitespace, decide_eq_false_iff_not]
  omega

theorem isWhitespace_of_mem_padded {width n : Nat} {c : Char} (h : c ∈ padded width n) :
    isWhitespace c = false :=
  isWhitespace_of_isDigit (isDigit_of_mem_padded h)

theorem splitWhitespace_padded (width n : Nat) :
    splitWhitespace (padded width n) = [padded width n] :=
  splitWhitespace_word (padded_ne_nil width n) fun _ hc => isWhitespace_of_mem_padded hc

theorem splitWhitespace_padded_append (width n : Nat) (text : List Char) :
    splitWhitespace (padded width n ++ ' ' :: text) = padded width n :: splitWhitespace text :=
  splitWhitespace_append text (padded_ne_nil width n)
    (fun _ hc => isWhitespace_of_mem_padded hc) rfl

theorem not_mem_padded {width n : Nat} {c : Char} (h : c.isDigit = false) : c ∉ padded width n := by
  intro hmem
  rw [isDigit_of_mem_padded hmem] at h
  cases h

/-! ## What is read -/

namespace HeaderDateTime

/-- What every reader makes sure of. -/
def InRange (date : HeaderDateTime) : Prop := date.validate = true ∧ date.year < 2 ^ 16

theorem InRange.bounds {date : HeaderDateTime} (h : date.InRange) :
    date.year < 2 ^ 16 ∧ date.month < 2 ^ 8 ∧ date.day < 2 ^ 8 ∧ date.hour < 2 ^ 8 ∧
      date.minute < 2 ^ 8 ∧ date.second < 2 ^ 8 := by
  obtain ⟨hvalid, hyear⟩ := h
  obtain ⟨_, ⟨_, hmonth⟩, _, hday, hhour, hminute, hsecond⟩ := validate_iff.mp hvalid
  have hlength : daysInMonth date.year date.month ≤ 31 := by
    unfold daysInMonth
    split_ifs <;> decide
  omega

end HeaderDateTime

/-- The characters of the six numbers of a date. -/
theorem parseFields_eq_some {year month day hour minute second : List Char} {date : HeaderDateTime}
    (h : parseFields year month day hour minute second = some date) :
    date.InRange ∧ ∀ part ∈ [year, month, day, hour, minute, second], ∀ c ∈ part,
      c.isDigit = true ∨ c = '+' := by
  simp only [parseFields, parseU16, parseU8, Option.bind_eq_bind, Option.bind_eq_some_iff,
    Option.ite_none_right_eq_some] at h
  obtain ⟨y, hy, m, hm, d, hd, hr, hhr, mi, hmi, s, hs, hvalid, heq⟩ := h
  cases heq
  obtain ⟨hlt, hyear⟩ := parseUnsigned_eq_some hy
  refine ⟨⟨hvalid, hlt⟩, ?_⟩
  intro part hpart
  simp only [List.mem_cons, List.not_mem_nil, or_false] at hpart
  rcases hpart with rfl | rfl | rfl | rfl | rfl | rfl
  · exact hyear
  · exact (parseUnsigned_eq_some hm).2
  · exact (parseUnsigned_eq_some hd).2
  · exact (parseUnsigned_eq_some hhr).2
  · exact (parseUnsigned_eq_some hmi).2
  · exact (parseUnsigned_eq_some hs).2

theorem parseFields_padded {date : HeaderDateTime} (h : date.InRange) (widths : Fin 6 → Nat) :
    parseFields (padded (widths 0) date.year) (padded (widths 1) date.month)
      (padded (widths 2) date.day) (padded (widths 3) date.hour) (padded (widths 4) date.minute)
      (padded (widths 5) date.second) = some date := by
  obtain ⟨hyear, hmonth, hday, hhour, hminute, hsecond⟩ := h.bounds
  simp only [parseFields, parseU16, parseU8, parseUnsigned_padded _ hyear,
    parseUnsigned_padded _ hmonth, parseUnsigned_padded _ hday, parseUnsigned_padded _ hhour,
    parseUnsigned_padded _ hminute, parseUnsigned_padded _ hsecond, Option.bind_eq_bind,
    Option.bind_some]
  exact if_pos h.1

theorem parseLegacyDateTime_inRange {value : List Char} {date : HeaderDateTime}
    (h : parseLegacyDateTime value = some date) : date.InRange := by
  unfold parseLegacyDateTime at h
  split at h
  · exact (parseFields_eq_some h).1
  · cases h

theorem mem_stripSuffixZ {value : List Char} {c : Char} (h : c ∈ value) :
    c ∈ stripSuffixZ value ∨ c = 'Z' := by
  unfold stripSuffixZ
  split
  · rename_i hlast
    have hparts := List.dropLast_append_getLast? 'Z' hlast
    rw [← hparts] at h
    rcases List.mem_append.mp h with hmem | hmem
    · exact .inl hmem
    · exact .inr (List.mem_singleton.mp hmem)
  · exact .inl h

/-- An ISO 8601 text has no characters but those of numbers and the separators. -/
theorem parseIso8601DateTime_eq_some {value : List Char} {date : HeaderDateTime}
    (h : parseIso8601DateTime value = some date) :
    date.InRange ∧ ∀ c ∈ value, c.isDigit = true ∨ c ∈ ['+', '-', ':', 'T', 'Z'] := by
  simp only [parseIso8601DateTime, Option.bind_eq_bind, Option.bind_eq_some_iff] at h
  obtain ⟨⟨front, time⟩, hsplit, h⟩ := h
  split at h
  · rename_i year month day hour minute second hdate htime
    obtain ⟨hrange, hparts⟩ := parseFields_eq_some h
    refine ⟨hrange, ?_⟩
    have hwhole := eq_of_splitOnce hsplit
    intro c hc
    rcases mem_stripSuffixZ hc with hmem | rfl
    · rw [hwhole, List.mem_append, List.mem_append, List.mem_singleton] at hmem
      rcases hmem with (hmem | rfl) | hmem
      · rcases mem_splitOn '-' hmem with rfl | ⟨part, hpart, hcpart⟩
        · simp
        · rw [hdate] at hpart
          rcases hparts part (by simp only [List.mem_cons, List.not_mem_nil, or_false] at hpart ⊢
                                 tauto) c hcpart with hdigit | rfl
          · exact .inl hdigit
          · simp
      · simp
      · rcases mem_splitOn ':' hmem with rfl | ⟨part, hpart, hcpart⟩
        · simp
        · rw [htime] at hpart
          rcases hparts part (by simp only [List.mem_cons, List.not_mem_nil, or_false] at hpart ⊢
                                 tauto) c hcpart with hdigit | rfl
          · exact .inl hdigit
          · simp
    · simp
  · cases h

theorem parseUnixTimestampDateTime_inRange {value : List Char} {date : HeaderDateTime}
    (h : parseUnixTimestampDateTime value = some date) : date.InRange := by
  rw [parseUnixTimestampDateTime, Option.ite_none_right_eq_some] at h
  obtain ⟨_, hvalue⟩ := h
  obtain ⟨timestamp, _, hdate⟩ := Option.bind_eq_some_iff.mp hvalue
  by_cases hlimit : (timestamp : Int) < HeaderDateTime.timestampLimit
  · obtain ⟨found, hfound, _, hvalid, hyear, _⟩ :=
      HeaderDateTime.fromUnixTimestamp_eq_some (Int.natCast_nonneg timestamp) hlimit
    rw [hfound] at hdate
    cases hdate
    exact ⟨hvalid, hyear⟩
  · rw [HeaderDateTime.fromUnixTimestamp_eq_none (.inr (Int.not_lt.mp hlimit))] at hdate
    cases hdate

theorem parseCtimeDateTime_inRange {value : List Char} {date : HeaderDateTime}
    (h : parseCtimeDateTime value = some date) : date.InRange := by
  unfold parseCtimeDateTime at h
  split at h
  · simp only [Option.bind_eq_bind, Option.bind_eq_some_iff] at h
    obtain ⟨m, _, d, _, h⟩ := h
    split at h
    · simp only [Option.bind_eq_some_iff, Option.ite_none_right_eq_some] at h
      obtain ⟨y, hy, hr, _, mi, _, s, _, ⟨_, hvalid⟩, heq⟩ := h
      cases heq
      exact ⟨hvalid, (parseUnsigned_eq_some hy).1⟩
    · cases h
  · cases h

theorem parse_inRange {value : List Char} {date : HeaderDateTime}
    (h : HeaderDateTime.parse value = some date) : date.InRange := by
  rw [HeaderDateTime.parse] at h
  rcases Option.or_eq_some_iff.mp h with hlegacy | ⟨_, h⟩
  · exact parseLegacyDateTime_inRange hlegacy
  rcases Option.or_eq_some_iff.mp h with hiso | ⟨_, h⟩
  · exact (parseIso8601DateTime_eq_some hiso).1
  rcases Option.or_eq_some_iff.mp h with hunix | ⟨_, hctime⟩
  · exact parseUnixTimestampDateTime_inRange hunix
  · exact parseCtimeDateTime_inRange hctime

/-! ## Texts that a reader does not take -/

theorem parseLegacyDateTime_of_words {value : List Char}
    (h : (splitWhitespace value).length ≠ 6) : parseLegacyDateTime value = none := by
  unfold parseLegacyDateTime
  split
  · rename_i hwords
    rw [hwords] at h
    exact absurd rfl h
  · rfl

theorem parseCtimeDateTime_of_words {value : List Char} (h : (splitWhitespace value).length < 5) :
    parseCtimeDateTime value = none := by
  unfold parseCtimeDateTime
  split
  · rename_i hwords
    rw [hwords] at h
    simp only [List.length_cons] at h
    omega
  · rfl

theorem mem_of_mem_stripSuffixZ {value : List Char} {c : Char} (h : c ∈ stripSuffixZ value) :
    c ∈ value := by
  unfold stripSuffixZ at h
  split at h
  · exact (List.dropLast_sublist value).subset h
  · exact h

/-- An ISO 8601 text has a `T` and a dash. -/
theorem parseIso8601DateTime_eq_none {value : List Char} (h : 'T' ∉ value ∨ '-' ∉ value) :
    parseIso8601DateTime value = none := by
  cases hsplit : splitOnce ['T'] (stripSuffixZ value) with
  | none => simp only [parseIso8601DateTime, hsplit, Option.bind_eq_bind, Option.bind_none]
  | some parts =>
    obtain ⟨date, time⟩ := parts
    have hwhole := eq_of_splitOnce hsplit
    have hdash : '-' ∉ date := by
      intro hmem
      have hdate : '-' ∈ value := mem_of_mem_stripSuffixZ (by rw [hwhole]; simp [hmem])
      have htee : 'T' ∈ value := mem_of_mem_stripSuffixZ (by rw [hwhole]; simp)
      rcases h with hno | hno
      · exact hno htee
      · exact hno hdate
    simp only [parseIso8601DateTime, hsplit, Option.bind_eq_bind, Option.bind_some,
      List.splitOn_eq_singleton hdash]

theorem parseUnixTimestampDateTime_eq_none {value : List Char} {c : Char} (hmem : c ∈ value)
    (hc : c.isDigit = false) : parseUnixTimestampDateTime value = none := by
  refine if_neg ?_
  intro hall
  rw [List.all_eq_true.mp hall c hmem] at hc
  cases hc

/-! ## The EWF1 header -/

theorem splitWhitespace_formatEwf1Header (date : HeaderDateTime) :
    splitWhitespace date.formatEwf1Header = [digits date.year, digits date.month, digits date.day,
      digits date.hour, digits date.minute, digits date.second] := by
  simp only [HeaderDateTime.formatEwf1Header, digits, List.append_assoc, List.cons_append,
    splitWhitespace_padded_append, splitWhitespace_padded]

theorem parse_formatEwf1Header {date : HeaderDateTime} (h : date.InRange) :
    HeaderDateTime.parse date.formatEwf1Header = some date := by
  have hlegacy : parseLegacyDateTime date.formatEwf1Header = some date := by
    rw [parseLegacyDateTime, splitWhitespace_formatEwf1Header]
    exact parseFields_padded h fun _ => 0
  rw [HeaderDateTime.parse, hlegacy, Option.some_or]

theorem mem_formatEwf1Header {date : HeaderDateTime} {c : Char} (h : c ∈ date.formatEwf1Header) :
    c.isDigit = true ∨ c = ' ' := by
  simp only [HeaderDateTime.formatEwf1Header, digits, List.mem_append, List.mem_cons] at h
  rcases h with ((((h | h | h) | h | h) | h | h) | h | h) | h | h <;>
    first
    | exact .inl (isDigit_of_mem_padded h)
    | exact .inr h

/-! ## The form of `ctime` -/

theorem weekdayName_mem (date : HeaderDateTime) :
    weekdayName date.year date.month date.day ∈ weekdayNames := by
  have hall : ∀ index < 7, weekdayNames.getD index [] ∈ weekdayNames := by decide
  exact hall _ (Nat.mod_lt _ (by decide))

theorem monthName_mem {month : Nat} (h : 1 ≤ month ∧ month ≤ 12) :
    monthName month ∈ monthNames ∧ parseMonthName (monthName month) = some month := by
  have hall : ∀ month < 13, 1 ≤ month →
      monthName month ∈ monthNames ∧ parseMonthName (monthName month) = some month := by
    decide
  exact hall month (Nat.lt_succ_of_le h.2) h.1

theorem name_letters {name : List Char} (h : name ∈ weekdayNames ∨ name ∈ monthNames) :
    name ≠ [] ∧ ∀ c ∈ name, c.isAlpha = true ∧ isWhitespace c = false := by
  have hall : ∀ name ∈ weekdayNames ++ monthNames,
      name ≠ [] ∧ (name.all fun c => c.isAlpha = true ∧ isWhitespace c = false) = true := by
    decide
  obtain ⟨hne, hletters⟩ := hall name (List.mem_append.mpr h)
  exact ⟨hne, fun c hc => of_decide_eq_true (List.all_eq_true.mp hletters c hc)⟩

/-- The time of day of a date. -/
def timeText (date : HeaderDateTime) : List Char :=
  padded 2 date.hour ++ ':' :: padded 2 date.minute ++ ':' :: padded 2 date.second

theorem mem_timeText {date : HeaderDateTime} {c : Char} (h : c ∈ timeText date) :
    c.isDigit = true ∨ c = ':' := by
  simp only [timeText, List.mem_append, List.mem_cons] at h
  rcases h with (h | h | h) | h | h <;>
    first
    | exact .inl (isDigit_of_mem_padded h)
    | exact .inr h

theorem splitOn_timeText (date : HeaderDateTime) :
    (timeText date).splitOn ':' = [padded 2 date.hour, padded 2 date.minute,
      padded 2 date.second] := by
  have hnot : ∀ n, ':' ∉ padded 2 n := fun n => not_mem_padded (by decide)
  rw [timeText, List.append_assoc, List.cons_append,
    List.splitOn_append_cons_self_of_not_mem (hnot _),
    List.splitOn_append_cons_self_of_not_mem (hnot _), List.splitOn_eq_singleton (hnot _)]

theorem splitWhitespace_formatCtime {date : HeaderDateTime} (h : date.InRange) :
    splitWhitespace date.formatCtime = [weekdayName date.year date.month date.day,
      monthName date.month, digits date.day, timeText date, padded 4 date.year] := by
  obtain ⟨_, hmonth, _⟩ := HeaderDateTime.validate_iff.mp h.1
  obtain ⟨hweekdayNe, hweekday⟩ := name_letters (.inl (weekdayName_mem date))
  obtain ⟨hmonthNe, hmonthLetters⟩ := name_letters (.inr (monthName_mem hmonth).1)
  have htimeNe : timeText date ≠ [] := by
    rw [timeText]
    simp
  have htime : ∀ c ∈ timeText date, isWhitespace c = false := by
    intro c hc
    rcases mem_timeText hc with hdigit | rfl
    · exact isWhitespace_of_isDigit hdigit
    · rfl
  have htext : date.formatCtime = weekdayName date.year date.month date.day ++ ' ' ::
      (monthName date.month ++ ' ' :: (List.replicate (2 - (digits date.day).length) ' ' ++
        (padded 0 date.day ++ ' ' :: (timeText date ++ ' ' :: padded 4 date.year)))) := by
    simp [HeaderDateTime.formatCtime, timeText, digits]
  rw [htext, splitWhitespace_append _ hweekdayNe (fun c hc => (hweekday c hc).2) rfl,
    splitWhitespace_append _ hmonthNe (fun c hc => (hmonthLetters c hc).2) rfl,
    splitWhitespace_replicate _ _ rfl, splitWhitespace_padded_append,
    splitWhitespace_append _ htimeNe htime rfl, splitWhitespace_padded]
  rfl

/-- The characters of the form of `ctime`. -/
def isCtimeChar (c : Char) : Bool := c.isAlphanum || c = ' ' || c = ':'

theorem mem_formatCtime {date : HeaderDateTime} (h : date.InRange) :
    ∀ c ∈ date.formatCtime, isCtimeChar c = true := by
  obtain ⟨_, hmonth, _⟩ := HeaderDateTime.validate_iff.mp h.1
  have hletter : ∀ name, name ∈ weekdayNames ∨ name ∈ monthNames →
      ∀ c ∈ name, isCtimeChar c = true := by
    intro name hname c hc
    simp [isCtimeChar, Char.isAlphanum, ((name_letters hname).2 c hc).1]
  have hdigit : ∀ width n, ∀ c ∈ padded width n, isCtimeChar c = true := by
    intro width n c hmem
    simp [isCtimeChar, Char.isAlphanum, isDigit_of_mem_padded hmem]
  have hspaces : ∀ count, ∀ c ∈ List.replicate count ' ', isCtimeChar c = true := by
    intro count c hmem
    rw [(List.mem_replicate.mp hmem).2]
    rfl
  simp only [HeaderDateTime.formatCtime, digits, List.forall_mem_append, List.forall_mem_cons]
  exact ⟨⟨⟨⟨hletter _ (.inl (weekdayName_mem date)), rfl, hletter _ (.inr (monthName_mem hmonth).1)⟩,
    rfl, hspaces _, hdigit _ _⟩, rfl, ⟨hdigit _ _, rfl, hdigit _ _⟩, rfl, hdigit _ _⟩, rfl,
    hdigit _ _⟩

theorem parse_formatCtime {date : HeaderDateTime} (h : date.InRange) :
    HeaderDateTime.parse date.formatCtime = some date := by
  have hwords := splitWhitespace_formatCtime h
  obtain ⟨hyear, _, hday, hhour, hminute, hsecond⟩ := h.bounds
  obtain ⟨_, hmonth, _⟩ := HeaderDateTime.validate_iff.mp h.1
  have hlegacy : parseLegacyDateTime date.formatCtime = none :=
    parseLegacyDateTime_of_words (by rw [hwords]; simp)
  have hiso : parseIso8601DateTime date.formatCtime = none := by
    refine parseIso8601DateTime_eq_none (.inr ?_)
    intro hmem
    exact absurd (mem_formatCtime h _ hmem) (by decide)
  have hunix : parseUnixTimestampDateTime date.formatCtime = none := by
    have hspace : ' ' ∈ date.formatCtime := by
      rw [HeaderDateTime.formatCtime]
      simp
    exact parseUnixTimestampDateTime_eq_none hspace (by decide)
  have hctime : parseCtimeDateTime date.formatCtime = some date := by
    have hweekday : isWeekdayName (weekdayName date.year date.month date.day) = true := by
      rw [isWeekdayName, decide_eq_true_eq]
      exact weekdayName_mem date
    rw [parseCtimeDateTime, hwords]
    simp only [hweekday, if_true, (monthName_mem hmonth).2, digits, parseU8, parseU16,
      parseUnsigned_padded _ hday, parseUnsigned_padded _ hyear, parseUnsigned_padded _ hhour,
      parseUnsigned_padded _ hminute, parseUnsigned_padded _ hsecond, splitOn_timeText,
      Option.bind_eq_bind, Option.bind_some]
    exact if_pos ⟨Nat.zero_le _, h.1⟩
  rw [HeaderDateTime.parse, hlegacy, hiso, hunix, hctime]
  rfl

/-! ## Seconds -/

/-- A number of seconds is read back exactly when it belongs to a date that can be found. -/
theorem parse_signedDigits (timestamp : Int) :
    HeaderDateTime.parse (signedDigits timestamp) =
      if timestamp < 2 ^ 63 then HeaderDateTime.fromUnixTimestamp timestamp else none := by
  have hwords : ∃ word, splitWhitespace (signedDigits timestamp) = [word] := by
    rw [signedDigits]
    split
    · refine ⟨_, splitWhitespace_word (List.cons_ne_nil _ _) ?_⟩
      intro c hc
      rcases List.mem_cons.mp hc with rfl | hc
      · rfl
      · exact isWhitespace_of_mem_padded hc
    · exact ⟨_, splitWhitespace_padded 0 _⟩
  obtain ⟨word, hwords⟩ := hwords
  have hlegacy : parseLegacyDateTime (signedDigits timestamp) = none :=
    parseLegacyDateTime_of_words (by rw [hwords]; simp)
  have hctime : parseCtimeDateTime (signedDigits timestamp) = none :=
    parseCtimeDateTime_of_words (by rw [hwords]; simp)
  have hiso : parseIso8601DateTime (signedDigits timestamp) = none := by
    refine parseIso8601DateTime_eq_none (.inl ?_)
    rw [signedDigits]
    split
    · intro hmem
      rcases List.mem_cons.mp hmem with heq | hmem
      · exact absurd heq (by decide)
      · exact not_mem_padded (by decide) hmem
    · exact not_mem_padded (by decide)
  rw [HeaderDateTime.parse, hlegacy, hiso, hctime, Option.none_or, Option.none_or, Option.or_none]
  by_cases hneg : timestamp < 0
  · have hdash : '-' ∈ signedDigits timestamp := by
      rw [signedDigits, if_pos hneg]
      exact List.mem_cons_self
    rw [parseUnixTimestampDateTime_eq_none hdash (by decide),
      HeaderDateTime.fromUnixTimestamp_eq_none (.inl hneg), ite_self]
  · obtain ⟨seconds, rfl⟩ := Int.eq_ofNat_of_zero_le (Int.not_lt.mp hneg)
    have hall : (digits seconds).all Char.isDigit = true :=
      List.all_eq_true.mpr fun c hc => isDigit_of_mem_padded hc
    rw [signedDigits, if_neg hneg, Int.natAbs_natCast, parseUnixTimestampDateTime, if_pos hall]
    by_cases hlimit : seconds < 2 ^ 63
    · rw [digits, parseUnsigned_padded 0 hlimit, Option.bind_some, if_pos (by omega)]
    · have hnone : parseUnsigned (2 ^ 63) (digits seconds) = none := by
        refine if_neg ?_
        rintro ⟨_, _, hlt⟩
        rw [digits, withoutPlus_of_digits fun c hc => isDigit_of_mem_padded hc,
          ofDigitChars_padded] at hlt
        exact hlimit hlt
      rw [hnone, Option.bind_none, if_neg (by omega)]

/-! ## Headers -/

/-- A text without tabs and line breaks is not changed. -/
theorem sanitizeHeaderValue_eq {value : List Char}
    (h : ∀ c ∈ value, ¬ (c = '\t' ∨ c = '\n' ∨ c = '\r')) : sanitizeHeaderValue value = value := by
  have hmap : sanitizeHeaderValue value = value.map id :=
    List.map_congr_left fun c hc => if_neg (h c hc)
  rw [hmap, List.map_id]

/-- Tabs and line breaks become blanks, so that the words stay. -/
theorem splitWhitespace_sanitizeHeaderValue (value : List Char) :
    splitWhitespace (sanitizeHeaderValue value) = splitWhitespace value := by
  refine splitWhitespace_map ?_ ?_ value
  · intro c
    split
    · rename_i hc
      rcases hc with rfl | rfl | rfl <;> rfl
    · rfl
  · intro c hc
    refine if_neg ?_
    rintro (rfl | rfl | rfl) <;> cases hc

/-- The case data keep the date of the text. -/
theorem parse_sanitizeHeaderValue {value : List Char} {date : HeaderDateTime}
    (h : HeaderDateTime.parse value = some date) :
    HeaderDateTime.parse (sanitizeHeaderValue value) = some date := by
  by_cases hplain : ∀ c ∈ value, ¬ (c = '\t' ∨ c = '\n' ∨ c = '\r')
  · rw [sanitizeHeaderValue_eq hplain]
    exact h
  · -- Only the readers of words take a text with such a character.
    have hother : ∀ {text : List Char} {c : Char}, c ∈ text → c.isDigit = false →
        c ∉ ['+', '-', ':', 'T', 'Z'] → HeaderDateTime.parse text =
          (parseLegacyDateTime text).or (parseCtimeDateTime text) := by
      intro text c hmem hdigit hsep
      have hiso : parseIso8601DateTime text = none := by
        cases hfound : parseIso8601DateTime text with
        | none => rfl
        | some found =>
          rcases (parseIso8601DateTime_eq_some hfound).2 c hmem with hc | hc
          · rw [hdigit] at hc
            cases hc
          · exact absurd hc hsep
      rw [HeaderDateTime.parse, hiso, parseUnixTimestampDateTime_eq_none hmem hdigit,
        Option.none_or, Option.none_or]
    have hbreak : ∃ c ∈ value, c = '\t' ∨ c = '\n' ∨ c = '\r' := by
      by_contra hnone
      exact hplain fun c hc hbreak => hnone ⟨c, hc, hbreak⟩
    obtain ⟨c, hc, hbreak⟩ := hbreak
    have hblank : ' ' ∈ sanitizeHeaderValue value :=
      List.mem_map.mpr ⟨c, hc, if_pos hbreak⟩
    have hdigit : c.isDigit = false ∧ c ∉ ['+', '-', ':', 'T', 'Z'] := by
      rcases hbreak with rfl | rfl | rfl <;> decide
    rw [hother hc hdigit.1 hdigit.2] at h
    rw [hother hblank (by decide) (by decide), parseLegacyDateTime, parseCtimeDateTime,
      splitWhitespace_sanitizeHeaderValue]
    exact h

theorem trim_formatCtime (date : HeaderDateTime) :
    trim date.formatCtime = date.formatCtime := by
  obtain ⟨hne, hletters⟩ := name_letters (.inl (weekdayName_mem date))
  obtain ⟨first, rest, hname⟩ := List.exists_cons_of_ne_nil hne
  obtain ⟨front, last, hyear⟩ : ∃ front last, padded 4 date.year = front ++ [last] :=
    ⟨_, _, (List.dropLast_append_getLast (padded_ne_nil 4 date.year)).symm⟩
  have hfirst : isWhitespace first = false := (hletters first (by rw [hname]; simp)).2
  have hlast : isWhitespace last = false :=
    @isWhitespace_of_mem_padded 4 date.year last (by rw [hyear]; simp)
  refine trim_eq_self hfirst hlast ?_ ?_
  · simp [HeaderDateTime.formatCtime, hname]
  · rw [HeaderDateTime.formatCtime, hyear, List.getLast?_append, ← List.cons_append,
      List.getLast?_concat, Option.some_or]

theorem escapeXmlText_eq {value : List Char} (h : ∀ c ∈ value, isCtimeChar c = true) :
    escapeXmlText value = value := by
  have hchar : ∀ c ∈ value, escapeXmlChar c = [c] := by
    intro c hc
    have hne : ∀ special, isCtimeChar special = false → c ≠ special := by
      rintro _ hspecial rfl
      rw [h c hc] at hspecial
      cases hspecial
    rw [escapeXmlChar, if_neg (hne _ (by decide)), if_neg (hne _ (by decide)),
      if_neg (hne _ (by decide)), if_neg (hne _ (by decide)), if_neg (hne _ (by decide))]
  rw [escapeXmlText]
  clear h
  induction value with
  | nil => rfl
  | cons c value ih =>
    rw [List.flatMap_cons, hchar c List.mem_cons_self,
      ih fun c hc => hchar c (List.mem_cons_of_mem _ hc)]
    rfl

theorem decodeXmlEntities_eq {value : List Char} (h : '&' ∉ value) :
    decodeXmlEntities value = value := by
  rw [decodeXmlEntities]
  cases value.length with
  | zero => rfl
  | succ fuel =>
    rw [decodeXmlEntitiesFrom, splitOnce_eq_none h]

/-- The XML header gives back the form of `ctime`. -/
theorem read_write_xheader {value : List Char} {date : HeaderDateTime}
    (h : HeaderDateTime.parse value = some date) :
    HeaderForm.xheader.read (HeaderForm.xheader.write value) = date.formatCtime := by
  have hrange := parse_inRange h
  have hchars := mem_formatCtime hrange
  have hformat : formatXheaderDateValue value = date.formatCtime := by
    rw [formatXheaderDateValue, h]
    rfl
  have hplain : '&' ∉ date.formatCtime := fun hmem => absurd (hchars _ hmem) (by decide)
  rw [HeaderForm.write, HeaderForm.read, hformat, escapeXmlText_eq hchars, trim_formatCtime,
    decodeXmlEntities_eq hplain]

/-- The EWF1 header gives back its numbers. -/
theorem read_write_ewf1Header {value : List Char} {date : HeaderDateTime}
    (h : HeaderDateTime.parse value = some date) :
    HeaderForm.ewf1Header.read (HeaderForm.ewf1Header.write value) = date.formatEwf1Header := by
  have hformat : formatEwf1HeaderDateValue value = date.formatEwf1Header := by
    rw [formatEwf1HeaderDateValue, h]
    rfl
  rw [HeaderForm.write, HeaderForm.read, hformat]
  · refine sanitizeHeaderValue_eq fun c hc => ?_
    rcases mem_formatEwf1Header hc with hdigit | rfl
    · rintro (rfl | rfl | rfl) <;> cases hdigit
    · decide
  · exact fun heq => (by cases heq)

/-- The EWF1 `header2` gives back the seconds. -/
theorem read_write_ewf1Header2 {value : List Char} {date : HeaderDateTime}
    (h : HeaderDateTime.parse value = some date) :
    HeaderForm.ewf1Header2.read (HeaderForm.ewf1Header2.write value) =
      signedDigits date.unixTimestamp := by
  have hformat : formatEwf1Header2DateValue value = signedDigits date.unixTimestamp := by
    rw [formatEwf1Header2DateValue, h]
    rfl
  rw [HeaderForm.write, HeaderForm.read, hformat]
  · refine sanitizeHeaderValue_eq fun c hc => ?_
    have hchar : c.isDigit = true ∨ c = '-' := by
      rw [signedDigits] at hc
      split at hc
      · exact (List.mem_cons.mp hc).symm.imp_left isDigit_of_mem_padded
      · exact .inl (isDigit_of_mem_padded hc)
    rcases hchar with hdigit | rfl
    · rintro (rfl | rfl | rfl) <;> cases hdigit
    · decide
  · exact fun heq => (by cases heq)

/-- The seconds of a date are read back exactly when they are in range. -/
theorem header2_roundTrip_iff {date : HeaderDateTime} (h : date.InRange) :
    (∃ date', HeaderDateTime.parse (signedDigits date.unixTimestamp) = some date' ∧
      date'.unixTimestamp = date.unixTimestamp) ↔
    (1970 ≤ date.year ∨ date = HeaderDateTime.lastSecond 1969) ∧
      date ≠ HeaderDateTime.lastSecond 65535 := by
  rw [← HeaderDateTime.timestamp_nonneg_iff h.1, ← HeaderDateTime.timestamp_lt_iff h.1 h.2,
    parse_signedDigits]
  have hsmall : HeaderDateTime.timestampLimit < 2 ^ 63 := by decide
  constructor
  · rintro ⟨date', hfound, _⟩
    by_contra hout
    have hnone : HeaderDateTime.fromUnixTimestamp date.unixTimestamp = none := by
      refine HeaderDateTime.fromUnixTimestamp_eq_none ?_
      rw [not_and_or, Int.not_le, Int.not_lt] at hout
      exact hout
    rw [hnone, ite_self] at hfound
    cases hfound
  · rintro ⟨hpos, hlimit⟩
    obtain ⟨date', hfound, hsame, _⟩ := HeaderDateTime.fromUnixTimestamp_eq_some hpos hlimit
    rw [if_pos (by omega)]
    exact ⟨date', hfound, hsame⟩

/-- The date of a text goes through every header exactly when it has seconds that the `header2` can
give back: it is not in front of 1970, but for the leap second directly in front of it, and not
the leap second behind the last year. -/
theorem headerDate_roundTrip_iff {value : List Char} {date : HeaderDateTime}
    (h : HeaderDateTime.parse value = some date) :
    (∀ form : HeaderForm, ∃ date', HeaderDateTime.parse (form.read (form.write value)) = some date' ∧
      date'.unixTimestamp = date.unixTimestamp) ↔
    (1970 ≤ date.year ∨ date = HeaderDateTime.lastSecond 1969) ∧
      date ≠ HeaderDateTime.lastSecond 65535 := by
  have hrange := parse_inRange h
  rw [← header2_roundTrip_iff hrange, ← read_write_ewf1Header2 h]
  constructor
  · intro hall
    exact hall .ewf1Header2
  · intro hheader2 form
    cases form with
    | ewf1Header =>
      rw [read_write_ewf1Header h]
      exact ⟨date, parse_formatEwf1Header hrange, rfl⟩
    | ewf1Header2 => exact hheader2
    | ewf2CaseData => exact ⟨date, parse_sanitizeHeaderValue h, rfl⟩
    | xheader =>
      rw [read_write_xheader h]
      exact ⟨date, parse_formatCtime hrange, rfl⟩

theorem headerDate_roundTrip_leapDay :
    HeaderDateTime.parse "2020-02-29T12:00:00Z".toList = some ⟨2020, 2, 29, 12, 0, 0⟩ ∧
      ∃ date', HeaderDateTime.parse (HeaderForm.ewf1Header2.read
        (HeaderForm.ewf1Header2.write "2020-02-29T12:00:00Z".toList)) = some date' ∧
          date'.unixTimestamp = 1582977600 := by
  have hparse : HeaderDateTime.parse "2020-02-29T12:00:00Z".toList =
      some ⟨2020, 2, 29, 12, 0, 0⟩ := by decide
  refine ⟨hparse, ?_⟩
  exact (headerDate_roundTrip_iff hparse).mpr ⟨.inl (by decide), by decide⟩ .ewf1Header2

/-- A date in front of 1970 is written with a sign that no reader takes. -/
theorem headerDate_negative :
    HeaderDateTime.parse "1960 1 1 0 0 0".toList = some ⟨1960, 1, 1, 0, 0, 0⟩ ∧
      HeaderForm.ewf1Header2.write "1960 1 1 0 0 0".toList = "-315619200".toList ∧
      HeaderDateTime.parse (HeaderForm.ewf1Header2.read "-315619200".toList) = none := by
  decide

end EwfImage
