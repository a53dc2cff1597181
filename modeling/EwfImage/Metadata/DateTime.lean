import EwfImage.Image.StoredHashes
import EwfImage.Lib.Decimal
import EwfImage.Lib.Words

/-!
# Dates in headers

The texts that are read as a date: numbers apart from each other, ISO 8601, seconds since 1970
and the form of `ctime`; and the texts that the writer makes of a date in its headers.

The parser tries the forms in the order of the source, on the trimmed text. A month is one of
twelve, a day is checked against its month and a leap year, and a second may be 60. `HeaderForm`
lists the four places that a date is written to, with the writer and the reader of each.
-/

namespace EwfImage

open Decimal Text

structure HeaderDateTime where
  year : Nat
  month : Nat
  day : Nat
  hour : Nat
  minute : Nat
  second : Nat
  deriving DecidableEq, Repr

/-! ## The calendar -/

def isLeapYear (year : Nat) : Bool := (year % 4 = 0 ∧ year % 100 ≠ 0) ∨ year % 400 = 0

def daysInMonth (year month : Nat) : Nat :=
  if month ∈ [1, 3, 5, 7, 8, 10, 12] then 31
  else if month ∈ [4, 6, 9, 11] then 30
  else if month = 2 then (if isLeapYear year then 29 else 28)
  else 0

def daysInYear (year : Nat) : Nat := if isLeapYear year then 366 else 365

def daysBeforeYear (year : Nat) : Int :=
  let previousYear := (year : Int) - 1
  365 * ((year : Int) - 1970) + previousYear / 4 - previousYear / 100 + previousYear / 400 -
    (1969 / 4 - 1969 / 100 + 1969 / 400)

def daysBeforeMonth (year month : Nat) : Nat :=
  ((List.range' 1 (month - 1)).map (daysInMonth year)).sum

/-- The weekday by Zeller's congruence, from Sunday on. -/
def weekdayIndex (year month day : Nat) : Nat :=
  let (month, year) := if month < 3 then (month + 12, year - 1) else (month, year)
  let century := year / 100
  let yearOfCentury := year % 100
  let h := (day + (13 * (month + 1)) / 5 + yearOfCentury + yearOfCentury / 4 + century / 4 +
    5 * century) % 7
  (h + 6) % 7

def weekdayNames : List (List Char) :=
  ["Sun", "Mon", "Tue", "Wed", "Thu", "Fri", "Sat"].map String.toList

def weekdayName (year month day : Nat) : List Char :=
  weekdayNames.getD (weekdayIndex year month day) []

def isWeekdayName (weekday : List Char) : Bool := weekday ∈ weekdayNames

def monthNames : List (List Char) :=
  ["Jan", "Feb", "Mar", "Apr", "May", "Jun", "Jul", "Aug", "Sep", "Oct", "Nov", "Dec"].map
    String.toList

/-- The name of a month that is counted from 1. -/
def monthName : Nat → List Char
  | 0 => []
  | month + 1 => monthNames.getD month []

def parseMonthName (month : List Char) : Option Nat :=
  if month ∈ monthNames then some (monthNames.idxOf month + 1) else none

namespace HeaderDateTime

def validate (date : HeaderDateTime) : Bool :=
  0 < date.year ∧ (1 ≤ date.month ∧ date.month ≤ 12) ∧ 1 ≤ date.day ∧
    date.day ≤ daysInMonth date.year date.month ∧ date.hour ≤ 23 ∧ date.minute ≤ 59 ∧
    date.second ≤ 60

def unixTimestamp (date : HeaderDateTime) : Int :=
  let days := daysBeforeYear date.year + daysBeforeMonth date.year date.month + (date.day - 1 : Nat)
  days * 86400 + date.hour * 3600 + date.minute * 60 + date.second

/-- The year of a day that is counted from the start of a year, and the days in front of it in its
year; at most so many years further. -/
def yearOfDays : Nat → Nat → Nat → Option (Nat × Nat)
  | 0, _, _ => none
  | years + 1, year, days =>
    if days < daysInYear year then some (year, days)
    else yearOfDays years (year + 1) (days - daysInYear year)

/-- The month of a day of a year, and the days in front of it in its month. -/
def monthOfDays (year : Nat) : Nat → Nat → Nat → Option (Nat × Nat)
  | 0, _, _ => none
  | months + 1, month, days =>
    if days < daysInMonth year month then some (month, days)
    else monthOfDays year months (month + 1) (days - daysInMonth year month)

/-- The year is a `u16` and the month a `u8`. -/
def fromUnixTimestamp (timestamp : Int) : Option HeaderDateTime :=
  if timestamp < 0 then none
  else do
    let secondsOfDay := timestamp.toNat % 86400
    let (year, days) ← yearOfDays (2 ^ 16 - 1970) 1970 (timestamp.toNat / 86400)
    let (month, days) ← monthOfDays year (2 ^ 8 - 1) 1 days
    return {
      year
      month
      day := days + 1
      hour := secondsOfDay / 3600
      minute := secondsOfDay % 3600 / 60
      second := secondsOfDay % 60 }

end HeaderDateTime

/-! ## Reading -/

def parseU8 (text : List Char) : Option Nat := parseUnsigned (2 ^ 8) text

def parseU16 (text : List Char) : Option Nat := parseUnsigned (2 ^ 16) text

/-- A date of six numbers, as long as there is such a date. -/
def parseFields (year month day hour minute second : List Char) : Option HeaderDateTime := do
  let date : HeaderDateTime := {
    year := ← parseU16 year
    month := ← parseU8 month
    day := ← parseU8 day
    hour := ← parseU8 hour
    minute := ← parseU8 minute
    second := ← parseU8 second }
  if date.validate then some date else none

def parseLegacyDateTime (value : List Char) : Option HeaderDateTime :=
  match splitWhitespace value with
  | [year, month, day, hour, minute, second] => parseFields year month day hour minute second
  | _ => none

def stripSuffixZ (value : List Char) : List Char :=
  if value.getLast? = some 'Z' then value.dropLast else value

def parseIso8601DateTime (value : List Char) : Option HeaderDateTime := do
  let (date, time) ← splitOnce ['T'] (stripSuffixZ value)
  match date.splitOn '-', time.splitOn ':' with
  | [year, month, day], [hour, minute, second] => parseFields year month day hour minute second
  | _, _ => none

def parseUnixTimestampDateTime (value : List Char) : Option HeaderDateTime :=
  if value.all Char.isDigit then
    (parseUnsigned (2 ^ 63) value).bind fun timestamp =>
      HeaderDateTime.fromUnixTimestamp timestamp
  else none

/-- At most two words follow the year. -/
def parseCtimeDateTime (value : List Char) : Option HeaderDateTime :=
  match splitWhitespace value with
  | weekday :: month :: day :: time :: year :: rest => do
    let month ← (if isWeekdayName weekday then parseMonthName month else none)
    let day ← parseU8 day
    match time.splitOn ':' with
    | [hour, minute, second] =>
      let date : HeaderDateTime := {
        year := ← parseU16 year
        month
        day
        hour := ← parseU8 hour
        minute := ← parseU8 minute
        second := ← parseU8 second }
      if rest.length ≤ 2 ∧ date.validate then some date else none
    | _ => none
  | _ => none

def HeaderDateTime.parse (value : List Char) : Option HeaderDateTime :=
  (parseLegacyDateTime value).or ((parseIso8601DateTime value).or
    ((parseUnixTimestampDateTime value).or (parseCtimeDateTime value)))

/-! ## Writing -/

namespace HeaderDateTime

/-- The form of `ctime`; the day takes two places. -/
def formatCtime (date : HeaderDateTime) : List Char :=
  weekdayName date.year date.month date.day ++ ' ' :: monthName date.month ++ ' ' ::
    (List.replicate (2 - (digits date.day).length) ' ' ++ digits date.day) ++ ' ' ::
    (padded 2 date.hour ++ ':' :: padded 2 date.minute ++ ':' :: padded 2 date.second) ++ ' ' ::
    padded 4 date.year

def formatEwf1Header (date : HeaderDateTime) : List Char :=
  digits date.year ++ ' ' :: digits date.month ++ ' ' :: digits date.day ++ ' ' ::
    digits date.hour ++ ' ' :: digits date.minute ++ ' ' :: digits date.second

end HeaderDateTime

/-- The digits of a number, with a sign in front of a negative one. -/
def signedDigits (n : Int) : List Char :=
  if n < 0 then '-' :: digits n.natAbs else digits n.natAbs

def formatEwf1HeaderDateValue (value : List Char) : List Char :=
  (HeaderDateTime.parse value).elim value HeaderDateTime.formatEwf1Header

def formatEwf1Header2DateValue (value : List Char) : List Char :=
  (HeaderDateTime.parse value).elim value fun date => signedDigits date.unixTimestamp

def formatXheaderDateValue (value : List Char) : List Char :=
  (HeaderDateTime.parse value).elim value HeaderDateTime.formatCtime

def sanitizeHeaderValue (value : List Char) : List Char :=
  value.map fun c => if c = '\t' ∨ c = '\n' ∨ c = '\r' then ' ' else c

def escapeXmlChar (c : Char) : List Char :=
  if c = '&' then "&amp;".toList
  else if c = '<' then "&lt;".toList
  else if c = '>' then "&gt;".toList
  else if c = '"' then "&quot;".toList
  else if c = '\'' then "&apos;".toList
  else [c]

def escapeXmlText (value : List Char) : List Char := value.flatMap escapeXmlChar

/-- The headers that the writer puts a date into. -/
inductive HeaderForm
  | ewf1Header
  | ewf1Header2
  | ewf2CaseData
  | xheader
  deriving DecidableEq

/-- The text of the field of a date in a header. The case data keep the text that they are given. -/
def HeaderForm.write : HeaderForm → List Char → List Char
  | ewf1Header, value => sanitizeHeaderValue (formatEwf1HeaderDateValue value)
  | ewf1Header2, value => sanitizeHeaderValue (formatEwf1Header2DateValue value)
  | ewf2CaseData, value => sanitizeHeaderValue value
  | xheader, value => escapeXmlText (formatXheaderDateValue value)

/-- The value that a reader takes from the text of a field. -/
def HeaderForm.read : HeaderForm → List Char → List Char
  | xheader, text => decodeXmlEntities (trim text)
  | _, text => text

example : (HeaderDateTime.parse "Sat Feb 29 23:59:60 2020".toList).map HeaderDateTime.formatCtime =
    some "Sat Feb 29 23:59:60 2020".toList := by decide

end EwfImage
