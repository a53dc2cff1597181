import Mathlib.Data.Nat.Notation

/-!
# Decimal numbers

Unsigned numbers as texts: the digits of a number, filled up with zeros to a width, and the
number that a text is parsed as. A number below the limit of its type is parsed back from its
digits (`parseUnsigned_padded`).

The width is a minimum, as in a format string, and the parser takes a sign and leading zeros, as
that of the standard library does. What is in the texts is stated by `isDigit_of_mem_padded`,
for those who have to know that a number holds no separator.
-/

namespace Decimal

/-- The digits of a number, with zeros in front up to a width. -/
def padded (width n : Nat) : List Char :=
  List.replicate (width - (Nat.toDigits 10 n).length) '0' ++ Nat.toDigits 10 n

/-- The digits of a number. -/
def digits (n : Nat) : List Char := padded 0 n

/-- A text without the sign in front of it. -/
def withoutPlus : List Char → List Char
  | '+' :: rest => rest
  | text => text

/-- `str::parse` of an unsigned integer type with values below a limit. -/
def parseUnsigned (limit : Nat) (text : List Char) : Option Nat :=
  let number := withoutPlus text
  if number ≠ [] ∧ number.all Char.isDigit ∧ Nat.ofDigitChars 10 number 0 < limit then
    some (Nat.ofDigitChars 10 number 0)
  else none

theorem withoutPlus_of_digits {text : List Char} (h : ∀ c ∈ text, c.isDigit = true) :
    withoutPlus text = text := by
  unfold withoutPlus
  split
  · exact absurd (h '+' List.mem_cons_self) (by decide)
  · rfl

theorem mem_withoutPlus {text : List Char} {c : Char} (h : c ∈ text) :
    c ∈ withoutPlus text ∨ c = '+' := by
  unfold withoutPlus
  split
  · exact (List.mem_cons.mp h).symm
  · exact .inl h

theorem isDigit_of_mem_padded {width n : Nat} {c : Char} (h : c ∈ padded width n) :
    c.isDigit = true := by
  rcases List.mem_append.mp h with hzero | hdigit
  · rw [(List.mem_replicate.mp hzero).2]
    decide
  · exact Nat.isDigit_of_mem_toDigits (by decide) (by decide) hdigit

theorem padded_ne_nil (width n : Nat) : padded width n ≠ [] := by
  intro h
  exact Nat.toDigits_ne_nil (List.append_eq_nil_iff.mp h).2

theorem ofDigitChars_padded (width n : Nat) : Nat.ofDigitChars 10 (padded width n) 0 = n := by
  rw [padded, Nat.ofDigitChars_append, Nat.ofDigitChars_replicate_zero, Nat.mul_zero,
    Nat.ofDigitChars_ten_toDigits]

/-- A text of digits is parsed as its value. -/
theorem parseUnsigned_of_digits {limit : Nat} {text : List Char} (hne : text ≠ [])
    (hdigits : ∀ c ∈ text, c.isDigit = true) (hlimit : Nat.ofDigitChars 10 text 0 < limit) :
    parseUnsigned limit text = some (Nat.ofDigitChars 10 text 0) := by
  rw [parseUnsigned, withoutPlus_of_digits hdigits]
  exact if_pos ⟨hne, List.all_eq_true.mpr hdigits, hlimit⟩

theorem parseUnsigned_padded {limit n : Nat} (width : Nat) (h : n < limit) :
    parseUnsigned limit (padded width n) = some n := by
  have hvalue := ofDigitChars_padded width n
  rw [parseUnsigned_of_digits (padded_ne_nil width n) (fun c hc => isDigit_of_mem_padded hc)
    (by omega), hvalue]

/-- What is parsed is below the limit, and the text has no characters but digits and a sign. -/
theorem parseUnsigned_eq_some {limit n : Nat} {text : List Char}
    (h : parseUnsigned limit text = some n) :
    n < limit ∧ ∀ c ∈ text, c.isDigit = true ∨ c = '+' := by
  rw [parseUnsigned, Option.ite_none_right_eq_some] at h
  obtain ⟨⟨_, hall, hlimit⟩, heq⟩ := h
  cases heq
  refine ⟨hlimit, ?_⟩
  intro c hc
  exact (mem_withoutPlus hc).imp_left fun hmem => List.all_eq_true.mp hall c hmem

end Decimal
