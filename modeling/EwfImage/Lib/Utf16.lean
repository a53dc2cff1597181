import EwfImage.Lib.LittleEndian
import Mathlib.Data.List.Basic

/-!
# UTF-16

Texts as 16-bit units with surrogate pairs, and units as bytes in little-endian order. A text is
decoded from its units (`decode_encode`), and units from their bytes (`ofBytes_toBytes`).

A unit without its partner does not decode, and an odd number of bytes leaves the last one out,
as in the program. Every character of a text has one encoding, so the two round trips have no
side condition on the text.
-/

namespace Utf16

open LittleEndian

/-- The units of a character. -/
def encodeChar (c : Char) : List UInt16 :=
  if c.toNat < 0x10000 then [UInt16.ofNat c.toNat]
  else
    let scalar := c.toNat - 0x10000
    [UInt16.ofNat (0xD800 + scalar / 0x400), UInt16.ofNat (0xDC00 + scalar % 0x400)]

def encode (text : List Char) : List UInt16 := text.flatMap encodeChar

/-- The text of units, if every surrogate among them is one of a pair. -/
def decode : List UInt16 → Option (List Char)
  | [] => some []
  | unit :: units =>
    if unit.toNat < 0xD800 ∨ 0xDFFF < unit.toNat then
      (decode units).map (Char.ofNat unit.toNat :: ·)
    else match units with
      | [] => none
      | low :: units =>
        if unit.toNat ≤ 0xDBFF ∧ 0xDC00 ≤ low.toNat ∧ low.toNat ≤ 0xDFFF then
          (decode units).map
            (Char.ofNat (0x10000 + (unit.toNat - 0xD800) * 0x400 + (low.toNat - 0xDC00)) :: ·)
        else none

theorem decode_cons_of_lt {unit : UInt16} (units : List UInt16)
    (h : unit.toNat < 0xD800 ∨ 0xDFFF < unit.toNat) :
    decode (unit :: units) = (decode units).map (Char.ofNat unit.toNat :: ·) := by
  rw [decode.eq_def]
  simp only [if_pos h]

theorem decode_cons_cons {high low : UInt16} (units : List UInt16)
    (hhigh : 0xD800 ≤ high.toNat ∧ high.toNat ≤ 0xDBFF)
    (hlow : 0xDC00 ≤ low.toNat ∧ low.toNat ≤ 0xDFFF) :
    decode (high :: low :: units) = (decode units).map
      (Char.ofNat (0x10000 + (high.toNat - 0xD800) * 0x400 + (low.toNat - 0xDC00)) :: ·) := by
  have hsurrogate : ¬ (high.toNat < 0xD800 ∨ 0xDFFF < high.toNat) := by omega
  rw [decode.eq_def]
  simp only [if_neg hsurrogate, if_pos (And.intro hhigh.2 hlow)]

/-- A character is no surrogate. -/
theorem toNat_range (c : Char) :
    c.toNat < 0xD800 ∨ 0xDFFF < c.toNat ∧ c.toNat < 0x110000 := by
  rcases c.valid with hlow | ⟨hgt, hlt⟩
  · exact .inl hlow
  · exact .inr ⟨hgt, hlt⟩

theorem decode_encodeChar (c : Char) (units : List UInt16) :
    decode (encodeChar c ++ units) = (decode units).map (c :: ·) := by
  have hrange := toNat_range c
  unfold encodeChar
  by_cases hc : c.toNat < 0x10000
  · have hunit : (UInt16.ofNat c.toNat).toNat = c.toNat := UInt16.toNat_ofNat_of_lt' hc
    rw [if_pos hc, List.singleton_append, decode_cons_of_lt _ (by omega), hunit, Char.ofNat_toNat]
  · have hhigh : (UInt16.ofNat (0xD800 + (c.toNat - 0x10000) / 0x400)).toNat =
        0xD800 + (c.toNat - 0x10000) / 0x400 :=
      UInt16.toNat_ofNat_of_lt' (show _ < 65536 by omega)
    have hlow : (UInt16.ofNat (0xDC00 + (c.toNat - 0x10000) % 0x400)).toNat =
        0xDC00 + (c.toNat - 0x10000) % 0x400 :=
      UInt16.toNat_ofNat_of_lt' (show _ < 65536 by omega)
    have hscalar : 0x10000 + (0xD800 + (c.toNat - 0x10000) / 0x400 - 0xD800) * 0x400 +
        (0xDC00 + (c.toNat - 0x10000) % 0x400 - 0xDC00) = c.toNat := by
      omega
    rw [if_neg hc]
    simp only [List.cons_append, List.nil_append]
    rw [decode_cons_cons _ (by omega) (by omega), hhigh, hlow, hscalar, Char.ofNat_toNat]

theorem decode_encode (text : List Char) : decode (encode text) = some text := by
  induction text with
  | nil => rfl
  | cons c text ih =>
    have h := decode_encodeChar c (encode text)
    rw [ih] at h
    exact h

example : decode (encode "aä€😀".toList) = some "aä€😀".toList ∧
    decode [0x61, 0xD83D] = none ∧ decode [0xDE00] = none := by
  decide +kernel

/-- A change of characters of the basic plane into such characters keeps the number of units. -/
theorem length_encode_map {f : Char → Char}
    (hf : ∀ c, (encodeChar (f c)).length = (encodeChar c).length) (text : List Char) :
    (encode (text.map f)).length = (encode text).length := by
  induction text with
  | nil => rfl
  | cons c text ih =>
    simp only [encode] at ih ⊢
    rw [List.map_cons, List.flatMap_cons, List.flatMap_cons, List.length_append,
      List.length_append, ih, hf]

theorem encode_append (text rest : List Char) :
    encode (text ++ rest) = encode text ++ encode rest := List.flatMap_append

/-! ## Bytes -/

def toBytes (units : List UInt16) : List UInt8 := units.flatMap fun unit => toLE 2 unit.toNat

/-- The units of pairs of bytes. -/
def ofBytes : List UInt8 → List UInt16
  | low :: high :: bytes => UInt16.ofNat (fromLE [low, high]) :: ofBytes bytes
  | _ => []

theorem length_toBytes (units : List UInt16) : (toBytes units).length = 2 * units.length := by
  induction units with
  | nil => rfl
  | cons unit units ih =>
    simp only [toBytes] at ih ⊢
    rw [List.flatMap_cons, List.length_append, ih, List.length_cons, length_toLE]
    omega

theorem ofBytes_toBytes (units : List UInt16) : ofBytes (toBytes units) = units := by
  induction units with
  | nil => rfl
  | cons unit units ih =>
    have hunit : fromLE (toLE 2 unit.toNat) = unit.toNat := fromLE_toLE_of_lt unit.toNat_lt
    have hbytes : toBytes (unit :: units) = toLE 2 unit.toNat ++ toBytes units := rfl
    rw [hbytes]
    simp only [toLE, List.cons_append, List.nil_append, ofBytes] at hunit ⊢
    rw [hunit, ih, UInt16.ofNat_toNat]

theorem toBytes_append (units rest : List UInt16) :
    toBytes (units ++ rest) = toBytes units ++ toBytes rest := List.flatMap_append

end Utf16
