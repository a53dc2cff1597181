import EwfImage.Hashes
import EwfImage.Lib.Text

/-!
# Digests as hexadecimal texts

A text is the digest `digest` exactly when its letters, in lower case, are the digits that
`hexString` writes (`parseHexArray_eq_some_iff`).

Letters of either case are read, and so `parseHexArray_congr` says that the case makes no
difference, while `hexString_of_parseHexArray` gives back the text in small letters. A text of
another length or with another character is no digest. The width of the digest is a parameter.
-/

namespace EwfImage

open Text

theorem utf8Bytes_eq (text : String) :
    utf8Bytes text = text.toList.flatMap String.utf8EncodeChar := by
  have h := String.utf8Encode_toList (b := text)
  rw [utf8Bytes, String.toUTF8_eq_toByteArray, ← h, List.utf8Encode]
  simp

/-- The letters of a text in lower case. -/
def lowered (text : String) : List Char := text.toList.map Char.toLower

theorem eqIgnoreAsciiCase_iff {left right : String} :
    eqIgnoreAsciiCase left right = true ↔ lowered left = lowered right := by
  rw [eqIgnoreAsciiCase, beq_iff_eq, lowered, lowered]

/-! ## Single digits -/

theorem toNat_toLower_lt {c : Char} (h : c.toLower.toNat < 128) : c.toNat < 128 := by
  by_contra hc
  have hupper : ¬ (c.val ≥ 'A'.val ∧ c.val ≤ 'Z'.val) := by
    rintro ⟨_, hle⟩
    have hle' : c.toNat ≤ 90 := hle
    omega
  have hsame : c.toLower = c := dif_neg hupper
  rw [hsame] at h
  exact hc h

/-- The digits, and the letters that are one of them in lower case. -/
theorem digit_table :
    (∀ n < 256, 128 ≤ n → hexNibble (UInt8.ofNat n) = none) ∧
      (∀ n < 128, (hexNibble (UInt8.ofNat n)).all
        (fun value => value < 16 ∧ (Char.ofNat n).toLower = hexDigit value) = true) ∧
      (∀ n < 16, (hexDigit (UInt8.ofNat n)).toNat < 128 ∧
        (hexDigit (UInt8.ofNat n)).toLower = hexDigit (UInt8.ofNat n)) ∧
      ∀ m < 128, ∀ n < 16, (Char.ofNat m).toLower = hexDigit (UInt8.ofNat n) →
        hexNibble (UInt8.ofNat m) = some (UInt8.ofNat n) := by
  decide +kernel

theorem hexNibble_lt {byte value : UInt8} (h : hexNibble byte = some value) : byte < 128 := by
  obtain ⟨hall, _⟩ := digit_table
  rw [UInt8.lt_iff_toNat_lt]
  by_contra hbyte
  have hnone := hall byte.toNat byte.toNat_lt (Nat.le_of_not_lt hbyte)
  rw [UInt8.ofNat_toNat, h] at hnone
  cases hnone

theorem hexNibble_eq_some {c : Char} (hc : c.toNat < 128) {value : UInt8}
    (h : hexNibble (UInt8.ofNat c.toNat) = some value) :
    value < 16 ∧ c.toLower = hexDigit value := by
  obtain ⟨_, hall, _⟩ := digit_table
  have hvalue := hall c.toNat hc
  rw [h, Char.ofNat_toNat, Option.all_some] at hvalue
  exact of_decide_eq_true hvalue

theorem hexNibble_of_toLower {c : Char} {n : Nat} (hn : n < 16)
    (h : c.toLower = hexDigit (UInt8.ofNat n)) :
    c.toNat < 128 ∧ hexNibble (UInt8.ofNat c.toNat) = some (UInt8.ofNat n) := by
  obtain ⟨_, _, hdigit, hall⟩ := digit_table
  have hc : c.toNat < 128 := toNat_toLower_lt (by rw [h]; exact (hdigit n hn).1)
  refine ⟨hc, hall c.toNat hc n hn ?_⟩
  rw [Char.ofNat_toNat]
  exact h

/-! ## Pairs of digits -/

/-- The digits of a byte. -/
def hexPair (byte : UInt8) : List Char := [hexDigit (byte >>> 4), hexDigit (byte &&& 0x0f)]

/-- Bytes are put together and taken apart. -/
theorem byte_table :
    (∀ high < 16, ∀ low < 16,
      ((UInt8.ofNat high <<< 4) ||| UInt8.ofNat low) >>> 4 = UInt8.ofNat high ∧
        ((UInt8.ofNat high <<< 4) ||| UInt8.ofNat low) &&& 0x0f = UInt8.ofNat low) ∧
      (∀ n < 256,
        UInt8.ofNat n = (UInt8.ofNat (n / 16) <<< 4) ||| UInt8.ofNat (n % 16) ∧
          UInt8.ofNat n >>> 4 = UInt8.ofNat (n / 16) ∧
          UInt8.ofNat n &&& 0x0f = UInt8.ofNat (n % 16)) ∧
      ∀ n < 256, (hexPair (UInt8.ofNat n)).all
        (fun c => c.toNat < 128 ∧ isWhitespace c = false) = true := by
  decide +kernel

theorem shiftLeft_or (high low : UInt8) (hhigh : high < 16) (hlow : low < 16) :
    ((high <<< 4) ||| low) >>> 4 = high ∧ ((high <<< 4) ||| low) &&& 0x0f = low := by
  obtain ⟨hall, _⟩ := byte_table
  have h := hall high.toNat (UInt8.lt_iff_toNat_lt.mp hhigh) low.toNat
    (UInt8.lt_iff_toNat_lt.mp hlow)
  rw [UInt8.ofNat_toNat, UInt8.ofNat_toNat] at h
  exact h

theorem byte_halves (byte : UInt8) :
    byte = (UInt8.ofNat (byte.toNat / 16) <<< 4) ||| UInt8.ofNat (byte.toNat % 16) ∧
      byte >>> 4 = UInt8.ofNat (byte.toNat / 16) ∧
      byte &&& 0x0f = UInt8.ofNat (byte.toNat % 16) := by
  obtain ⟨_, hall, _⟩ := byte_table
  have h := hall byte.toNat byte.toNat_lt
  rw [UInt8.ofNat_toNat] at h
  exact h

theorem toList_hexString (digest : Bytes) : (hexString digest).toList = digest.flatMap hexPair := by
  rw [hexString, String.toList_ofList]
  rfl

theorem length_flatMap_hexPair (digest : Bytes) :
    (digest.flatMap hexPair).length = digest.length * 2 := by
  induction digest with
  | nil => rfl
  | cons byte digest ih =>
    rw [List.flatMap_cons, List.length_append, ih, List.length_cons]
    simp only [hexPair, List.length_cons, List.length_nil]
    omega

theorem of_mem_hexPair {byte : UInt8} {c : Char} (h : c ∈ hexPair byte) :
    c.toNat < 128 ∧ isWhitespace c = false := by
  obtain ⟨_, _, hall⟩ := byte_table
  have hpair := hall byte.toNat byte.toNat_lt
  rw [UInt8.ofNat_toNat, List.all_eq_true] at hpair
  exact of_decide_eq_true (hpair c h)

theorem hexPairs_cons {high low : UInt8} {rest digest : Bytes} :
    hexPairs (high :: low :: rest) = some digest ↔ ∃ first second bytes,
      hexNibble high = some first ∧ hexNibble low = some second ∧ hexPairs rest = some bytes ∧
        digest = ((first <<< 4) ||| second) :: bytes := by
  simp only [hexPairs, Option.bind_eq_bind, Option.bind_eq_some_iff, Option.pure_def,
    Option.some.injEq]
  constructor
  · rintro ⟨first, hfirst, second, hsecond, bytes, hbytes, heq⟩
    exact ⟨first, second, bytes, hfirst, hsecond, hbytes, heq.symm⟩
  · rintro ⟨first, second, bytes, hfirst, hsecond, hbytes, heq⟩
    exact ⟨first, hfirst, second, hsecond, bytes, hbytes, heq.symm⟩

theorem exists_pair {α : Type} {xs : List α} {size : Nat} (h : xs.length = (size + 1) * 2) :
    ∃ first second rest, xs = first :: second :: rest ∧ rest.length = size * 2 := by
  match xs with
  | [] => simp at h
  | [_] =>
    simp only [List.length_cons, List.length_nil] at h
    omega
  | first :: second :: rest =>
    simp only [List.length_cons] at h
    exact ⟨first, second, rest, rfl, by omega⟩

/-- Every byte that is read as a digit is ASCII. -/
theorem lt_of_hexPairs {bytes digest : Bytes} {size : Nat} (hsize : bytes.length = size * 2)
    (h : hexPairs bytes = some digest) : ∀ byte ∈ bytes, byte < 128 := by
  induction size generalizing bytes digest with
  | zero =>
    intro byte hbyte
    have hempty : bytes = [] := List.length_eq_zero_iff.mp (by omega)
    rw [hempty] at hbyte
    exact absurd hbyte List.not_mem_nil
  | succ size ih =>
    obtain ⟨high, low, rest, rfl, hrest⟩ := exists_pair hsize
    obtain ⟨first, second, tail, hfirst, hsecond, htail, _⟩ := hexPairs_cons.mp h
    intro byte hbyte
    simp only [List.mem_cons] at hbyte
    rcases hbyte with rfl | rfl | hbyte
    · exact hexNibble_lt hfirst
    · exact hexNibble_lt hsecond
    · exact ih hrest htail byte hbyte

/-- What the digits of an ASCII text are in lower case. -/
theorem toLower_of_hexPairs {text : List Char} {digest : Bytes} {size : Nat}
    (hascii : ∀ c ∈ text, c.toNat < 128) (hsize : text.length = size * 2)
    (h : hexPairs (text.map fun c => UInt8.ofNat c.toNat) = some digest) :
    text.map Char.toLower = digest.flatMap hexPair ∧ digest.length = size := by
  induction size generalizing text digest with
  | zero =>
    have hempty : text = [] := List.length_eq_zero_iff.mp (by omega)
    rw [hempty] at h ⊢
    cases h
    exact ⟨rfl, rfl⟩
  | succ size ih =>
    obtain ⟨high, low, rest, rfl, hrest⟩ := exists_pair hsize
    obtain ⟨first, second, tail, hfirst, hsecond, htail, rfl⟩ := hexPairs_cons.mp h
    obtain ⟨hlt, hhigh⟩ := hexNibble_eq_some (hascii high (by simp)) hfirst
    obtain ⟨hlt', hlow⟩ := hexNibble_eq_some (hascii low (by simp)) hsecond
    obtain ⟨hshift, hmask⟩ := shiftLeft_or first second hlt hlt'
    obtain ⟨hlower, hlength⟩ := ih (fun c hc => hascii c (by simp [hc])) hrest htail
    rw [List.map_cons, List.map_cons, hhigh, hlow, hlower, List.flatMap_cons, hexPair, hshift,
      hmask, List.length_cons, hlength]
    exact ⟨rfl, rfl⟩

/-- A text that is in lower case what `hexString` writes is read as the digest. -/
theorem hexPairs_of_toLower {text : List Char} {digest : Bytes}
    (h : text.map Char.toLower = digest.flatMap hexPair) :
    (∀ c ∈ text, c.toNat < 128) ∧
      hexPairs (text.map fun c => UInt8.ofNat c.toNat) = some digest := by
  induction digest generalizing text with
  | nil =>
    rw [List.map_eq_nil_iff.mp h]
    exact ⟨fun _ hc => absurd hc List.not_mem_nil, rfl⟩
  | cons byte digest ih =>
    rw [List.flatMap_cons, hexPair] at h
    obtain ⟨high, behind, rfl, hhigh, h⟩ := List.map_eq_cons_iff.mp h
    obtain ⟨low, rest, rfl, hlow, hrest⟩ := List.map_eq_cons_iff.mp h
    obtain ⟨hwhole, hshift, hmask⟩ := byte_halves byte
    rw [hshift] at hhigh
    rw [hmask] at hlow
    have hbyte := byte.toNat_lt
    obtain ⟨hlt, hfirst⟩ := hexNibble_of_toLower (by omega) hhigh
    obtain ⟨hlt', hsecond⟩ := hexNibble_of_toLower (by omega) hlow
    obtain ⟨hascii, htail⟩ := ih hrest
    constructor
    · intro c hc
      simp only [List.mem_cons] at hc
      rcases hc with rfl | rfl | hc
      · exact hlt
      · exact hlt'
      · exact hascii c hc
    · rw [List.map_cons, List.map_cons, hexPairs_cons]
      refine ⟨_, _, _, hfirst, hsecond, htail, ?_⟩
      rw [← hwhole]

/-! ## Whole digests -/

theorem parseHexArray_eq_some_iff {size : Nat} {text : String} {digest : Bytes} :
    parseHexArray size text = some digest ↔
      digest.length = size ∧ lowered text = digest.flatMap hexPair := by
  rw [parseHexArray, utf8Bytes_eq]
  constructor
  · intro h
    rw [Option.ite_none_right_eq_some] at h
    obtain ⟨hsize, hpairs⟩ := h
    have hbytes := lt_of_hexPairs hsize hpairs
    have hascii : ∀ c ∈ text.toList, c.toNat < 128 := fun c hc => lt_of_utf8EncodeChar
      fun byte hbyte => hbytes byte (List.mem_flatMap.mpr ⟨c, hc, hbyte⟩)
    rw [flatMap_utf8EncodeChar hascii] at hsize hpairs
    rw [List.length_map] at hsize
    exact (toLower_of_hexPairs hascii hsize hpairs).symm
  · rintro ⟨hlength, hlower⟩
    obtain ⟨hascii, hpairs⟩ := hexPairs_of_toLower hlower
    have hsize : text.toList.length = size * 2 := by
      have := congrArg List.length hlower
      rw [lowered, List.length_map, length_flatMap_hexPair, hlength] at this
      exact this
    rw [flatMap_utf8EncodeChar hascii, if_pos (by rw [List.length_map]; exact hsize)]
    exact hpairs

/-- The letter case of a text makes no difference. -/
theorem parseHexArray_congr {size : Nat} {text text' : String} (h : lowered text = lowered text') :
    parseHexArray size text = parseHexArray size text' := by
  apply Option.ext
  intro digest
  rw [parseHexArray_eq_some_iff, parseHexArray_eq_some_iff, h]

theorem lowered_hexString (digest : Bytes) :
    lowered (hexString digest) = digest.flatMap hexPair := by
  obtain ⟨_, _, hall, _⟩ := digit_table
  rw [lowered, toList_hexString]
  induction digest with
  | nil => rfl
  | cons byte digest ih =>
    obtain ⟨_, hshift, hmask⟩ := byte_halves byte
    have hbyte := byte.toNat_lt
    rw [List.flatMap_cons, List.map_append, ih, hexPair, hshift, hmask]
    simp only [List.map_cons, List.map_nil]
    rw [(hall _ (by omega)).2, (hall _ (by omega)).2]

theorem parseHexArray_hexString (digest : Bytes) :
    parseHexArray digest.length (hexString digest) = some digest :=
  parseHexArray_eq_some_iff.mpr ⟨rfl, lowered_hexString digest⟩

/-- The text of a digest that was read is the text it was read from, in lower case. -/
theorem hexString_of_parseHexArray {size : Nat} {text : String} {digest : Bytes}
    (h : parseHexArray size text = some digest) : hexString digest = String.ofList (lowered text) := by
  obtain ⟨_, hlower⟩ := parseHexArray_eq_some_iff.mp h
  rw [hlower]
  rfl

end EwfImage
