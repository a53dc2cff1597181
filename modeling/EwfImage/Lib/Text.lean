import Mathlib.Data.List.Basic
import Mathlib.Tactic.Ring

/-!
# Texts

Operations on texts as sequences of characters: white space, trimming, splitting at a
pattern, and the decoding of bytes that replaces what is not UTF-8.

A text is a list of characters here, since positions in the program's texts are only ever
compared and never counted in bytes. The decoding is that of the standard library: each maximal
invalid sequence becomes one replacement character. White space is that of Unicode.
-/

namespace Text

/-- The `White_Space` characters of Unicode. -/
def isWhitespace (c : Char) : Bool :=
  let n := c.toNat
  (9 ≤ n ∧ n ≤ 13) ∨ n = 0x20 ∨ n = 0x85 ∨ n = 0xA0 ∨ n = 0x1680 ∨ (0x2000 ≤ n ∧ n ≤ 0x200A) ∨
    n = 0x2028 ∨ n = 0x2029 ∨ n = 0x202F ∨ n = 0x205F ∨ n = 0x3000

def trim (text : List Char) : List Char :=
  ((text.dropWhile isWhitespace).reverse.dropWhile isWhitespace).reverse

/-- The first word of a text, empty if there is none. -/
def firstWord (text : List Char) : List Char :=
  (text.dropWhile isWhitespace).takeWhile fun c => !isWhitespace c

/-- The parts in front of and behind the first place where the pattern is. -/
def splitOnce (pattern : List Char) : List Char → Option (List Char × List Char)
  | [] => if pattern = [] then some ([], []) else none
  | c :: text =>
    if pattern.isPrefixOf (c :: text) then some ([], (c :: text).drop pattern.length)
    else (splitOnce pattern text).map fun (before, behind) => (c :: before, behind)

theorem eq_of_splitOnce {pattern text before behind : List Char}
    (h : splitOnce pattern text = some (before, behind)) : text = before ++ pattern ++ behind := by
  induction text generalizing before with
  | nil =>
    simp only [splitOnce] at h
    split at h
    · rename_i hpattern
      cases h
      rw [hpattern]
      rfl
    · cases h
  | cons c text ih =>
    simp only [splitOnce] at h
    split at h
    · rename_i hstart
      cases h
      obtain ⟨rest, hrest⟩ := List.isPrefixOf_iff_prefix.mp hstart
      rw [← hrest, List.drop_left]
      rfl
    · obtain ⟨⟨front, _⟩, hfront, hpair⟩ := Option.map_eq_some_iff.mp h
      cases hpair
      rw [ih hfront]
      rfl

/-! ## UTF-8 -/

def isContinuation (byte : UInt8) : Bool := byte &&& 192 = 128

/-- The continuation bytes that a leading byte asks for, and the range of the first of them. -/
def leadingByte (byte : UInt8) : Option (Nat × UInt8 × UInt8) :=
  if 0xC2 ≤ byte ∧ byte ≤ 0xDF then some (1, 0x80, 0xBF)
  else if byte = 0xE0 then some (2, 0xA0, 0xBF)
  else if byte = 0xED then some (2, 0x80, 0x9F)
  else if 0xE1 ≤ byte ∧ byte ≤ 0xEF then some (2, 0x80, 0xBF)
  else if byte = 0xF0 then some (3, 0x90, 0xBF)
  else if 0xF1 ≤ byte ∧ byte ≤ 0xF3 then some (3, 0x80, 0xBF)
  else if byte = 0xF4 then some (3, 0x80, 0x8F)
  else none

def replacementCharacter : Char := '\uFFFD'

/-- The continuation bytes at the front, at most `count`, the first of them in a range. -/
def continuation (count : Nat) (low high : UInt8) : List UInt8 → List UInt8
  | byte :: bytes =>
    if count ≠ 0 ∧ low ≤ byte ∧ byte ≤ high then
      byte :: (bytes.take (count - 1)).takeWhile isContinuation
    else []
  | [] => []

/-- The character at the front of nonempty bytes, or the replacement of the longest part that
could start one, with the number of bytes. -/
def frontCharacter (byte : UInt8) (bytes : List UInt8) : Char × Nat :=
  if byte < 128 then (Char.ofNat byte.toNat, 1)
  else match leadingByte byte with
    | none => (replacementCharacter, 1)
    | some (count, low, high) =>
      let found := continuation count low high bytes
      let bits := byte.toNat % 2 ^ (6 - count)
      if found.length = count then
        (Char.ofNat (found.foldl (fun value byte => value * 64 + byte.toNat % 64) bits), count + 1)
      else (replacementCharacter, found.length + 1)

/-- `from_utf8_lossy` over as many characters as there are bytes. -/
def fromUtf8LossyFrom : Nat → List UInt8 → List Char
  | fuel + 1, byte :: bytes =>
    let (c, size) := frontCharacter byte bytes
    c :: fromUtf8LossyFrom fuel ((byte :: bytes).drop size)
  | _, _ => []

def fromUtf8Lossy (bytes : List UInt8) : List Char := fromUtf8LossyFrom bytes.length bytes

example : fromUtf8Lossy [0x61, 0xC3, 0xA4, 0xE2, 0x82, 0xAC, 0xF0, 0x9F, 0x98, 0x80, 0xE2, 0x82,
    0x62, 0xED, 0xA0, 0x80] = "aä€😀\uFFFDb\uFFFD\uFFFD\uFFFD".toList := by
  decide

/-! ## Bytes of a character -/

theorem utf8EncodeChar_of_lt {c : Char} (h : c.toNat < 128) :
    String.utf8EncodeChar c = [UInt8.ofNat c.toNat] := by
  have hle : c.val.toNat ≤ 0x7f := Nat.le_of_lt_succ h
  unfold String.utf8EncodeChar
  simp only [hle, if_true]
  rfl

/-- The bytes of a character that is not ASCII are no ASCII bytes. -/
theorem le_of_mem_utf8EncodeChar {c : Char} (h : ¬ c.toNat < 128) {byte : UInt8}
    (hbyte : byte ∈ String.utf8EncodeChar c) : 128 ≤ byte := by
  have hgt : ¬ c.val.toNat ≤ 0x7f := fun hle => h (Nat.lt_succ_of_le hle)
  unfold String.utf8EncodeChar at hbyte
  simp only [hgt, if_false] at hbyte
  rw [UInt8.le_iff_toNat_le]
  split at hbyte
  · simp only [List.mem_cons, List.not_mem_nil, or_false] at hbyte
    rcases hbyte with rfl | rfl <;> simp <;> omega
  · split at hbyte
    · simp only [List.mem_cons, List.not_mem_nil, or_false] at hbyte
      rcases hbyte with rfl | rfl | rfl <;> simp <;> omega
    · simp only [List.mem_cons, List.not_mem_nil, or_false] at hbyte
      rcases hbyte with rfl | rfl | rfl | rfl <;> simp <;> omega

/-- A character whose bytes are all ASCII is ASCII. -/
theorem lt_of_utf8EncodeChar {c : Char} (h : ∀ byte ∈ String.utf8EncodeChar c, byte < 128) :
    c.toNat < 128 := by
  by_contra hc
  obtain ⟨byte, hbyte⟩ := List.exists_mem_of_ne_nil _ (String.utf8EncodeChar_ne_nil (c := c))
  exact absurd (h byte hbyte) (UInt8.not_lt.mpr (le_of_mem_utf8EncodeChar hc hbyte))

/-- The bytes of an ASCII text. -/
theorem flatMap_utf8EncodeChar {text : List Char} (h : ∀ c ∈ text, c.toNat < 128) :
    text.flatMap String.utf8EncodeChar = text.map fun c => UInt8.ofNat c.toNat := by
  induction text with
  | nil => rfl
  | cons c text ih =>
    have hc := utf8EncodeChar_of_lt (h c List.mem_cons_self)
    have hrest := ih fun c hc => h c (List.mem_cons_of_mem _ hc)
    rw [List.flatMap_cons, hc, hrest]
    rfl

end Text
