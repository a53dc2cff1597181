import EwfImage.Lib.Text
import Mathlib.Data.List.TakeWhile

/-!
# The bytes of a text

The UTF-8 bytes of a text, and that the decoding which replaces what is not UTF-8 gives the text
back (`fromUtf8Lossy_toUtf8`).

The decoder is followed by its leading bytes, one case for each number of bytes in a character.
The only use of the encoder of the standard library is through `utf8EncodeChar_eq`, which spells
out its four cases.
-/

namespace Text

/-- The UTF-8 bytes of a text. -/
def toUtf8 (text : List Char) : List UInt8 := text.flatMap String.utf8EncodeChar

/-! ## Bytes of a character in front of others -/

theorem toNat_ofNat_of_lt {n : Nat} (h : n < 256) : (UInt8.ofNat n).toNat = n := by
  rw [UInt8.toNat_ofNat']
  exact Nat.mod_eq_of_lt h

theorem ofNat_between {low high n : Nat} (hhigh : high < 256) (hlow : low ≤ n) (hle : n ≤ high) :
    UInt8.ofNat low ≤ UInt8.ofNat n ∧ UInt8.ofNat n ≤ UInt8.ofNat high := by
  rw [UInt8.le_iff_toNat_le, UInt8.le_iff_toNat_le, toNat_ofNat_of_lt (by omega),
    toNat_ofNat_of_lt (by omega), toNat_ofNat_of_lt hhigh]
  exact ⟨hlow, hle⟩

theorem isContinuation_ofNat {n : Nat} (hlow : 0x80 ≤ n) (hhigh : n ≤ 0xBF) :
    isContinuation (UInt8.ofNat n) = true := by
  have hall : ∀ n < 256, 0x80 ≤ n → n ≤ 0xBF → isContinuation (UInt8.ofNat n) = true := by
    decide +kernel
  exact hall n (by omega) hlow hhigh

/-- The range that the byte behind a leading byte has to be in. -/
def secondRange (lead : Nat) : Nat × Nat :=
  if lead = 0xE0 then (0xA0, 0xBF)
  else if lead = 0xED then (0x80, 0x9F)
  else if lead = 0xF0 then (0x90, 0xBF)
  else if lead = 0xF4 then (0x80, 0x8F)
  else (0x80, 0xBF)

theorem leadingByte_ofNat {lead : Nat} (hlow : 0xC2 ≤ lead) (hhigh : lead ≤ 0xF4) :
    leadingByte (UInt8.ofNat lead) = some
      (if lead ≤ 0xDF then 1 else if lead ≤ 0xEF then 2 else 3,
        UInt8.ofNat (secondRange lead).1, UInt8.ofNat (secondRange lead).2) := by
  have hall : ∀ lead < 256, 0xC2 ≤ lead ∧ lead ≤ 0xF4 → leadingByte (UInt8.ofNat lead) = some
      (if lead ≤ 0xDF then 1 else if lead ≤ 0xEF then 2 else 3,
        UInt8.ofNat (secondRange lead).1, UInt8.ofNat (secondRange lead).2) := by
    decide +kernel
  exact hall lead (by omega) ⟨hlow, hhigh⟩

theorem secondRange_lt (lead : Nat) : (secondRange lead).2 < 256 := by
  unfold secondRange
  split_ifs <;> decide

/-- The bytes of a character behind its first one, as long as they may follow it. -/
theorem frontCharacter_ofNat {lead : Nat} {tail : List Nat} {rest : List UInt8}
    (hlow : 0xC2 ≤ lead) (hhigh : lead ≤ 0xF4)
    (hcount : tail.length = if lead ≤ 0xDF then 1 else if lead ≤ 0xEF then 2 else 3)
    (hfirst : ∀ second ∈ tail.head?, (secondRange lead).1 ≤ second ∧ second ≤ (secondRange lead).2)
    (htail : ∀ n ∈ tail, 0x80 ≤ n ∧ n ≤ 0xBF) :
    frontCharacter (UInt8.ofNat lead) (tail.map UInt8.ofNat ++ rest) =
      (Char.ofNat (tail.foldl (fun value n => value * 64 + n % 64) (lead % 2 ^ (6 - tail.length))),
        tail.length + 1) := by
  have hnot : ¬ UInt8.ofNat lead < 128 := by
    rw [UInt8.lt_iff_toNat_lt, toNat_ofNat_of_lt (by omega)]
    exact Nat.not_lt.mpr (by simp only [UInt8.reduceToNat]; omega)
  have hfound : continuation tail.length (UInt8.ofNat (secondRange lead).1)
      (UInt8.ofNat (secondRange lead).2) (tail.map UInt8.ofNat ++ rest) =
        tail.map UInt8.ofNat := by
    cases tail with
    | nil =>
      split_ifs at hcount
    | cons second tail =>
      have hbounds := hfirst second rfl
      have hrange := ofNat_between (secondRange_lt lead) hbounds.1 hbounds.2
      rw [List.map_cons, List.cons_append, continuation, if_pos ⟨by simp, hrange⟩,
        List.length_cons, Nat.add_sub_cancel, List.take_left' (List.length_map _)]
      congr 1
      rw [List.takeWhile_eq_self_iff]
      intro byte hbyte
      obtain ⟨n, hn, rfl⟩ := List.mem_map.mp hbyte
      have hbounds := htail n (List.mem_cons_of_mem _ hn)
      exact isContinuation_ofNat hbounds.1 hbounds.2
  have hfold : ∀ (value : Nat), (tail.map UInt8.ofNat).foldl
      (fun value byte => value * 64 + byte.toNat % 64) value =
        tail.foldl (fun value n => value * 64 + n % 64) value := by
    clear hcount hfirst hfound
    induction tail with
    | nil => exact fun _ => rfl
    | cons n tail ih =>
      intro value
      have hbounds := htail n List.mem_cons_self
      rw [List.map_cons, List.foldl_cons, List.foldl_cons, toNat_ofNat_of_lt (by omega)]
      exact ih (fun n hn => htail n (List.mem_cons_of_mem _ hn)) _
  rw [frontCharacter, if_neg hnot, leadingByte_ofNat hlow hhigh, ← hcount]
  dsimp only
  rw [hfound, if_pos (List.length_map _), hfold, toNat_ofNat_of_lt (by omega)]

/-- The numbers of the bytes of a character that is not ASCII. -/
theorem utf8EncodeChar_eq {c : Char} (h : 128 ≤ c.toNat) :
    String.utf8EncodeChar c = (if c.toNat ≤ 0x7ff then
        [c.toNat / 64 % 32 + 0xC0, c.toNat % 64 + 0x80]
      else if c.toNat ≤ 0xffff then
        [c.toNat / 4096 % 16 + 0xE0, c.toNat / 64 % 64 + 0x80, c.toNat % 64 + 0x80]
      else [c.toNat / 262144 % 8 + 0xF0, c.toNat / 4096 % 64 + 0x80, c.toNat / 64 % 64 + 0x80,
        c.toNat % 64 + 0x80]).map UInt8.ofNat := by
  have hgt : ¬ c.val.toNat ≤ 0x7f := Nat.not_le.mpr h
  unfold String.utf8EncodeChar
  simp only [hgt, if_false]
  change (if c.toNat ≤ 0x7ff then _ else if c.toNat ≤ 0xffff then _ else _) = _
  split_ifs <;> rfl

/-- The character at the front of the bytes of a text. -/
theorem frontCharacter_utf8EncodeChar (c : Char) (rest : List UInt8) :
    ∃ byte tail, String.utf8EncodeChar c = byte :: tail ∧
      frontCharacter byte (tail ++ rest) = (c, tail.length + 1) := by
  have hvalid : c.toNat < 0xD800 ∨ 0xDFFF < c.toNat ∧ c.toNat < 0x110000 := c.valid
  have hback : Char.ofNat c.toNat = c := Char.ofNat_toNat c
  by_cases hascii : c.toNat < 128
  · refine ⟨UInt8.ofNat c.toNat, [], utf8EncodeChar_of_lt hascii, ?_⟩
    have hlt : UInt8.ofNat c.toNat < 128 := by
      rw [UInt8.lt_iff_toNat_lt, toNat_ofNat_of_lt (by omega)]
      exact hascii
    rw [frontCharacter, if_pos hlt, toNat_ofNat_of_lt (by omega), hback]
    rfl
  · rw [utf8EncodeChar_eq (Nat.not_lt.mp hascii)]
    have hfront : ∀ (lead : Nat) (tail : List Nat), 0xC2 ≤ lead → lead ≤ 0xF4 →
        (tail.length = if lead ≤ 0xDF then 1 else if lead ≤ 0xEF then 2 else 3) →
        (∀ second ∈ tail.head?, (secondRange lead).1 ≤ second ∧ second ≤ (secondRange lead).2) →
        (∀ n ∈ tail, 0x80 ≤ n ∧ n ≤ 0xBF) →
        tail.foldl (fun value n => value * 64 + n % 64) (lead % 2 ^ (6 - tail.length)) = c.toNat →
        ∃ byte bytes, (lead :: tail).map UInt8.ofNat = byte :: bytes ∧
          frontCharacter byte (bytes ++ rest) = (c, bytes.length + 1) := by
      intro lead tail hlow hhigh hcount hfirst htail hvalue
      refine ⟨UInt8.ofNat lead, tail.map UInt8.ofNat, rfl, ?_⟩
      rw [frontCharacter_ofNat hlow hhigh hcount hfirst htail, hvalue, hback, List.length_map]
    -- the range of the second byte keeps the surrogates and what is too long or too large out
    have hsecond : ∀ {lead second : Nat},
        (lead = 0xE0 → 0xA0 ≤ second) → (lead = 0xED → second ≤ 0x9F) →
        (lead = 0xF0 → 0x90 ≤ second) → (lead = 0xF4 → second ≤ 0x8F) →
        0x80 ≤ second → second ≤ 0xBF →
        (secondRange lead).1 ≤ second ∧ second ≤ (secondRange lead).2 := by
      intro lead second h1 h2 h3 h4 hlow hhigh
      unfold secondRange
      split_ifs with hE0 hED hF0 hF4
      · exact ⟨h1 hE0, hhigh⟩
      · exact ⟨hlow, h2 hED⟩
      · exact ⟨h3 hF0, hhigh⟩
      · exact ⟨hlow, h4 hF4⟩
      · exact ⟨hlow, hhigh⟩
    split_ifs with htwo hthree
    · refine hfront _ _ (by omega) (by omega) ?_ ?_ ?_ ?_
      · rw [if_pos (by omega)]
        rfl
      · rintro _ ⟨⟩
        apply hsecond <;> omega
      · intro n hn
        rw [List.mem_singleton] at hn
        omega
      · simp only [List.foldl_cons, List.foldl_nil, List.length_singleton]
        omega
    · refine hfront _ _ (by omega) (by omega) ?_ ?_ ?_ ?_
      · rw [if_neg (by omega), if_pos (by omega)]
        rfl
      · rintro _ ⟨⟩
        apply hsecond <;> omega
      · intro n hn
        simp only [List.mem_cons, List.not_mem_nil, or_false] at hn
        omega
      · simp only [List.foldl_cons, List.foldl_nil, List.length_cons, List.length_nil]
        omega
    · refine hfront _ _ (by omega) (by omega) ?_ ?_ ?_ ?_
      · rw [if_neg (by omega), if_neg (by omega)]
        rfl
      · rintro _ ⟨⟩
        apply hsecond <;> omega
      · intro n hn
        simp only [List.mem_cons, List.not_mem_nil, or_false] at hn
        omega
      · simp only [List.foldl_cons, List.foldl_nil, List.length_cons, List.length_nil]
        omega

/-! ## Texts -/

theorem fromUtf8LossyFrom_toUtf8 (text : List Char) :
    ∀ {fuel : Nat}, (toUtf8 text).length ≤ fuel → fromUtf8LossyFrom fuel (toUtf8 text) = text := by
  induction text with
  | nil =>
    intro fuel _
    cases fuel <;> rfl
  | cons c text ih =>
    intro fuel hfuel
    obtain ⟨byte, tail, hbytes, hfront⟩ := frontCharacter_utf8EncodeChar c (toUtf8 text)
    have hcons : toUtf8 (c :: text) = byte :: (tail ++ toUtf8 text) := by
      rw [toUtf8, List.flatMap_cons, hbytes]
      rfl
    rw [hcons, List.length_cons, List.length_append] at hfuel
    obtain ⟨fuel, rfl⟩ := Nat.exists_eq_add_of_le' (Nat.le_trans (Nat.le_add_left 1 _) hfuel)
    rw [hcons, fromUtf8LossyFrom, hfront]
    dsimp only
    rw [List.drop_succ_cons, List.drop_left, ih (by omega)]

/-- Decoding gives back the text of its bytes. -/
theorem fromUtf8Lossy_toUtf8 (text : List Char) : fromUtf8Lossy (toUtf8 text) = text :=
  fromUtf8LossyFrom_toUtf8 text (Nat.le_refl _)

end Text
