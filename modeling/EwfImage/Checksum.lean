import EwfImage.Types
import Mathlib.Tactic.Ring

/-! # The Adler-32 checksum 

The checksum of zlib over a list of bytes, as the source computes it: two sums modulo 65521, in
the upper and the lower half of the result. `adler32_lt` says that it fits a field of four
bytes. No other property is used: that a checksum detects a change is nowhere assumed.
-/

namespace EwfImage

def modAdler : Nat := 65521

def adlerStep (state : Nat × Nat) (byte : UInt8) : Nat × Nat :=
  let a := (state.1 + byte.toNat) % modAdler
  (a, (state.2 + a) % modAdler)

def adler32 (data : Bytes) : Nat :=
  let (a, b) := data.foldl adlerStep (1, 0)
  b <<< 16 ||| a

theorem adlerStep_lt (state : Nat × Nat) (byte : UInt8) :
    (adlerStep state byte).1 < modAdler ∧ (adlerStep state byte).2 < modAdler :=
  ⟨Nat.mod_lt _ (by decide), Nat.mod_lt _ (by decide)⟩

theorem foldl_adlerStep_lt (data : Bytes) {state : Nat × Nat}
    (h : state.1 < modAdler ∧ state.2 < modAdler) :
    (data.foldl adlerStep state).1 < modAdler ∧ (data.foldl adlerStep state).2 < modAdler := by
  induction data generalizing state with
  | nil => exact h
  | cons byte data ih => exact ih (adlerStep_lt state byte)

/-- A checksum fits the four bytes that store it. -/
theorem adler32_lt (data : Bytes) : adler32 data < 2 ^ 32 := by
  obtain ⟨ha, hb⟩ := foldl_adlerStep_lt data (by decide : (1, 0).1 < modAdler ∧ (1, 0).2 < modAdler)
  have hmod : modAdler < 2 ^ 16 := by decide
  have hhigh : (data.foldl adlerStep (1, 0)).2 <<< 16 < 2 ^ 32 := by
    rw [Nat.shiftLeft_eq]
    omega
  exact Nat.or_lt_two_pow hhigh (by omega)

end EwfImage
