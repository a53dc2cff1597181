import Mathlib.Data.List.Basic
import Mathlib.Data.Nat.ModEq
import Mathlib.Tactic.Ring

/-!
# Little-endian integers

Fixed-width little-endian encodings over byte lists, and the two round trips:
decoding an encoded value gives the value reduced to the width, and encoding a
decoded field gives the field back.

The width is a parameter, so one statement serves fields of two, four and eight bytes. A value
that exceeds its field is cut, as a cast does; `fromLE_toLE_of_lt` is the form for values that
fit.
-/

namespace LittleEndian

/-- The low `width` bytes of `value`, least significant first. -/
def toLE : Nat → Nat → List UInt8
  | 0, _ => []
  | width + 1, value => UInt8.ofNat value :: toLE width (value / 256)

def fromLE : List UInt8 → Nat
  | [] => 0
  | byte :: rest => byte.toNat + 256 * fromLE rest

@[simp] theorem length_toLE (width value : Nat) : (toLE width value).length = width := by
  induction width generalizing value with
  | zero => rfl
  | succ width ih => simp [toLE, ih]

theorem fromLE_toLE (width value : Nat) : fromLE (toLE width value) = value % 256 ^ width := by
  induction width generalizing value with
  | zero => simp [toLE, fromLE, Nat.mod_one]
  | succ width ih =>
    have hmod : value % (256 ^ width * 256) = value % 256 + 256 * (value / 256 % 256 ^ width) := by
      rw [Nat.mul_comm, Nat.mod_mul]
    rw [toLE, fromLE, ih, pow_succ, hmod]
    simp

theorem fromLE_toLE_of_lt {width value : Nat} (h : value < 256 ^ width) :
    fromLE (toLE width value) = value := by
  rw [fromLE_toLE, Nat.mod_eq_of_lt h]

theorem fromLE_lt (bytes : List UInt8) : fromLE bytes < 256 ^ bytes.length := by
  induction bytes with
  | nil => simp [fromLE]
  | cons byte rest ih =>
    have hbyte := byte.toNat_lt
    simp only [fromLE, List.length_cons, pow_succ]
    omega

theorem toLE_fromLE (bytes : List UInt8) : toLE bytes.length (fromLE bytes) = bytes := by
  induction bytes with
  | nil => rfl
  | cons byte rest ih =>
    have hbyte := byte.toNat_lt
    have hdiv : (byte.toNat + 256 * fromLE rest) / 256 = fromLE rest := by omega
    have hhead : UInt8.ofNat (byte.toNat + 256 * fromLE rest) = byte := by
      apply UInt8.toNat_inj.mp
      simp only [UInt8.toNat_ofNat']
      omega
    simp only [List.length_cons, toLE, fromLE, hdiv, ih, hhead]

theorem toLE_fromLE_of_length {width : Nat} {bytes : List UInt8} (h : bytes.length = width) :
    toLE width (fromLE bytes) = bytes := by
  subst h
  exact toLE_fromLE bytes

end LittleEndian
