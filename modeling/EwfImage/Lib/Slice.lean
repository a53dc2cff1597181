import EwfImage.Lib.LittleEndian
import Mathlib.Data.List.TakeDrop

/-!
# Byte ranges

`slice bytes offset size` is the range a positioned read delivers, cut at the end
of the bytes, and `leAt` the little-endian field stored in one. The lemmas say how
a slice of a concatenation falls to one of its parts.

`slice_append_middle` finds a part of a file that was written as a concatenation, and
`slice_flatMap_range` says that consecutive ranges of one size make up the bytes. Reading a
range behind the end gives fewer bytes or none; whether this is an error is left to the user.
-/

namespace Slice

open LittleEndian

variable {α : Type*}

def slice (bytes : List α) (offset size : Nat) : List α := (bytes.drop offset).take size

/-- The little-endian field of `width` bytes at `offset`. -/
def leAt (bytes : List UInt8) (offset width : Nat) : Nat := fromLE (slice bytes offset width)

@[simp] theorem length_slice (bytes : List α) (offset size : Nat) :
    (slice bytes offset size).length = min size (bytes.length - offset) := by
  simp [slice]

theorem length_slice_of_le {bytes : List α} {offset size : Nat}
    (h : offset + size ≤ bytes.length) : (slice bytes offset size).length = size := by
  rw [length_slice]
  omega

@[simp] theorem slice_zero (bytes : List α) (offset : Nat) : slice bytes offset 0 = [] := by
  simp [slice]

theorem slice_all (bytes : List α) : slice bytes 0 bytes.length = bytes := by
  simp [slice]

theorem slice_append_left {xs ys : List α} {offset size : Nat} (h : offset + size ≤ xs.length) :
    slice (xs ++ ys) offset size = slice xs offset size := by
  unfold slice
  rw [List.drop_append_of_le_length (by omega), List.take_append_of_le_length]
  rw [List.length_drop]
  omega

theorem slice_append_right {xs ys : List α} {offset size : Nat} (h : xs.length ≤ offset) :
    slice (xs ++ ys) offset size = slice ys (offset - xs.length) size := by
  unfold slice
  rw [List.drop_append, List.drop_eq_nil_of_le h, List.nil_append]

/-- The middle part of a concatenation. -/
theorem slice_append_middle (xs ys zs : List α) :
    slice (xs ++ ys ++ zs) xs.length ys.length = ys := by
  simp [slice]

theorem slice_slice {bytes : List α} {o n i k : Nat} (h : i + k ≤ n) :
    slice (slice bytes o n) i k = slice bytes (o + i) k := by
  unfold slice
  rw [List.drop_take, List.drop_drop, List.take_take, Nat.min_eq_left (by omega)]

/-- Ranges that follow each other. -/
theorem slice_append_slice (bytes : List α) (offset m n : Nat) :
    slice bytes offset m ++ slice bytes (offset + m) n = slice bytes offset (m + n) := by
  unfold slice
  rw [← List.drop_drop, List.take_add]

/-! ## Consecutive parts -/

section Parts

variable {part : Nat → List α} {size total : Nat}

/-- Parts of `size` items, cut at `total`. -/
theorem length_flatMap_range {count : Nat}
    (h : ∀ i < count, (part i).length = min (total - i * size) size) :
    ((List.range count).flatMap part).length = min total (count * size) := by
  induction count with
  | zero => simp
  | succ count ih =>
    have hlast := h count (Nat.lt_succ_self _)
    have hrest := ih fun i hi => h i (Nat.lt_succ_of_lt hi)
    rw [List.range_succ, List.flatMap_append, List.length_append, hrest, List.flatMap_singleton,
      hlast, Nat.add_mul]
    omega

theorem slice_flatMap_range {count i : Nat}
    (h : ∀ i < count, (part i).length = min (total - i * size) size) (hi : i < count) :
    slice ((List.range count).flatMap part) (i * size) size = part i := by
  induction count with
  | zero => omega
  | succ count ih =>
    have hpart := h i hi
    have hlast := h count (Nat.lt_succ_self _)
    have hrest := length_flatMap_range fun i hi => h i (Nat.lt_succ_of_lt hi)
    rw [List.range_succ, List.flatMap_append, List.flatMap_singleton]
    rcases Nat.lt_succ_iff_lt_or_eq.mp hi with hlt | rfl
    · have hmul : (i + 1) * size ≤ count * size := Nat.mul_le_mul_right _ hlt
      rw [Nat.add_mul, Nat.one_mul] at hmul
      have hbefore := ih (fun i hi => h i (Nat.lt_succ_of_lt hi)) hlt
      by_cases hshort : total < i * size + size
      · have hnil : part count = [] := List.length_eq_zero_iff.mp (by omega)
        rw [hnil, List.append_nil, hbefore]
      · rw [slice_append_left (by omega), hbefore]
    · rw [slice_append_right (by omega), hrest]
      rcases Nat.le_total (i * size) total with hle | hge
      · rw [Nat.min_eq_right hle, Nat.sub_self]
        exact List.take_of_length_le (by rw [List.drop_zero]; omega)
      · have hnil : part i = [] := List.length_eq_zero_iff.mp (by omega)
        simp [hnil, slice]

end Parts

/-- A field behind another one. -/
theorem leAt_toLE_skip {skipped value offset width : Nat} (rest : List UInt8)
    (h : skipped ≤ offset) :
    leAt (toLE skipped value ++ rest) offset width = leAt rest (offset - skipped) width := by
  rw [leAt, slice_append_right (by rw [length_toLE]; exact h), length_toLE, leAt]

/-- The field at the front. -/
theorem leAt_toLE {width value : Nat} (rest : List UInt8) (hfit : value < 256 ^ width) :
    leAt (toLE width value ++ rest) 0 width = value := by
  have hmiddle := slice_append_middle [] (toLE width value) rest
  rw [length_toLE, List.nil_append, List.length_nil] at hmiddle
  rw [leAt, hmiddle, fromLE_toLE_of_lt hfit]

theorem leAt_lt (bytes : List UInt8) (offset width : Nat) : leAt bytes offset width < 256 ^ width := by
  have h := fromLE_lt (slice bytes offset width)
  refine Nat.lt_of_lt_of_le h (Nat.pow_le_pow_right (by omega) ?_)
  rw [length_slice]
  omega

end Slice
