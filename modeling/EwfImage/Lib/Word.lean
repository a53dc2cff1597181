import Mathlib.Tactic.Ring

/-!
# Checked unsigned 64-bit arithmetic

Natural numbers stand for machine words; every operation that may leave the
64-bit range is checked. A result is present exactly when it is representable,
which is what `checkedAdd_eq_some` and its companions state.

The wrapping and saturating sums of a release build stand beside the checked ones, with the
bounds under which they agree with the sum of natural numbers. `divCeil` is the division that
rounds up, by the remainder, as the source computes it.
-/

namespace Word

/-- One more than the largest 64-bit value. -/
def u64Limit : Nat := 2 ^ 64

/-- One more than the largest 32-bit value. -/
def u32Limit : Nat := 2 ^ 32

def checkedAdd (left right : Nat) : Option Nat :=
  if left + right < u64Limit then some (left + right) else none

def checkedMul (left right : Nat) : Option Nat :=
  if left * right < u64Limit then some (left * right) else none

def checkedSub (left right : Nat) : Option Nat :=
  if right ≤ left then some (left - right) else none

def saturatingAdd (left right : Nat) : Nat := min (left + right) (u64Limit - 1)

def wrappingAdd (left right : Nat) : Nat := (left + right) % u64Limit

def wrappingSub (left right : Nat) : Nat := (left + (u64Limit - right)) % u64Limit

@[simp] theorem checkedAdd_eq_some {a b c : Nat} :
    checkedAdd a b = some c ↔ a + b < u64Limit ∧ a + b = c := by
  unfold checkedAdd
  split <;> simp
  all_goals omega

@[simp] theorem checkedMul_eq_some {a b c : Nat} :
    checkedMul a b = some c ↔ a * b < u64Limit ∧ a * b = c := by
  unfold checkedMul
  split <;> simp
  all_goals omega

@[simp] theorem checkedSub_eq_some {a b c : Nat} :
    checkedSub a b = some c ↔ b ≤ a ∧ a - b = c := by
  unfold checkedSub
  split <;> simp
  all_goals omega

theorem checkedAdd_of_lt {a b : Nat} (h : a + b < u64Limit) : checkedAdd a b = some (a + b) :=
  if_pos h

theorem checkedMul_of_lt {a b : Nat} (h : a * b < u64Limit) : checkedMul a b = some (a * b) :=
  if_pos h

theorem saturatingAdd_of_lt {a b : Nat} (h : a + b < u64Limit) : saturatingAdd a b = a + b :=
  Nat.min_eq_left (by omega)

/-- A sum that wraps is right again when enough is taken away from it. -/
theorem wrappingSub_wrappingAdd {a b c : Nat} (hle : c ≤ b) (hb : b < u64Limit)
    (hsum : a + (b - c) < u64Limit) : wrappingSub (wrappingAdd a b) c = a + (b - c) := by
  unfold wrappingSub wrappingAdd u64Limit at *
  omega

/-- The number of blocks of `size` items that hold `n` items. -/
def divCeil (n size : Nat) : Nat := if n % size = 0 then n / size else n / size + 1

theorem divCeil_mul_ge {n size : Nat} (hs : 0 < size) : n ≤ divCeil n size * size := by
  have hmod := Nat.div_add_mod n size
  have hlt := Nat.mod_lt n hs
  unfold divCeil
  split
  · rw [Nat.mul_comm]; omega
  · rw [Nat.add_mul, Nat.mul_comm (n / size)]; omega

theorem divCeil_mul_lt {n size : Nat} (hs : 0 < size) : divCeil n size * size < n + size := by
  have hmod := Nat.div_add_mod n size
  unfold divCeil
  split
  · rw [Nat.mul_comm]; omega
  · rw [Nat.add_mul, Nat.mul_comm (n / size)]; omega

/-- A number of blocks that holds `n` items while one block less does not. -/
theorem divCeil_unique {n size count : Nat} (hs : 0 < size) (hge : n ≤ count * size)
    (hlt : count ≠ 0 → (count - 1) * size < n) : count = divCeil n size := by
  have h1 := divCeil_mul_ge (n := n) hs
  have h2 := divCeil_mul_lt (n := n) hs
  rcases Nat.lt_trichotomy count (divCeil n size) with h | h | h
  · have hmul : (count + 1) * size ≤ divCeil n size * size := Nat.mul_le_mul_right _ h
    rw [Nat.add_mul] at hmul
    omega
  · exact h
  · have hmul : divCeil n size * size ≤ (count - 1) * size := Nat.mul_le_mul_right _ (by omega)
    have := hlt (by omega)
    omega

end Word
