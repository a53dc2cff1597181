import EwfImage.Lib.Fallible
import EwfImage.Lib.Slice
import EwfImage.Lib.Word

/-!
# Computations that can fault

An access outside of a list and a sum outside of the 64-bit range are faults, which are not
errors of the computation: they end the program. A computation is `Safe` when it does not
fault; the rules follow its steps, and the inversion lemmas read the values of a run back.

A fault is a separate outcome beside a value and an error, so that a statement can forbid it
without speaking about errors. `Safe.bind` is the rule for a sequence, and for each primitive
(`index`, `field`, `add`, `sub`) one rule says which bound makes it safe.
-/

namespace Faults

open Fallible LittleEndian Slice Word

universe u

/-- Why a computation stops. -/
inductive Stop (ε : Type u)
  | error (e : ε)
  | fault

/-- A computation whose accesses and sums are checked. -/
abbrev Checked (ε : Type u) (α : Type) := Except (Stop ε) α

variable {ε : Type u} {α β : Type}

/-! ## Checked steps -/

def fail (e : ε) : Checked ε α := .error (.error e)

def refuse (c : Prop) [Decidable c] (e : ε) : Checked ε Unit := rejectIf c (.error e)

def checked (o : Option α) : Checked ε α := okOr .fault o

/-- `&xs[start..stop]`. -/
def index (xs : List α) (start stop : Nat) : Checked ε (List α) :=
  checked (if start ≤ stop ∧ stop ≤ xs.length then some (slice xs start (stop - start)) else none)

def add (a b : Nat) : Checked ε Nat := checked (checkedAdd a b)

def sub (a b : Nat) : Checked ε Nat := checked (checkedSub a b)

/-- The little-endian field of `width` bytes at `offset`. -/
def field (bytes : List UInt8) (width offset : Nat) : Checked ε Nat :=
  (fun part => fromLE part) <$> index bytes offset (offset + width)

section Values

variable {a b n : Nat} {xs ys : List α}

@[simp] theorem checked_eq_ok {o : Option α} {x : α} :
    (checked o : Checked ε α) = .ok x ↔ o = some x := okOr_eq_ok

theorem index_eq_ok {start stop : Nat} : (index xs start stop : Checked ε (List α)) = .ok ys ↔
    (start ≤ stop ∧ stop ≤ xs.length) ∧ slice xs start (stop - start) = ys := by
  unfold index
  rw [checked_eq_ok]
  by_cases hin : start ≤ stop ∧ stop ≤ xs.length
  · rw [if_pos hin]
    simp [hin]
  · rw [if_neg hin]
    simp [hin]

theorem add_eq_ok : (add a b : Checked ε Nat) = .ok n ↔ a + b < u64Limit ∧ a + b = n := by
  unfold add
  rw [checked_eq_ok, checkedAdd_eq_some]

theorem sub_eq_ok : (sub a b : Checked ε Nat) = .ok n ↔ b ≤ a ∧ a - b = n := by
  unfold sub
  rw [checked_eq_ok, checkedSub_eq_some]

theorem field_eq_ok {bytes : List UInt8} {width offset : Nat} :
    (field bytes width offset : Checked ε Nat) = .ok n ↔
      offset + width ≤ bytes.length ∧ leAt bytes offset width = n := by
  unfold field leAt
  rw [map_eq_pure_bind, bind_eq_ok]
  simp only [index_eq_ok, Nat.add_sub_cancel_left, Nat.le_add_right, true_and, pure_eq_ok,
    Except.ok.injEq]
  constructor
  · rintro ⟨part, ⟨hin, rfl⟩, hn⟩
    exact ⟨hin, hn⟩
  · rintro ⟨hin, hn⟩
    exact ⟨_, ⟨hin, rfl⟩, hn⟩

@[simp] theorem refuse_eq_ok {c : Prop} [Decidable c] {e : ε} {x : Unit} :
    refuse c e = .ok x ↔ ¬ c := rejectIf_eq_ok

@[simp] theorem fail_ne_ok {e : ε} {x : α} : (fail e : Checked ε α) ≠ .ok x :=
  fun h => by cases h

end Values

/-! ## Safety -/

/-- The computation does not fault. -/
def Safe (x : Checked ε α) : Prop := x ≠ .error .fault

theorem safe_ok (a : α) : Safe (.ok a : Checked ε α) := fun h => by cases h

theorem safe_fail (e : ε) : Safe (fail e : Checked ε α) := fun h => by cases h

theorem Safe.bind {x : Checked ε α} {f : α → Checked ε β} (hx : Safe x)
    (hf : ∀ a, x = .ok a → Safe (f a)) : Safe (x >>= f) := bind_ne_error hx hf

theorem safe_refuse (c : Prop) [Decidable c] (e : ε) : Safe (refuse c e) :=
  rejectIf_ne_error fun h => by cases h

theorem safe_of_eq_ok {x : Checked ε α} {a : α} (h : x = .ok a) : Safe x := h ▸ safe_ok a

theorem safe_add {a b : Nat} (h : a + b < u64Limit) : Safe (add a b : Checked ε Nat) :=
  safe_of_eq_ok (add_eq_ok.mpr ⟨h, rfl⟩)

theorem safe_sub {a b : Nat} (h : b ≤ a) : Safe (sub a b : Checked ε Nat) :=
  safe_of_eq_ok (sub_eq_ok.mpr ⟨h, rfl⟩)

theorem safe_index {xs : List α} {start stop : Nat} (h : start ≤ stop) (h' : stop ≤ xs.length) :
    Safe (index xs start stop : Checked ε (List α)) :=
  safe_of_eq_ok (index_eq_ok.mpr ⟨⟨h, h'⟩, rfl⟩)

theorem safe_field {bytes : List UInt8} {width offset : Nat} (h : offset + width ≤ bytes.length) :
    Safe (field bytes width offset : Checked ε Nat) :=
  safe_of_eq_ok (field_eq_ok.mpr ⟨h, rfl⟩)

theorem safe_ite {c : Prop} [Decidable c] {x y : Checked ε α} (hx : c → Safe x)
    (hy : ¬ c → Safe y) : Safe (if c then x else y) := by
  by_cases h : c
  · rw [if_pos h]
    exact hx h
  · rw [if_neg h]
    exact hy h

/-- A check in front of a computation. -/
theorem safe_refuse_bind {c : Prop} [Decidable c] {e : ε} {f : Unit → Checked ε β}
    (h : ¬ c → Safe (f ())) : Safe (refuse c e >>= f) :=
  (safe_refuse c e).bind fun _ hpassed => h (refuse_eq_ok.mp hpassed)

/-- A field in front of a computation. -/
theorem safe_field_bind {bytes : List UInt8} {width offset : Nat} {f : Nat → Checked ε β}
    (h : offset + width ≤ bytes.length) (hf : Safe (f (leAt bytes offset width))) :
    Safe (field bytes width offset >>= f) := by
  refine Safe.bind (safe_field h) fun n hn => ?_
  rw [← (field_eq_ok.mp hn).2]
  exact hf

end Faults
