import Mathlib.Data.List.Basic
import Mathlib.Tactic.Common

/-!
# Sparse stores

A store of items is either a function on all positions or a finite list that
reads as a default item past its end. `overlay` is the abstract write, `writeAt`
the write on lists that fills a gap with the default, and `contents_writeAt`
says that the second computes the first. A `window` is a finite range of a store;
the window lemmas say when a write leaves a range alone and when it determines it.

The items are of any type with a chosen default. A development that keeps a file or a buffer as
a list states what it does as an `overlay` and reads ranges as windows; nothing here knows about
offsets being in order, so writes may go backwards, overlap and leave gaps.
-/

namespace ByteStore

variable {α : Type*}

/-- The `len` items from position `off`. -/
def window (f : Nat → α) (off len : Nat) : List α := (List.range len).map fun i => f (off + i)

/-- The store `f` after writing `data` at `off`: the last write wins. -/
def overlay (f : Nat → α) (off : Nat) (data : List α) : Nat → α := fun i =>
  if off ≤ i then (data[i - off]?).getD (f i) else f i

/-- A list as a store that reads `z` past its end. -/
def contents (z : α) (xs : List α) : Nat → α := fun i => xs.getD i z

/-- Write `data` at `off`, filling a gap before it with `z`. -/
def writeAt (z : α) (xs : List α) (off : Nat) (data : List α) : List α :=
  if data = [] then xs
  else (xs ++ List.replicate (off - xs.length) z).take off ++ data ++ xs.drop (off + data.length)

@[simp] theorem length_window (f : Nat → α) (off len : Nat) :
    (window f off len).length = len := by
  simp [window]

@[simp] theorem getElem_window (f : Nat → α) (off len i : Nat)
    (h : i < (window f off len).length) : (window f off len)[i] = f (off + i) := by
  simp [window]

theorem window_congr {f g : Nat → α} {off len : Nat}
    (h : ∀ i, off ≤ i → i < off + len → f i = g i) : window f off len = window g off len := by
  apply List.ext_getElem (by simp)
  intro i hi _
  simp only [length_window] at hi
  simpa using h (off + i) (by omega) (by omega)

theorem window_append (f : Nat → α) (off m n : Nat) :
    window f off m ++ window f (off + m) n = window f off (m + n) := by
  simp only [window, List.range_add, List.map_append, List.map_map]
  congr 1
  apply List.map_congr_left
  intro i _
  simp [Nat.add_assoc]

theorem window_eq_of_length {f : Nat → α} {off : Nat} {data : List α}
    (h : ∀ i (hi : i < data.length), f (off + i) = data[i]) :
    window f off data.length = data := by
  apply List.ext_getElem (by simp)
  intro i _ hi
  simpa using h i hi

theorem overlay_nil (f : Nat → α) (off : Nat) : overlay f off [] = f := by
  funext i
  simp [overlay]

theorem overlay_of_lt (f : Nat → α) {off i : Nat} (data : List α) (h : i < off) :
    overlay f off data i = f i := by
  simp [overlay, Nat.not_le.mpr h]

theorem overlay_of_ge (f : Nat → α) {off i : Nat} (data : List α) (h : off + data.length ≤ i) :
    overlay f off data i = f i := by
  have hn : data[i - off]? = none := List.getElem?_eq_none (by omega)
  simp [overlay, hn]

theorem overlay_inside (f : Nat → α) (off i : Nat) (data : List α) (h : i < data.length) :
    overlay f off data (off + i) = data[i] := by
  simp [overlay, List.getElem?_eq_getElem h]

/-- A range that ends before the write or starts after it is unchanged. -/
theorem window_overlay_disjoint (f : Nat → α) {off o n : Nat} (data : List α)
    (h : o + n ≤ off ∨ off + data.length ≤ o) :
    window (overlay f off data) o n = window f o n := by
  apply window_congr
  intro i hi hin
  rcases h with h | h
  · exact overlay_of_lt f data (by omega)
  · exact overlay_of_ge f data (by omega)

theorem window_overlay_self (f : Nat → α) (off : Nat) (data : List α) :
    window (overlay f off data) off data.length = data :=
  window_eq_of_length fun i hi => overlay_inside f off i data hi

@[simp] theorem contents_nil (z : α) : contents z [] = fun _ => z := by
  funext i
  simp [contents]

theorem contents_of_ge (z : α) {xs : List α} {i : Nat} (h : xs.length ≤ i) :
    contents z xs i = z := by
  simp [contents, List.getElem?_eq_none h]

theorem contents_writeAt (z : α) (xs : List α) (off : Nat) (data : List α) :
    contents z (writeAt z xs off data) = overlay (contents z xs) off data := by
  by_cases hd : data = []
  · simp [writeAt, hd, overlay_nil]
  funext i
  have hpre : ((xs ++ List.replicate (off - xs.length) z).take off).length = off := by
    simp only [List.length_take, List.length_append, List.length_replicate]
    omega
  simp only [contents, writeAt, if_neg hd, List.getD_eq_getElem?_getD]
  rcases Nat.lt_or_ge i off with hi | hi
  · rw [overlay_of_lt _ _ hi, List.append_assoc, List.getElem?_append_left (by omega),
      List.getElem?_take_of_lt hi]
    rcases Nat.lt_or_ge i xs.length with hx | hx
    · rw [List.getElem?_append_left hx]
      exact List.getD_eq_getElem?_getD.symm
    · rw [List.getElem?_append_right hx, List.getElem?_replicate, contents_of_ge z hx]
      split
      · rfl
      · rfl
  · rcases Nat.lt_or_ge i (off + data.length) with hj | hj
    · rw [List.getElem?_append_left (by simp only [List.length_append, hpre]; omega),
        List.getElem?_append_right (by omega), hpre]
      have hlt : i - off < data.length := by omega
      simp [overlay, hi, List.getElem?_eq_getElem hlt]
    · rw [overlay_of_ge _ _ hj,
        List.getElem?_append_right (by simp only [List.length_append, hpre]; omega),
        List.getElem?_drop]
      simp only [List.length_append, hpre]
      congr 2
      omega

/-- Reading a list with the default past its end. -/
theorem window_contents (z : α) (xs : List α) (off len : Nat) :
    window (contents z xs) off len =
      (xs.drop off).take len ++ List.replicate (len - (xs.length - off)) z := by
  apply List.ext_getElem
  · simp only [length_window, List.length_append, List.length_take, List.length_drop,
      List.length_replicate]
    omega
  intro i hi _
  simp only [length_window] at hi
  rw [getElem_window]
  rcases Nat.lt_or_ge (off + i) xs.length with hx | hx
  · rw [List.getElem_append_left (by simp only [List.length_take, List.length_drop]; omega)]
    simp [contents, List.getElem?_eq_getElem hx]
  · rw [contents_of_ge z hx, List.getElem_append_right
      (by simp only [List.length_take, List.length_drop]; omega)]
    simp

end ByteStore
