import EwfImage.Lib.ByteStore
import EwfImage.Lib.Fallible
import EwfImage.Lib.Slice

/-!
# Reads from partial stores

A partial store has an item at some positions and none at others. A read of a range
`Delivers` the store when it returns the items of the range and fails exactly when one of
them is undefined. Reads that deliver consecutive ranges deliver the range they make up,
so a loop that reads piece by piece delivers the whole.

The main rules are `Delivers.append`, which puts two reads together, and `delivers_pieceLoop`,
the loop. The error of a failing read is not determined, so a store says that a read fails and
not how. Items and errors are of any type, and a store need not be finite.
-/

namespace Delivery

open ByteStore Fallible Slice

universe u

variable {α ε : Type u} {f g : Nat → Option α} {offset length m n : Nat}
  {r r' : Except ε (List α)} {items : List α}

/-- The read returns the items of a range, and fails when one of them is undefined. -/
def Delivers (f : Nat → Option α) (offset length : Nat) (r : Except ε (List α)) : Prop :=
  ∀ items : List α, r = .ok items ↔ window f offset length = items.map some

theorem map_some_injective : Function.Injective (List.map (some : α → Option α)) :=
  List.map_injective_iff.mpr (Option.some_injective α)

theorem exists_map_some {xs : List (Option α)} (h : none ∉ xs) :
    ∃ items : List α, xs = items.map some := by
  induction xs with
  | nil => exact ⟨[], rfl⟩
  | cons x xs ih =>
    simp only [List.mem_cons, not_or] at h
    obtain ⟨items, hitems⟩ := ih h.2
    cases x with
    | none => exact absurd rfl h.1
    | some a => exact ⟨a :: items, by rw [hitems, List.map_cons]⟩

theorem none_mem_window :
    none ∈ window f offset length ↔ ∃ i, i < length ∧ f (offset + i) = none := by
  simp only [window, List.mem_map, List.mem_range]

theorem delivers_ok (h : window f offset length = items.map some) :
    Delivers f offset length (.ok items : Except ε (List α)) := by
  intro other
  rw [h, map_some_injective.eq_iff]
  exact ⟨Except.ok.inj, congrArg _⟩

theorem delivers_error {e : ε} {i : Nat} (hlt : i < length) (h : f (offset + i) = none) :
    Delivers f offset length (.error e : Except ε (List α)) := by
  intro items
  refine ⟨fun hok => (by cases hok), fun hwindow => ?_⟩
  have hnone : none ∈ items.map some := hwindow ▸ none_mem_window.mpr ⟨i, hlt, h⟩
  simp at hnone

theorem Delivers.congr (h : Delivers f offset length r)
    (heq : ∀ i, i < length → f (offset + i) = g (offset + i)) : Delivers g offset length r := by
  intro items
  rw [h items]
  have hwindow : window f offset length = window g offset length :=
    List.map_congr_left fun i hi => heq i (List.mem_range.mp hi)
  rw [hwindow]

/-- A store at other positions. -/
theorem Delivers.shift {start : Nat} (h : Delivers f start length r)
    (heq : ∀ i, i < length → f (start + i) = g (offset + i)) : Delivers g offset length r := by
  intro items
  rw [h items]
  have hwindow : window f start length = window g offset length :=
    List.map_congr_left fun i hi => heq i (List.mem_range.mp hi)
  rw [hwindow]

theorem Delivers.length_eq (h : Delivers f offset length r) (hok : r = .ok items) :
    items.length = length := by
  have hwindow := congrArg List.length ((h items).mp hok)
  rw [length_window, List.length_map] at hwindow
  exact hwindow.symm

theorem Delivers.error_iff (h : Delivers f offset length r) :
    (∃ e, r = .error e) ↔ ∃ i, i < length ∧ f (offset + i) = none := by
  rw [← none_mem_window]
  constructor
  · rintro ⟨e, rfl⟩
    by_contra hall
    obtain ⟨items, hitems⟩ := exists_map_some hall
    cases (h items).mpr hitems
  · intro hnone
    cases hr : r with
    | error e => exact ⟨e, rfl⟩
    | ok items =>
      rw [(h items).mp hr] at hnone
      simp at hnone

/-- A range whose items are all defined, item by item. -/
theorem window_eq_map_some : window f offset length = items.map some ↔
    items.length = length ∧ ∀ i, i < length → f (offset + i) = items[i]? := by
  constructor
  · intro hwindow
    have hlength : items.length = length := by
      have hcount := congrArg List.length hwindow
      rw [length_window, List.length_map] at hcount
      exact hcount.symm
    refine ⟨hlength, fun i hi => ?_⟩
    have hitem := congrArg (fun found : List (Option α) => found[i]?) hwindow
    have hin : i < (window f offset length).length := by
      rw [length_window]
      exact hi
    simp only [List.getElem?_map] at hitem
    rw [List.getElem?_eq_getElem hin, getElem_window,
      List.getElem?_eq_getElem (hlength.symm ▸ hi)] at hitem
    rw [List.getElem?_eq_getElem (hlength.symm ▸ hi)]
    exact Option.some.inj hitem
  · rintro ⟨rfl, hitems⟩
    refine List.ext_getElem (by simp) fun i hi _ => ?_
    rw [length_window] at hi
    simp only [getElem_window, List.getElem_map]
    rw [hitems i hi, List.getElem?_eq_getElem hi]

/-- The items that were read are those of the store. -/
theorem Delivers.getElem? (h : Delivers f offset length (.ok items : Except ε (List α))) {i : Nat}
    (hlt : i < length) : f (offset + i) = items[i]? :=
  (window_eq_map_some.mp ((h items).mp rfl)).2 i hlt

/-- Consecutive reads make up one read. -/
theorem Delivers.append (h : Delivers f offset m r) (h' : Delivers f (offset + m) n r') :
    Delivers f offset (m + n) (r >>= fun xs => r' >>= fun ys => .ok (xs ++ ys)) := by
  cases hr : r with
  | error e =>
    obtain ⟨i, hlt, hnone⟩ := h.error_iff.mp ⟨e, hr⟩
    exact delivers_error (by omega) hnone
  | ok xs =>
    rw [ok_bind]
    cases hr' : r' with
    | error e =>
      obtain ⟨i, hlt, hnone⟩ := h'.error_iff.mp ⟨e, hr'⟩
      rw [Nat.add_assoc] at hnone
      exact delivers_error (i := m + i) (by omega) hnone
    | ok ys =>
      rw [ok_bind]
      refine delivers_ok ?_
      rw [← window_append, (h xs).mp hr, (h' ys).mp hr', List.map_append]

theorem delivers_replicate {a : α} (h : ∀ i, i < length → f (offset + i) = some a) :
    Delivers f offset length (.ok (List.replicate length a) : Except ε (List α)) := by
  refine delivers_ok (List.ext_getElem (by simp) fun i hi _ => ?_)
  rw [length_window] at hi
  simp only [getElem_window, List.map_replicate, List.getElem_replicate]
  exact h i hi

/-- A part of a list delivers the list. -/
theorem delivers_slice {bytes : List α} {start : Nat} (hfits : start + length ≤ bytes.length)
    (h : ∀ i, i < length → f (offset + i) = bytes[start + i]?) :
    Delivers f offset length (.ok (slice bytes start length) : Except ε (List α)) := by
  have hlength : (slice bytes start length).length = length := length_slice_of_le hfits
  refine delivers_ok (List.ext_getElem ?_ fun i hi _ => ?_)
  · rw [length_window, List.length_map, hlength]
  · rw [length_window] at hi
    have hlt : start + i < bytes.length := by omega
    simp only [getElem_window, List.getElem_map, slice, List.getElem_take, List.getElem_drop]
    rw [h i hi, List.getElem?_eq_getElem hlt]

/-- A read inside a range that was read returns a part of what was read. -/
theorem Delivers.eq_slice {start n : Nat}
    (h : Delivers f offset length (.ok items : Except ε (List α)))
    (hpart : Delivers f (offset + start) n r) (hfits : start + n ≤ length) :
    r = .ok (slice items start n) := by
  have hlength : items.length = length := h.length_eq rfl
  have hslice : Delivers f (offset + start) n (.ok (slice items start n) : Except ε (List α)) := by
    refine delivers_slice (by omega) fun i hi => ?_
    rw [Nat.add_assoc]
    exact h.getElem? (by omega)
  exact (hpart _).mpr ((hslice _).mp rfl)

/-- A read of at least an item may check that it returned one. -/
theorem Delivers.nonempty {α ε : Type} [DecidableEq α] {f : Nat → Option α}
    {r : Except ε (List α)} (h : Delivers f offset length r) (hlength : 0 < length) (e : ε) :
    Delivers f offset length (r >>= fun items => rejectIf (items = []) e >>= fun _ => .ok items) := by
  cases hr : r with
  | error e' =>
    obtain ⟨i, hlt, hnone⟩ := h.error_iff.mp ⟨e', hr⟩
    exact delivers_error hlt hnone
  | ok items =>
    have hcount := h.length_eq hr
    have hne : items ≠ [] := by
      intro hnil
      rw [hnil, List.length_nil] at hcount
      omega
    rw [ok_bind, rejectIf_neg _ hne, ok_bind, ← hr]
    exact h

/-! ## Reading piece by piece -/

/-- A loop that appends pieces until there are `length` items. -/
def pieceLoop (next : Nat → Except ε (List α)) (length : Nat) :
    Nat → List α → Except ε (List α)
  | 0, done => .ok done
  | fuel + 1, done =>
    if done.length < length then
      next done.length >>= fun piece => pieceLoop next length fuel (done ++ piece)
    else .ok done

/-- If every turn delivers a piece of the store, the loop delivers the whole range. -/
theorem delivers_pieceLoop {next : Nat → Except ε (List α)} {fuel : Nat} {done : List α}
    (hnext : ∀ position, position < length → ∃ take, 0 < take ∧ position + take ≤ length ∧
      Delivers f (offset + position) take (next position))
    (hdone : window f offset done.length = done.map some) (hle : done.length ≤ length)
    (hfuel : length ≤ done.length + fuel) :
    Delivers f offset length (pieceLoop next length fuel done) := by
  induction fuel generalizing done with
  | zero =>
    have hlength : done.length = length := by omega
    exact delivers_ok (hlength ▸ hdone)
  | succ fuel ih =>
    unfold pieceLoop
    by_cases hmore : done.length < length
    · rw [if_pos hmore]
      obtain ⟨take, htake, hfits, hpiece⟩ := hnext done.length hmore
      cases hr : next done.length with
      | error e =>
        obtain ⟨i, hlt, hnone⟩ := hpiece.error_iff.mp ⟨e, hr⟩
        rw [Nat.add_assoc] at hnone
        exact delivers_error (i := done.length + i) (by omega) hnone
      | ok piece =>
        have hlength := hpiece.length_eq hr
        rw [ok_bind]
        refine ih ?_ ?_ ?_
        · rw [List.length_append, ← window_append, hdone, hlength, (hpiece piece).mp hr,
            List.map_append]
        · rw [List.length_append]
          omega
        · rw [List.length_append]
          omega
    · rw [if_neg hmore]
      have hlength : done.length = length := by omega
      exact delivers_ok (hlength ▸ hdone)

end Delivery
