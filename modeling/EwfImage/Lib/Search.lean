import Mathlib.Data.List.Basic
import Mathlib.Tactic.Common

/-!
# Binary search

A predicate partitions a list when it holds of a first part of the list and of nothing behind
that. A binary search then finds where the part ends: it keeps two bounds, with the predicate
true in front of the lower one and false from the upper one on.

The main result is `partitionPoint_spec`: an element is in the first part exactly when its place
is in front of the point. The search is written with its two bounds as the standard library has
it, so a list that the predicate does not partition has a point, too, about which nothing is
said.
-/

namespace Search

variable {α : Type*} {p : α → Bool} {xs : List α}

/-- The predicate is true of a first part of the list, and false behind it. -/
def Partitions (p : α → Bool) (xs : List α) : Prop :=
  xs.Pairwise fun a b => p b = true → p a = true

/-- The search between two bounds; every turn at least halves what is between them. -/
def search (p : α → Bool) (xs : List α) : Nat → Nat → Nat → Nat
  | 0, low, _ => low
  | fuel + 1, low, high =>
    if low < high then
      let middle := (low + high) / 2
      if xs[middle]?.any p then search p xs fuel (middle + 1) high
      else search p xs fuel low middle
    else low

/-- The length of the first part of the list. -/
def partitionPoint (p : α → Bool) (xs : List α) : Nat := search p xs xs.length 0 xs.length

theorem Partitions.of_le (h : Partitions p xs) {i j : Nat} {a b : α} (hle : i ≤ j)
    (ha : xs[i]? = some a) (hb : xs[j]? = some b) (hp : p b = true) : p a = true := by
  rcases Nat.lt_or_eq_of_le hle with hlt | rfl
  · obtain ⟨hj, hb⟩ := List.getElem?_eq_some_iff.mp hb
    obtain ⟨hi, ha⟩ := List.getElem?_eq_some_iff.mp ha
    have hpair := List.pairwise_iff_getElem.mp h i j hi hj hlt
    rw [ha, hb] at hpair
    exact hpair hp
  · rw [ha] at hb
    cases hb
    exact hp

theorem search_spec (h : Partitions p xs) {fuel low high : Nat} (hlow : ∀ i a, xs[i]? = some a →
      i < low → p a = true) (hhigh : ∀ i a, xs[i]? = some a → high ≤ i → p a = false)
    (hle : low ≤ high) (hlength : high ≤ xs.length) (hfuel : high ≤ low + fuel) {i : Nat} {a : α}
    (ha : xs[i]? = some a) : p a = true ↔ i < search p xs fuel low high := by
  have hdone : low = high → (p a = true ↔ i < low) := by
    intro hsame
    constructor
    · intro hp
      by_contra hge
      have hfalse := hhigh i a ha (by omega)
      rw [hp] at hfalse
      cases hfalse
    · exact hlow i a ha
  induction fuel generalizing low high with
  | zero => exact hdone (by omega)
  | succ fuel ih =>
    unfold search
    by_cases hmore : low < high
    · rw [if_pos hmore]
      dsimp only
      have hmiddle : (low + high) / 2 < xs.length := by omega
      have hitem := List.getElem?_eq_getElem hmiddle
      rw [hitem, Option.any_some]
      by_cases hp : p xs[(low + high) / 2] = true
      · rw [if_pos hp]
        refine ih (fun j b hb hj => ?_) hhigh (by omega) hlength (by omega) ?_
        · exact h.of_le (show j ≤ (low + high) / 2 by omega) hb hitem hp
        · intro hsame
          refine ⟨fun hpa => ?_, fun hi => h.of_le (show i ≤ (low + high) / 2 by omega) ha hitem hp⟩
          by_contra hge
          have hfalse := hhigh i a ha (by omega)
          rw [hpa] at hfalse
          cases hfalse
      · rw [if_neg hp]
        have hbehind : ∀ j b, xs[j]? = some b → (low + high) / 2 ≤ j → p b = false := by
          intro j b hb hj
          cases hpb : p b with
          | false => rfl
          | true => exact absurd (h.of_le hj hitem hb hpb) hp
        refine ih hlow hbehind (by omega) (by omega) (by omega) ?_
        intro hsame
        refine ⟨fun hpa => ?_, hlow i a ha⟩
        by_contra hge
        have hfalse := hbehind i a ha (by omega)
        rw [hpa] at hfalse
        cases hfalse
    · rw [if_neg hmore]
      exact hdone (by omega)

/-- The predicate is true exactly in front of the partition point. -/
theorem partitionPoint_spec (h : Partitions p xs) {i : Nat} {a : α} (ha : xs[i]? = some a) :
    p a = true ↔ i < partitionPoint p xs := by
  refine search_spec h (fun _ _ _ hlt => absurd hlt (Nat.not_lt_zero _)) (fun j b hb hj => ?_)
    (Nat.zero_le _) (Nat.le_refl _) (by omega) ha
  rw [List.getElem?_eq_none hj] at hb
  cases hb

/-- The partition point is the place of an item that is the first one with a false predicate. -/
theorem partitionPoint_eq (h : Partitions p xs) {i : Nat} {a : α} (ha : xs[i]? = some a)
    (hfalse : p a = false) (hbefore : ∀ j b, xs[j]? = some b → j < i → p b = true) :
    partitionPoint p xs = i := by
  have hle : partitionPoint p xs ≤ i := by
    by_contra hlt
    rw [(partitionPoint_spec h ha).mpr (by omega)] at hfalse
    cases hfalse
  refine Nat.le_antisymm hle ?_
  by_contra hlt
  have hin : partitionPoint p xs < xs.length := by
    have hi := (List.getElem?_eq_some_iff.mp ha).1
    omega
  have hitem := List.getElem?_eq_getElem hin
  have hp := hbefore _ _ hitem (by omega)
  exact Nat.lt_irrefl _ ((partitionPoint_spec h hitem).mp hp)

end Search
