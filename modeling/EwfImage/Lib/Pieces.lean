import Mathlib.Data.List.Basic
import Mathlib.Tactic.Common

/-!
# Lists in pieces

`pieces size xs` cuts a list into consecutive pieces of `size` items, the last one
possibly shorter. Cutting a concatenation cuts its parts when the first part fills
its pieces, so pieces can be taken while a list grows.

`flatten_pieces` puts the list together again, and `getElem?_pieces` says which items are in a
piece. `Taking` is a list of which full pieces have been taken while it grew, and `Cut` a list
that was cut in front of a place, for those who take a part of it at a time. The items are of
any type.
-/

namespace Pieces

variable {α : Type*}

/-- The pieces of a list; every turn takes at least one item, so the length bounds the turns. -/
def piecesFuel (size : Nat) : Nat → List α → List (List α)
  | 0, _ => []
  | fuel + 1, xs =>
    if xs = [] then [] else xs.take size :: piecesFuel size fuel (xs.drop size)

def pieces (size : Nat) (xs : List α) : List (List α) := piecesFuel size xs.length xs

theorem piecesFuel_eq {size fuel : Nat} {xs : List α} (hsize : 0 < size)
    (h : xs.length ≤ fuel) : piecesFuel size fuel xs = pieces size xs := by
  have hsame : ∀ n, xs.length ≤ n → ∀ m, xs.length ≤ m →
      piecesFuel size n xs = piecesFuel size m xs := by
    intro n
    induction n generalizing xs with
    | zero =>
      intro hn m _
      have hnil : xs = [] := List.length_eq_zero_iff.mp (Nat.le_zero.mp hn)
      subst hnil
      cases m with
      | zero => rfl
      | succ m => rw [piecesFuel, piecesFuel, if_pos rfl]
    | succ n ih =>
      intro hn m hm
      by_cases hnil : xs = []
      · subst hnil
        cases m with
        | zero => rw [piecesFuel, piecesFuel, if_pos rfl]
        | succ m => rw [piecesFuel, piecesFuel, if_pos rfl, if_pos rfl]
      · have hpos : 0 < xs.length := List.length_pos_iff.mpr hnil
        obtain ⟨m, rfl⟩ : ∃ k, m = k + 1 := ⟨m - 1, by omega⟩
        rw [piecesFuel, piecesFuel, if_neg hnil, if_neg hnil]
        congr 1
        have hdrop : (xs.drop size).length ≤ xs.length - 1 := by
          rw [List.length_drop]
          omega
        exact ih (by omega) (by omega) m (by omega)
  exact hsame fuel h xs.length (Nat.le_refl _)

@[simp] theorem pieces_nil (size : Nat) : pieces size ([] : List α) = [] := rfl

theorem pieces_of_ne_nil {size : Nat} {xs : List α} (hsize : 0 < size) (h : xs ≠ []) :
    pieces size xs = xs.take size :: pieces size (xs.drop size) := by
  have hpos : 0 < xs.length := List.length_pos_iff.mpr h
  obtain ⟨n, hn⟩ : ∃ k, xs.length = k + 1 := ⟨xs.length - 1, by omega⟩
  rw [pieces, hn, piecesFuel, if_neg h, piecesFuel_eq hsize]
  rw [List.length_drop]
  omega

theorem pieces_of_length_le {size : Nat} {xs : List α} (h : xs ≠ []) (hle : xs.length ≤ size) :
    pieces size xs = [xs] := by
  have hpos : 0 < xs.length := List.length_pos_iff.mpr h
  rw [pieces_of_ne_nil (by omega) h, List.take_of_length_le hle, List.drop_of_length_le hle,
    pieces_nil]

theorem flatten_pieces {size : Nat} (hsize : 0 < size) (xs : List α) :
    (pieces size xs).flatten = xs := by
  induction hn : xs.length using Nat.strongRecOn generalizing xs with
  | ind n ih =>
    by_cases h : xs = []
    · rw [h]
      rfl
    · have hpos : 0 < xs.length := List.length_pos_iff.mpr h
      have hlt : (xs.drop size).length < n := by
        rw [List.length_drop]
        omega
      rw [pieces_of_ne_nil hsize h, List.flatten_cons, ih _ hlt _ rfl, List.take_append_drop]

/-- The pieces of a concatenation behind filled pieces. -/
theorem pieces_append {size : Nat} (hsize : 0 < size) {xs : List α} (hfull : size ∣ xs.length)
    (ys : List α) : pieces size (xs ++ ys) = pieces size xs ++ pieces size ys := by
  induction hn : xs.length using Nat.strongRecOn generalizing xs with
  | ind n ih =>
    by_cases h : xs = []
    · rw [h]
      rfl
    · have hpos : 0 < xs.length := List.length_pos_iff.mpr h
      have hle : size ≤ xs.length := Nat.le_of_dvd hpos hfull
      have hlt : (xs.drop size).length < n := by
        rw [List.length_drop]
        omega
      have hdvd : size ∣ (xs.drop size).length := by
        rw [List.length_drop]
        exact Nat.dvd_sub hfull (Nat.dvd_refl size)
      rw [pieces_of_ne_nil hsize (by simp [h]), pieces_of_ne_nil hsize h,
        List.take_append_of_le_length hle, List.drop_append_of_le_length hle,
        ih _ hlt hdvd rfl]
      rfl

theorem ne_nil_of_mem_pieces {size : Nat} (hsize : 0 < size) {xs piece : List α}
    (h : piece ∈ pieces size xs) : piece ≠ [] ∧ piece.length ≤ size := by
  induction hn : xs.length using Nat.strongRecOn generalizing xs with
  | ind n ih =>
    by_cases hnil : xs = []
    · subst hnil
      cases h
    · have hpos : 0 < xs.length := List.length_pos_iff.mpr hnil
      rw [pieces_of_ne_nil hsize hnil, List.mem_cons] at h
      rcases h with rfl | h
      · refine ⟨fun htake => ?_, by rw [List.length_take]; omega⟩
        have hlen := congrArg List.length htake
        rw [List.length_take, List.length_nil] at hlen
        omega
      · have hlt : (xs.drop size).length < n := by
          rw [List.length_drop]
          omega
        exact ih _ hlt h rfl

theorem getElem?_pieces {size : Nat} (hsize : 0 < size) {xs piece : List α} {i : Nat}
    (h : (pieces size xs)[i]? = some piece) : piece = (xs.drop (i * size)).take size := by
  induction i generalizing xs with
  | zero =>
    by_cases hnil : xs = []
    · subst hnil
      cases h
    · rw [pieces_of_ne_nil hsize hnil, List.getElem?_cons_zero] at h
      rw [Nat.zero_mul, List.drop_zero]
      exact (Option.some.inj h).symm
  | succ i ih =>
    by_cases hnil : xs = []
    · subst hnil
      cases h
    · rw [pieces_of_ne_nil hsize hnil, List.getElem?_cons_succ] at h
      rw [ih h, List.drop_drop, Nat.succ_mul, Nat.add_comm size]

/-- The lengths of filled pieces. -/
theorem map_length_pieces {size : Nat} (hsize : 0 < size) {xs : List α} (hfull : size ∣ xs.length) :
    (pieces size xs).map List.length = List.replicate (xs.length / size) size := by
  induction hn : xs.length using Nat.strongRecOn generalizing xs with
  | ind n ih =>
    by_cases h : xs = []
    · subst h
      rw [← hn, List.length_nil, Nat.zero_div]
      rfl
    · have hpos : 0 < xs.length := List.length_pos_iff.mpr h
      have hle : size ≤ xs.length := Nat.le_of_dvd hpos hfull
      have hdrop : (xs.drop size).length = n - size := by rw [List.length_drop, hn]
      have hdvd : size ∣ (xs.drop size).length := by
        rw [List.length_drop]
        exact Nat.dvd_sub hfull (Nat.dvd_refl size)
      have hcount : n / size = (n - size) / size + 1 := by
        rw [← Nat.add_div_right _ hsize, Nat.sub_add_cancel (by omega)]
      rw [pieces_of_ne_nil hsize h, List.map_cons, ih _ (by omega) hdvd hdrop, hcount,
        List.replicate_succ, List.length_take, Nat.min_eq_left hle]

/-- Pieces that have been taken of `total` items, one after another. -/
structure Taking (size total : Nat) (taken : List (List α)) : Prop where
  pieces : pieces size taken.flatten = taken
  le : taken.flatten.length ≤ total
  full : taken.flatten.length = total ∨ size ∣ taken.flatten.length

theorem Taking.nil (size total : Nat) : Taking size total ([] : List (List α)) :=
  ⟨rfl, Nat.zero_le _, .inr (Nat.dvd_zero _)⟩

/-- The next piece is taken. -/
theorem Taking.push {size total : Nat} {taken : List (List α)} {piece : List α} (hsize : 0 < size)
    (h : Taking size total taken) (hlt : taken.flatten.length < total)
    (hpiece : piece.length = min (total - taken.flatten.length) size) :
    Taking size total (taken ++ [piece]) := by
  have hdvd : size ∣ taken.flatten.length := h.full.resolve_left (by omega)
  have hne : piece ≠ [] := by
    intro hnil
    rw [hnil, List.length_nil] at hpiece
    omega
  have hflatten : (taken ++ [piece]).flatten = taken.flatten ++ piece := by simp
  have hlength : (taken ++ [piece]).flatten.length = taken.flatten.length + piece.length := by
    rw [hflatten, List.length_append]
  refine ⟨?_, by omega, ?_⟩
  · rw [hflatten, pieces_append hsize hdvd, h.pieces, pieces_of_length_le hne (by omega)]
  · by_cases hlast : total - taken.flatten.length ≤ size
    · left
      omega
    · right
      rw [hlength, hpiece, Nat.min_eq_right (by omega)]
      exact Nat.dvd_add hdvd (Nat.dvd_refl size)

/-! ## Cutting while the list grows -/

/-- `xs` is filled pieces and a rest that does not fill one. -/
structure Cut (size : Nat) (xs : List α) (filled : List (List α)) (rest : List α) : Prop where
  split : xs = filled.flatten ++ rest
  filled : ∀ piece ∈ filled, piece.length = size
  rest : rest.length < size

variable {size : Nat} {xs ys rest rest' piece : List α} {filled filled' : List (List α)}

theorem Cut.short (h : xs.length < size) : Cut size xs [] xs :=
  ⟨rfl, fun _ hpiece => (by cases hpiece), h⟩

/-- What is appended is cut together with the rest. -/
theorem Cut.append (h : Cut size xs filled rest) (h' : Cut size (rest ++ ys) filled' rest') :
    Cut size (xs ++ ys) (filled ++ filled') rest' := by
  refine ⟨?_, fun piece hpiece => ?_, h'.rest⟩
  · rw [h.split, List.append_assoc, h'.split, List.flatten_append, List.append_assoc]
  · rcases List.mem_append.mp hpiece with hpiece | hpiece
    · exact h.filled piece hpiece
    · exact h'.filled piece hpiece

theorem exists_cut (hsize : 0 < size) (xs : List α) : ∃ filled rest, Cut size xs filled rest := by
  induction hn : xs.length using Nat.strongRecOn generalizing xs with
  | ind n ih =>
    by_cases hlt : xs.length < size
    · exact ⟨[], xs, .short hlt⟩
    · have hlength : (xs.take size).length = size := by
        rw [List.length_take]
        omega
      obtain ⟨filled, rest, hcut⟩ := ih (xs.drop size).length
        (by rw [List.length_drop]; omega) (xs.drop size) rfl
      refine ⟨xs.take size :: filled, rest, ?_, fun piece hpiece => ?_, hcut.rest⟩
      · rw [List.flatten_cons, List.append_assoc, ← hcut.split, List.take_append_drop]
      · rcases List.mem_cons.mp hpiece with rfl | hpiece
        · exact hlength
        · exact hcut.filled piece hpiece

/-- Filled pieces and a last one that need not be filled are the pieces of what they hold. -/
theorem pieces_flatten_append (hsize : 0 < size) (hfilled : ∀ piece ∈ filled, piece.length = size)
    (hrest : rest.length ≤ size) :
    pieces size (filled.flatten ++ rest) = filled ++ if rest = [] then [] else [rest] := by
  induction filled with
  | nil =>
    rw [List.flatten_nil, List.nil_append, List.nil_append]
    by_cases hnil : rest = []
    · rw [hnil]
      rfl
    · rw [if_neg hnil, pieces_of_length_le hnil hrest]
  | cons piece filled ih =>
    have hpiece := hfilled piece List.mem_cons_self
    have hne : piece ≠ [] := by
      rintro rfl
      simp at hpiece
      omega
    rw [List.flatten_cons, List.append_assoc, pieces_append hsize (hpiece ▸ Nat.dvd_refl _),
      pieces_of_length_le hne (Nat.le_of_eq hpiece),
      ih fun other hother => hfilled other (List.mem_cons_of_mem _ hother)]
    rfl

theorem Cut.length_filled (h : Cut size xs filled rest) :
    xs.length = filled.length * size + rest.length := by
  obtain ⟨hsplit, hfilled, _⟩ := h
  subst hsplit
  rw [List.length_append, List.length_flatten,
    List.map_congr_left (g := fun _ => size) hfilled]
  simp

end Pieces
