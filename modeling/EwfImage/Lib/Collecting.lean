import EwfImage.Lib.Fallible
import Mathlib.Data.List.Perm.Basic

/-!
# Collecting results

Computations that run once for each element of a list and collect what they return. The results
of a permuted list are the permuted results (`mapM_perm`), and a loop that computes for an
element before it goes on is the computation of all results first (`foldlM_bind_eq_ok`).

The error type and the results are arbitrary. `mapM_eq_ok_iff` is the way from a collected list
to its elements: the results stand to the elements as the computation says, one for one, so
facts about one element carry over by `List.Forall₂`.
-/

namespace Fallible

universe u

variable {ε α β σ : Type u}

theorem mapM_cons_eq_ok {f : α → Except ε β} {x : α} {xs : List α} {results : List β} :
    (x :: xs).mapM f = .ok results ↔
      ∃ y ys, f x = .ok y ∧ xs.mapM f = .ok ys ∧ results = y :: ys := by
  rw [List.mapM_cons]
  simp only [bind_eq_ok, pure_eq_ok, Except.ok.injEq]
  constructor
  · rintro ⟨y, hy, ys, hys, rfl⟩
    exact ⟨y, ys, hy, hys, rfl⟩
  · rintro ⟨y, ys, hy, hys, rfl⟩
    exact ⟨y, hy, ys, hys, rfl⟩

theorem mapM_append_eq_ok {f : α → Except ε β} {xs xs' : List α} {results : List β} :
    (xs ++ xs').mapM f = .ok results ↔
      ∃ ys ys', xs.mapM f = .ok ys ∧ xs'.mapM f = .ok ys' ∧ results = ys ++ ys' := by
  rw [List.mapM_append]
  simp only [bind_eq_ok, pure_eq_ok, Except.ok.injEq]
  constructor
  · rintro ⟨ys, hys, ys', hys', rfl⟩
    exact ⟨ys, ys', hys, hys', rfl⟩
  · rintro ⟨ys, ys', hys, hys', rfl⟩
    exact ⟨ys, hys, ys', hys', rfl⟩

theorem mapM_eq_ok_iff {f : α → Except ε β} {xs : List α} {ys : List β} :
    xs.mapM f = .ok ys ↔ List.Forall₂ (fun x y => f x = .ok y) xs ys := by
  induction xs generalizing ys with
  | nil =>
    rw [List.forall₂_nil_left_iff, List.mapM_nil, pure_eq_ok, Except.ok.injEq]
    exact eq_comm
  | cons x xs ih =>
    rw [mapM_cons_eq_ok, List.forall₂_cons_left_iff]
    constructor
    · rintro ⟨y, ys, hy, hys, rfl⟩
      exact ⟨y, ys, hy, ih.mp hys, rfl⟩
    · rintro ⟨y, ys, hy, hys, rfl⟩
      exact ⟨y, ys, hy, ih.mpr hys, rfl⟩

/-- The result at a position is that of the element there. -/
theorem getElem?_of_mapM_eq_ok {f : α → Except ε β} {xs : List α} {ys : List β}
    (h : xs.mapM f = .ok ys) {i : Nat} {y : β} (hi : ys[i]? = some y) :
    ∃ x, xs[i]? = some x ∧ f x = .ok y := by
  induction xs generalizing ys i with
  | nil =>
    cases h
    cases hi
  | cons x xs ih =>
    obtain ⟨first, rest, hfirst, hrest, rfl⟩ := mapM_cons_eq_ok.mp h
    cases i with
    | zero =>
      obtain rfl := Option.some.inj hi
      exact ⟨x, rfl, hfirst⟩
    | succ i => exact ih hrest hi

theorem mapM_perm {f : α → Except ε β} {xs xs' : List α} (h : xs.Perm xs') {ys : List β}
    (hys : xs.mapM f = .ok ys) : ∃ ys', xs'.mapM f = .ok ys' ∧ ys.Perm ys' := by
  obtain ⟨ys', hall, hperm⟩ := List.perm_comp_forall₂ h.symm (mapM_eq_ok_iff.mp hys)
  exact ⟨ys', mapM_eq_ok_iff.mpr hall, hperm.symm⟩

/-- A loop that goes on with the list of entries of each element. -/
theorem foldlM_bind_eq_ok {f : α → Except ε (List β)} {g : σ → β → Except ε σ} {xs : List α}
    {start result : σ} :
    xs.foldlM (fun state x => f x >>= fun ys => ys.foldlM g state) start = .ok result ↔
      ∃ results, xs.mapM f = .ok results ∧ results.flatten.foldlM g start = .ok result := by
  induction xs generalizing start with
  | nil =>
    simp only [List.foldlM_nil, List.mapM_nil, pure_eq_ok, Except.ok.injEq, exists_eq_left',
      List.flatten_nil]
  | cons x xs ih =>
    rw [List.foldlM_cons, bind_eq_ok]
    constructor
    · rintro ⟨middle, hfirst, hrest⟩
      obtain ⟨y, hy, hfold⟩ := bind_eq_ok.mp hfirst
      obtain ⟨ys, hys, hresult⟩ := ih.mp hrest
      refine ⟨y :: ys, mapM_cons_eq_ok.mpr ⟨y, ys, hy, hys, rfl⟩, ?_⟩
      rw [List.flatten_cons, List.foldlM_append, hfold]
      exact hresult
    · rintro ⟨results, hresults, hresult⟩
      obtain ⟨y, ys, hy, hys, rfl⟩ := mapM_cons_eq_ok.mp hresults
      rw [List.flatten_cons, List.foldlM_append, bind_eq_ok] at hresult
      obtain ⟨middle, hfold, hrest⟩ := hresult
      exact ⟨middle, bind_eq_ok.mpr ⟨y, hy, hfold⟩, ih.mpr ⟨ys, hys, hrest⟩⟩

end Fallible
