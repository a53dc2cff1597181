import Mathlib.Data.List.Basic
import Mathlib.Tactic.Common

/-!
# Spans that tile a range

A list of spans, each with a start and a size, tiles `[lo, hi)` when each span starts
where the one before it ends and none is empty. Every point of the range then lies in
exactly one span, which a search for the first span that ends behind the point finds.

`Tiles.append` puts two tilings together, `Tiles.exists_mem` and `Tiles.disjoint` say that each
point has one span, and `tiles_of_sorted` gets a tiling from spans in order that cover without
overlap. A span is given by two functions on any type.
-/

namespace Tiling

variable {α : Type*} (start size : α → Nat)

def Tiles : Nat → List α → Nat → Prop
  | lo, [], hi => lo = hi
  | lo, span :: spans, hi => start span = lo ∧ 0 < size span ∧ Tiles (lo + size span) spans hi

variable {start size} {lo hi point : Nat} {spans : List α} {span : α}

theorem Tiles.le (h : Tiles start size lo spans hi) : lo ≤ hi := by
  induction spans generalizing lo with
  | nil => exact Nat.le_of_eq h
  | cons first spans ih =>
    have hrest := ih h.2.2
    omega

theorem Tiles.append {xs ys : List α} {middle : Nat} (h : Tiles start size lo xs middle)
    (h' : Tiles start size middle ys hi) : Tiles start size lo (xs ++ ys) hi := by
  induction xs generalizing lo with
  | nil =>
    have heq : lo = middle := h
    rw [heq]
    exact h'
  | cons first xs ih => exact ⟨h.1, h.2.1, ih h.2.2⟩

theorem Tiles.bounds (h : Tiles start size lo spans hi) (hspan : span ∈ spans) :
    lo ≤ start span ∧ start span + size span ≤ hi := by
  induction spans generalizing lo with
  | nil => cases hspan
  | cons first spans ih =>
    obtain ⟨hstart, _, hrest⟩ := h
    have hle := hrest.le
    rcases List.mem_cons.mp hspan with rfl | hspan
    · omega
    · have hbounds := ih hrest hspan
      omega

/-- A search for the first span that ends behind a point finds the span around it. -/
theorem Tiles.find?_eq_some {behind : α → Bool} (h : Tiles start size lo spans hi)
    (hbehind : ∀ s ∈ spans, behind s = true ↔ point < start s + size s) (hspan : span ∈ spans)
    (hge : start span ≤ point) (hlt : point < start span + size span) :
    spans.find? behind = some span := by
  induction spans generalizing lo with
  | nil => cases hspan
  | cons first spans ih =>
    obtain ⟨hstart, _, hrest⟩ := h
    have hfirst := hbehind first List.mem_cons_self
    rcases List.mem_cons.mp hspan with rfl | hspan
    · rw [List.find?_cons_of_pos (hfirst.mpr hlt)]
    · have hbounds := hrest.bounds hspan
      have hbefore : ¬ behind first = true := fun hpast => by
        have hpoint := hfirst.mp hpast
        omega
      rw [List.find?_cons_of_neg hbefore]
      exact ih hrest (fun s hs => hbehind s (List.mem_cons_of_mem _ hs)) hspan

theorem Tiles.exists_mem (h : Tiles start size lo spans hi) (hge : lo ≤ point) (hlt : point < hi) :
    ∃ span ∈ spans, start span ≤ point ∧ point < start span + size span := by
  induction spans generalizing lo with
  | nil =>
    have heq : lo = hi := h
    omega
  | cons first spans ih =>
    obtain ⟨hstart, _, hrest⟩ := h
    by_cases hfirst : point < lo + size first
    · exact ⟨first, List.mem_cons_self, by omega, by omega⟩
    · obtain ⟨span, hspan, hbounds⟩ := ih hrest (by omega)
      exact ⟨span, List.mem_cons_of_mem _ hspan, hbounds⟩

/-! ## Which lists tile -/

variable (start size) in
/-- The point lies in the span. -/
def Within (point : Nat) (span : α) : Prop := start span ≤ point ∧ point < start span + size span

variable (start size) in
/-- No point lies in both spans. -/
def Disjoint (span other : α) : Prop :=
  ∀ point, ¬ (Within start size point span ∧ Within start size point other)

theorem Tiles.ordered (h : Tiles start size lo spans hi) :
    spans.Pairwise fun span other => start span + size span ≤ start other := by
  induction spans generalizing lo with
  | nil => exact List.Pairwise.nil
  | cons first spans ih =>
    obtain ⟨hstart, _, hrest⟩ := h
    refine List.pairwise_cons.mpr ⟨fun other hother => ?_, ih hrest⟩
    have hbounds := hrest.bounds hother
    omega

theorem Tiles.disjoint (h : Tiles start size lo spans hi) : spans.Pairwise (Disjoint start size) :=
  h.ordered.imp fun hle point ⟨hfirst, hlater⟩ => by
    have hend := hfirst.2
    have hbegin := hlater.1
    omega

theorem Tiles.exists_iff (h : Tiles start size lo spans hi) :
    (∃ span ∈ spans, Within start size point span) ↔ lo ≤ point ∧ point < hi := by
  constructor
  · rintro ⟨span, hspan, hstart, hend⟩
    have hbounds := h.bounds hspan
    omega
  · exact fun hin => h.exists_mem hin.1 hin.2

/-- Spans in order that are not empty, do not overlap and cover the range tile it. -/
theorem tiles_of_sorted (hsorted : spans.Pairwise fun span other => start span ≤ start other)
    (hsize : ∀ span ∈ spans, 0 < size span) (hdisjoint : spans.Pairwise (Disjoint start size))
    (hcover : ∀ point, (∃ span ∈ spans, Within start size point span) ↔ lo ≤ point ∧ point < hi)
    (hle : lo ≤ hi) : Tiles start size lo spans hi := by
  induction spans generalizing lo with
  | nil =>
    have hempty : ¬ (lo ≤ lo ∧ lo < hi) := fun hin => by
      obtain ⟨span, hspan, -⟩ := (hcover lo).mpr hin
      cases hspan
    change lo = hi
    omega
  | cons first spans ih =>
    rw [List.pairwise_cons] at hsorted hdisjoint
    have hpositive := hsize first List.mem_cons_self
    have hfirst : ∀ point, Within start size point first → lo ≤ point ∧ point < hi :=
      fun point hpoint => (hcover point).mp ⟨first, List.mem_cons_self, hpoint⟩
    have hbegin := hfirst (start first) ⟨Nat.le_refl _, by omega⟩
    have hend := hfirst (start first + size first - 1) ⟨by omega, by omega⟩
    have hstart : start first = lo := by
      -- the first point of the range lies in a span, none of which starts before the first one
      obtain ⟨span, hspan, hin⟩ := (hcover lo).mpr ⟨Nat.le_refl _, by omega⟩
      have hfound := hin.1
      rcases List.mem_cons.mp hspan with rfl | hlater
      · omega
      · have horder := hsorted.1 span hlater
        omega
    refine ⟨hstart, hpositive, ih hsorted.2 (fun span hspan => hsize span (List.mem_cons_of_mem _ hspan))
      hdisjoint.2 (fun point => ?_) (by omega)⟩
    constructor
    · rintro ⟨span, hspan, hin⟩
      have hrange := (hcover point).mp ⟨span, List.mem_cons_of_mem _ hspan, hin⟩
      refine ⟨?_, hrange.2⟩
      by_contra hlt
      exact hdisjoint.1 span hspan point ⟨⟨by omega, by omega⟩, hin⟩
    · rintro ⟨hge, hlt⟩
      obtain ⟨span, hspan, hin⟩ := (hcover point).mpr ⟨by omega, hlt⟩
      rcases List.mem_cons.mp hspan with rfl | hlater
      · have hbehind := hin.2
        omega
      · exact ⟨span, hlater, hin⟩

end Tiling
