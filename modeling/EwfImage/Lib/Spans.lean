import Mathlib.Data.List.Basic
import Mathlib.Tactic.Common

/-!
# Separated spans

A span reaches from a first number up to its stop. Spans are separated when they are in
order with a gap between any two of them: they neither overlap nor touch. What a list of
spans reaches determines the separated list that reaches the same, so that merging gives
the same spans in whatever order they come.

The main result is `eq_of_reaches`: two separated lists that reach the same are the same.
Distances are doubled in `Reaches`, so that touching spans count as one and a gap of one number
keeps them apart. A span is given by two functions on any type, so that it may carry other data.
-/

namespace Spans

universe u

variable {α : Type u} (first stop : α → Nat)

/-- In order, with a gap between any two. -/
def Separated (spans : List α) : Prop := spans.Pairwise fun a b => stop a < first b

/-- The number lies in one of the spans. -/
def Covers (spans : List α) (n : Nat) : Prop := ∃ a ∈ spans, first a ≤ n ∧ n < stop a

/-- The half number lies in one of the spans or on a border. A gap has a half number that is
not reached, also a gap of one number. -/
def Reaches (spans : List α) (half : Nat) : Prop :=
  ∃ a ∈ spans, 2 * first a ≤ half ∧ half ≤ 2 * stop a

variable {first stop} {spans spans' : List α} {a b c : α} {n : Nat}

theorem reaches_cons : Reaches first stop (a :: spans) n ↔
    (2 * first a ≤ n ∧ n ≤ 2 * stop a) ∨ Reaches first stop spans n := by
  simp only [Reaches, List.mem_cons, exists_eq_or_imp]

theorem covers_append : Covers first stop (spans ++ spans') n ↔
    Covers first stop spans n ∨ Covers first stop spans' n := by
  simp only [Covers, List.mem_append, or_and_right, exists_or]

theorem reaches_append : Reaches first stop (spans ++ spans') n ↔
    Reaches first stop spans n ∨ Reaches first stop spans' n := by
  simp only [Reaches, List.mem_append, or_and_right, exists_or]

theorem covers_congr (h : spans.Perm spans') :
    Covers first stop spans n ↔ Covers first stop spans' n := by
  simp only [Covers, h.mem_iff]

theorem reaches_congr (h : spans.Perm spans') :
    Reaches first stop spans n ↔ Reaches first stop spans' n := by
  simp only [Reaches, h.mem_iff]

/-! ## Merging with the last span -/

/-- The last span takes in a span that starts in it or at its border. -/
theorem Separated.extend (h : Separated first stop (spans ++ [a])) (hfirst : first c = first a) :
    Separated first stop (spans ++ [c]) := by
  obtain ⟨hspans, -, hlast⟩ := List.pairwise_append.mp h
  refine List.pairwise_append.mpr ⟨hspans, List.pairwise_singleton _ _, fun b hb d hd => ?_⟩
  rw [List.mem_singleton.mp hd, hfirst]
  exact hlast b hb a List.mem_cons_self

theorem Separated.snoc (h : Separated first stop (spans ++ [a])) (hlt : stop a < first b)
    (hle : ∀ d ∈ spans ++ [a], first d ≤ stop d) : Separated first stop (spans ++ [a] ++ [b]) := by
  obtain ⟨-, -, hlast⟩ := List.pairwise_append.mp h
  refine List.pairwise_append.mpr ⟨h, List.pairwise_singleton _ _, fun d hd e he => ?_⟩
  rw [List.mem_singleton.mp he]
  rcases List.mem_append.mp hd with hd | hd
  · have hbefore := hlast d hd a List.mem_cons_self
    have ha := hle a (List.mem_append_right _ List.mem_cons_self)
    omega
  · rw [List.mem_singleton.mp hd]
    exact hlt

theorem covers_extend (hfirst : first c = first a) (hstop : stop c = max (stop b) (stop a))
    (hab : first a ≤ first b) (hba : first b ≤ stop a) :
    Covers first stop (spans ++ [c]) n ↔ Covers first stop (spans ++ [a] ++ [b]) n := by
  simp only [covers_append, or_assoc]
  refine or_congr_right ?_
  simp only [Covers, List.mem_singleton, exists_eq_left, hfirst, hstop]
  omega

theorem reaches_extend (hfirst : first c = first a) (hstop : stop c = max (stop b) (stop a))
    (hab : first a ≤ first b) (hba : first b ≤ stop a) :
    Reaches first stop (spans ++ [c]) n ↔ Reaches first stop (spans ++ [a] ++ [b]) n := by
  simp only [reaches_append, or_assoc]
  refine or_congr_right ?_
  simp only [Reaches, List.mem_singleton, exists_eq_left, hfirst, hstop]
  omega

/-! ## Uniqueness -/

theorem Separated.first_lt (h : Separated first stop (a :: spans)) {n : Nat}
    (hreaches : Reaches first stop spans n) : 2 * stop a + 1 < n := by
  obtain ⟨b, hb, hge, -⟩ := hreaches
  have hlt := (List.pairwise_cons.mp h).1 b hb
  omega

theorem first_le_of_reaches (h : Separated first stop (a :: spans))
    (hle : ∀ d ∈ a :: spans, first d ≤ stop d) (hreaches : Reaches first stop (a :: spans) n) :
    2 * first a ≤ n := by
  rcases reaches_cons.mp hreaches with ⟨hge, -⟩ | hrest
  · exact hge
  · have hlt := h.first_lt hrest
    have ha := hle a List.mem_cons_self
    omega

theorem stop_le_of_reaches (h : Separated first stop (a :: spans)) (ha : first a ≤ stop a)
    (hfirst : first a = first b)
    (heq : ∀ n, Reaches first stop (a :: spans) n ↔ Reaches first stop (b :: spans') n) :
    stop b ≤ stop a := by
  by_contra hlt
  have hreached : Reaches first stop (b :: spans') (2 * stop a + 1) :=
    reaches_cons.mpr (.inl (by omega))
  rcases reaches_cons.mp ((heq _).mpr hreached) with ⟨-, hle⟩ | hrest
  · omega
  · have := h.first_lt hrest
    omega

theorem reaches_self (ha : first a ≤ stop a) : Reaches first stop (a :: spans) (2 * first a) :=
  reaches_cons.mpr (.inl (by omega))

/-- What the tail of a separated list reaches. -/
theorem Separated.reaches_tail (h : Separated first stop (a :: spans)) :
    Reaches first stop spans n ↔ Reaches first stop (a :: spans) n ∧ 2 * stop a < n := by
  constructor
  · intro hreaches
    have hlt := h.first_lt hreaches
    exact ⟨reaches_cons.mpr (.inr hreaches), by omega⟩
  · rintro ⟨hreaches, hlt⟩
    refine (reaches_cons.mp hreaches).resolve_left ?_
    omega

/-- Separated lists that reach the same are the same. -/
theorem eq_of_reaches (hinj : ∀ a b : α, first a = first b → stop a = stop b → a = b)
    (h : Separated first stop spans) (h' : Separated first stop spans')
    (hle : ∀ d ∈ spans, first d ≤ stop d) (hle' : ∀ d ∈ spans', first d ≤ stop d)
    (heq : ∀ n, Reaches first stop spans n ↔ Reaches first stop spans' n) : spans = spans' := by
  induction spans generalizing spans' with
  | nil =>
    cases spans' with
    | nil => rfl
    | cons b spans' =>
      obtain ⟨d, hd, -⟩ := (heq _).mpr (reaches_self (hle' b List.mem_cons_self))
      cases hd
  | cons a spans ih =>
    cases spans' with
    | nil =>
      obtain ⟨d, hd, -⟩ := (heq _).mp (reaches_self (hle a List.mem_cons_self))
      cases hd
    | cons b spans' =>
      have ha := hle a List.mem_cons_self
      have hb := hle' b List.mem_cons_self
      have hba := first_le_of_reaches h' hle' ((heq _).mp (reaches_self ha))
      have hab := first_le_of_reaches h hle ((heq _).mpr (reaches_self hb))
      have hfirst : first a = first b := by omega
      have hstop : stop a = stop b := by
        have hge := stop_le_of_reaches h ha hfirst heq
        have hle := stop_le_of_reaches h' hb hfirst.symm fun n => (heq n).symm
        omega
      rw [hinj a b hfirst hstop]
      refine congrArg _ (ih (List.pairwise_cons.mp h).2 (List.pairwise_cons.mp h').2
        (fun d hd => hle d (List.mem_cons_of_mem _ hd))
        (fun d hd => hle' d (List.mem_cons_of_mem _ hd)) fun n => ?_)
      rw [h.reaches_tail, h'.reaches_tail, heq n, hstop]

end Spans
