import Mathlib.Logic.Basic

/-!
# Labelled runs

A `Run step` is a finite sequence of labelled transitions. The rules here package
the one induction that every whole-run statement needs: an invariant kept by one
step holds after every run, and a function on labels that tracks one step tracks
every run. A side condition on the steps of a run is part of its step relation.

The main rules are `Run.invariant` and `Run.simulates`; `Run.history` is for a property that
also depends on the labels so far. States and labels are of any type, and a run says nothing
about fairness or ends: what a system can still do is stated by its steps.
-/

namespace Runs

universe u v w

variable {σ : Type u} {α : Type v} {τ : Type w}

/-- Finite runs of a labelled transition relation, with the labels taken. -/
inductive Run (step : σ → α → σ → Prop) : σ → List α → σ → Prop
  | nil (s : σ) : Run step s [] s
  | cons {s s₁ s₂ : σ} {a : α} {as : List α} (head : step s a s₁) (tail : Run step s₁ as s₂) :
      Run step s (a :: as) s₂

variable {step step' : σ → α → σ → Prop} {s s₁ s₂ s₃ : σ} {a : α} {as bs : List α}

theorem Run.one (h : step s a s₁) : Run step s [a] s₁ := .cons h (.nil _)

theorem Run.append (h : Run step s as s₁) (h' : Run step s₁ bs s₂) :
    Run step s (as ++ bs) s₂ := by
  induction h with
  | nil => exact h'
  | cons head _ ih => exact .cons head (ih h')

theorem Run.snoc (h : Run step s as s₁) (h' : step s₁ a s₂) : Run step s (as ++ [a]) s₂ :=
  h.append (.one h')

/-- A run over a concatenation passes through the state between its parts. -/
theorem Run.of_append (h : Run step s (as ++ bs) s₂) :
    ∃ s₁, Run step s as s₁ ∧ Run step s₁ bs s₂ := by
  induction as generalizing s with
  | nil => exact ⟨s, .nil s, h⟩
  | cons a as ih =>
    cases h with
    | cons head tail =>
      obtain ⟨s₁, h₁, h₂⟩ := ih tail
      exact ⟨s₁, .cons head h₁, h₂⟩

/-- A label of a run is the label of one of its steps. -/
theorem Run.of_mem (h : Run step s as s₃) (ha : a ∈ as) :
    ∃ bs cs s₁ s₂, Run step s bs s₁ ∧ step s₁ a s₂ ∧ Run step s₂ cs s₃ := by
  obtain ⟨bs, cs, rfl⟩ := List.append_of_mem ha
  obtain ⟨s₁, hbefore, hrest⟩ := h.of_append
  cases hrest with
  | cons head tail => exact ⟨bs, cs, s₁, _, hbefore, head, tail⟩

theorem Run.mono (himp : ∀ s a s', step s a s' → step' s a s') (h : Run step s as s₁) :
    Run step' s as s₁ := by
  induction h with
  | nil s => exact .nil s
  | cons head _ ih => exact .cons (himp _ _ _ head) ih

/-- What every step keeps, every run keeps. -/
theorem Run.invariant {I : σ → Prop} (hstep : ∀ s a s', I s → step s a s' → I s')
    (h : Run step s as s₁) (h0 : I s) : I s₁ := by
  induction h with
  | nil => exact h0
  | cons head _ ih => exact ih (hstep _ _ _ h0 head)

/-- What every step keeps of a state and the labels so far, every run keeps. -/
theorem Run.history {I : σ → List α → Prop} {past : List α}
    (hstep : ∀ s a s' past, I s past → step s a s' → I s' (past ++ [a]))
    (h : Run step s as s₁) (h0 : I s past) : I s₁ (past ++ as) := by
  induction h generalizing past with
  | nil => rwa [List.append_nil]
  | @cons _ _ _ a as head _ ih =>
    rw [List.append_cons]
    exact ih (hstep _ _ _ _ h0 head)

/-- A function on labels that tracks each step tracks every run. -/
theorem Run.simulates {R : σ → τ → Prop} {f : τ → α → τ}
    (hstep : ∀ s a s' t, R s t → step s a s' → R s' (f t a))
    (h : Run step s as s₁) {t : τ} (h0 : R s t) : R s₁ (as.foldl f t) := by
  induction h generalizing t with
  | nil => exact h0
  | cons head _ ih => exact ih (hstep _ _ _ _ h0 head)

end Runs
