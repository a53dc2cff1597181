import Mathlib.Logic.Basic

/-!
# Fallible computations

Guards for computations in `Except`, and the inversion lemmas that read a
successful run back step by step: `bind_eq_ok` peels one bind, `rejectIf_eq_ok`
turns a passed guard into the negation of its condition, and `okOr_eq_ok` reads
the value out of a checked `Option`. Together they are the simp set that replaces
unfolding a monadic function in a proof.

`foldlM_invariant` and `forM_eq_ok` are the rules for loops. The error type is arbitrary, and so
is the universe of the values. No lemma here is about a program: a proof opens the namespace and
rewrites with the set.
-/

namespace Fallible

universe u v

variable {ε : Type u} {α β : Type v}

/-- Fail with `e` when `c` holds. -/
def rejectIf (c : Prop) [Decidable c] (e : ε) : Except ε Unit :=
  if c then .error e else .ok ()

/-- Read a checked value, or fail with `e`. -/
def okOr (e : ε) : Option α → Except ε α
  | some a => .ok a
  | none => .error e

@[simp] theorem pure_eq_ok (a : α) : (pure a : Except ε α) = .ok a := rfl

@[simp] theorem throw_eq_error (e : ε) : (throw e : Except ε α) = .error e := rfl

@[simp] theorem ok_bind (a : α) (f : α → Except ε β) : (Except.ok a >>= f) = f a := rfl

@[simp] theorem error_bind (e : ε) (f : α → Except ε β) :
    (Except.error e >>= f) = .error e := rfl

theorem bind_eq_ok {x : Except ε α} {f : α → Except ε β} {b : β} :
    (x >>= f) = .ok b ↔ ∃ a, x = .ok a ∧ f a = .ok b := by
  cases x with
  | error e => simp
  | ok a => simp

@[simp] theorem rejectIf_eq_ok {c : Prop} [Decidable c] {e : ε} {u : Unit} :
    rejectIf c e = .ok u ↔ ¬ c := by
  unfold rejectIf
  split <;> simp_all

theorem rejectIf_pos {c : Prop} [Decidable c] (e : ε) (h : c) : rejectIf c e = .error e :=
  if_pos h

@[simp] theorem rejectIf_neg {c : Prop} [Decidable c] (e : ε) (h : ¬ c) :
    rejectIf c e = .ok () := if_neg h

/-- Two guards with one error agree exactly when their conditions do. -/
theorem rejectIf_eq_rejectIf_iff {c d : Prop} [Decidable c] [Decidable d] {e : ε} :
    rejectIf c e = rejectIf d e ↔ (c ↔ d) := by
  by_cases hc : c <;> by_cases hd : d <;> simp [rejectIf, hc, hd]

@[simp] theorem okOr_eq_ok {o : Option α} {e : ε} {a : α} : okOr e o = .ok a ↔ o = some a := by
  cases o <;> simp [okOr]

@[simp] theorem okOr_some (e : ε) (a : α) : okOr e (some a) = .ok a := rfl

@[simp] theorem okOr_none (e : ε) : okOr e (none : Option α) = .error e := rfl

@[simp] theorem toOption_eq_some {x : Except ε α} {a : α} : x.toOption = some a ↔ x = .ok a := by
  cases x <;> simp [Except.toOption]

/-- A loop of checks passes when each of them does. -/
theorem forM_eq_ok {α : Type v} {f : α → Except ε Unit} {xs : List α}
    (h : ∀ x ∈ xs, f x = .ok ()) : xs.forM f = .ok () := by
  induction xs with
  | nil => rfl
  | cons x xs ih =>
    have hhead := h x List.mem_cons_self
    have hrest := ih fun y hy => h y (List.mem_cons_of_mem _ hy)
    change (f x >>= fun _ => xs.forM f) = .ok ()
    rw [hhead, ok_bind, hrest]

/-! ## Errors that do not occur -/

/-- Neither step fails with `e`. -/
theorem bind_ne_error {x : Except ε α} {f : α → Except ε β} {e : ε} (hx : x ≠ .error e)
    (hf : ∀ a, x = .ok a → f a ≠ .error e) : (x >>= f) ≠ .error e := by
  cases x with
  | error e' => exact fun heq => hx (congrArg Except.error (Except.error.inj heq))
  | ok a => exact hf a rfl

theorem rejectIf_ne_error {c : Prop} [Decidable c] {e e' : ε} (h : e' ≠ e) :
    rejectIf c e' ≠ .error e := by
  unfold rejectIf
  split
  · exact fun heq => h (Except.error.inj heq)
  · exact fun heq => (by cases heq)

/-! ## Loops -/

theorem foldlM_singleton {σ : Type v} (f : σ → α → Except ε σ) (start : σ) (x : α) :
    [x].foldlM f start = f start x := by
  rw [List.foldlM_cons]
  exact bind_pure _

/-- The last turn of a loop. -/
theorem foldlM_concat {σ : Type v} (f : σ → α → Except ε σ) (start : σ) (xs : List α) (x : α) :
    (xs ++ [x]).foldlM f start = xs.foldlM f start >>= fun state => f state x := by
  rw [List.foldlM_append]
  exact bind_congr fun state => foldlM_singleton f state x

/-- What every turn of a loop keeps, the loop keeps. -/
theorem foldlM_invariant {σ : Type v} {I : σ → Prop} {f : σ → α → Except ε σ} {xs : List α}
    (hstep : ∀ s x s', I s → x ∈ xs → f s x = .ok s' → I s') {s s' : σ} (hs : I s)
    (h : xs.foldlM f s = .ok s') : I s' := by
  induction xs generalizing s with
  | nil =>
    cases h
    exact hs
  | cons x xs ih =>
    rw [List.foldlM_cons, bind_eq_ok] at h
    obtain ⟨middle, hfirst, hrest⟩ := h
    exact ih (fun s x s' hs hx => hstep s x s' hs (List.mem_cons_of_mem _ hx))
      (hstep s x middle hs List.mem_cons_self hfirst) hrest

end Fallible
