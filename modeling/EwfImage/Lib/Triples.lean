import Mathlib.Logic.Basic

/-!
# Triples for computations with a state and errors

An `EStateM` computation keeps its state when it fails. A `Triple` describes both
ways it can end: with a value, or with an error. The rules follow the constructors
of a `do` block, so a proof walks through a program in the order of its steps.

`Agrees` and `Computes` are two relations between computations for refinement proofs: two
computations that return the same, whatever their states, and a computation that returns a given
result under an invariant. The state, the error and the values are of any type; the rules are
stated for a general precondition, which a proof supplies from its context.
-/

namespace Triples

universe u

variable {ε σ α β : Type u} {P P' : σ → Prop} {Q Q' : α → σ → Prop} {R : β → σ → Prop}
  {E E' : ε → σ → Prop}

/-- Started in a state with `P`, the computation returns with `Q` or fails with `E`. -/
def Triple (P : σ → Prop) (x : EStateM ε σ α) (Q : α → σ → Prop) (E : ε → σ → Prop) : Prop :=
  ∀ s, P s → match x s with
    | .ok a s' => Q a s'
    | .error e s' => E e s'

theorem Triple.ok {x : EStateM ε σ α} (h : Triple P x Q E) {s s' : σ} {a : α} (hs : P s)
    (hx : x s = .ok a s') : Q a s' := by
  have hrun := h s hs
  rw [hx] at hrun
  exact hrun

theorem Triple.error {x : EStateM ε σ α} (h : Triple P x Q E) {s s' : σ} {e : ε} (hs : P s)
    (hx : x s = .error e s') : E e s' := by
  have hrun := h s hs
  rw [hx] at hrun
  exact hrun

theorem Triple.weaken {x : EStateM ε σ α} (h : Triple P x Q E) (hpre : ∀ s, P' s → P s)
    (hpost : ∀ a s, Q a s → Q' a s) (herror : ∀ e s, E e s → E' e s) : Triple P' x Q' E' := by
  intro s hs
  have hrun := h s (hpre s hs)
  cases hx : x s with
  | ok a s' =>
    rw [hx] at hrun
    exact hpost a s' hrun
  | error e s' =>
    rw [hx] at hrun
    exact herror e s' hrun

theorem Triple.of_pre {x : EStateM ε σ α} (h : Triple P x Q E) (hpre : ∀ s, P' s → P s) :
    Triple P' x Q E :=
  h.weaken hpre (fun _ _ hq => hq) fun _ _ he => he

theorem Triple.imp {x : EStateM ε σ α} (h : Triple P x Q E) (hpost : ∀ a s, Q a s → Q' a s) :
    Triple P x Q' E :=
  h.weaken (fun _ hp => hp) hpost fun _ _ he => he

/-- A fact that does not depend on the state is used in front of the computation. -/
theorem Triple.of_fact {p : Prop} {x : EStateM ε σ α} (h : p → Triple P x Q E)
    (hp : ∀ s, P s → p) : Triple P x Q E :=
  fun s hs => h (hp s hs) s hs

/-- A triple for each starting state. -/
theorem Triple.of_state {x : EStateM ε σ α} (h : ∀ s₀, P s₀ → Triple (· = s₀) x Q E) :
    Triple P x Q E :=
  fun s hs => h s hs s rfl

theorem triple_pure {a : α} (h : ∀ s, P s → Q a s) : Triple P (pure a : EStateM ε σ α) Q E :=
  fun s hs => h s hs

theorem triple_throw {e : ε} (h : ∀ s, P s → E e s) : Triple P (throw e : EStateM ε σ α) Q E :=
  fun s hs => h s hs

theorem Triple.bind {x : EStateM ε σ α} {f : α → EStateM ε σ β} (hx : Triple P x Q E)
    (hf : ∀ a, Triple (Q a) (f a) R E) : Triple P (x >>= f) R E := by
  intro s hs
  have hrun := hx s hs
  change match EStateM.bind x f s with
    | .ok a s' => R a s'
    | .error e s' => E e s'
  unfold EStateM.bind
  cases hxs : x s with
  | ok a s' =>
    rw [hxs] at hrun
    exact hf a s' hrun
  | error e s' =>
    rw [hxs] at hrun
    exact hrun

theorem triple_get {Q : σ → σ → Prop} (h : ∀ s, P s → Q s s) :
    Triple P (get : EStateM ε σ σ) Q E :=
  fun s hs => h s hs

/-- Reading the state gives the one that the computation was started in. -/
theorem Triple.bind_get {f : σ → EStateM ε σ β} (h : ∀ s, P s → Triple (· = s) (f s) R E) :
    Triple P (get >>= f) R E :=
  fun s hs => h s hs s rfl

theorem triple_modify {f : σ → σ} {Q : PUnit → σ → Prop} (h : ∀ s, P s → Q ⟨⟩ (f s)) :
    Triple P (modify f : EStateM ε σ PUnit) Q E :=
  fun s hs => h s hs

theorem triple_ite {c : Prop} [Decidable c] {x y : EStateM ε σ α}
    (hx : c → Triple P x Q E) (hy : ¬ c → Triple P y Q E) :
    Triple P (if c then x else y) Q E := by
  by_cases hc : c
  · rw [if_pos hc]
    exact hx hc
  · rw [if_neg hc]
    exact hy hc

theorem triple_tryCatch {x : EStateM ε σ α} {handle : ε → EStateM ε σ α} {F : ε → σ → Prop}
    (hx : Triple P x Q F) (hhandle : ∀ e, Triple (F e) (handle e) Q E) :
    Triple P (tryCatch x handle : EStateM ε σ α) Q E := by
  intro s hs
  have hrun := hx s hs
  change match EStateM.tryCatch x handle s with
    | .ok a s' => Q a s'
    | .error e s' => E e s'
  unfold EStateM.tryCatch
  cases hxs : x s with
  | ok a s' =>
    rw [hxs] at hrun
    simpa only [hxs] using hrun
  | error e s' =>
    rw [hxs] at hrun
    simp only
    exact hhandle e s' hrun

/-! ## Computations that agree with a pure result -/

variable {δ : Type u} {F : ε → Prop}

/-- Under the invariant `P`, the computation returns the value of `r`, and fails with an error in
`F` where `r` does. -/
def Agrees (P : σ → Prop) (F : ε → Prop) (x : EStateM ε σ α) (r : Except δ α) : Prop :=
  Triple P x (fun a s => P s ∧ r = .ok a) fun e s => P s ∧ F e ∧ ∀ a, r ≠ .ok a

theorem agrees_pure {a : α} : Agrees P F (pure a : EStateM ε σ α) (.ok a : Except δ α) :=
  triple_pure fun _ hs => ⟨hs, rfl⟩

theorem agrees_throw {e : ε} {d : δ} (he : F e) :
    Agrees P F (throw e : EStateM ε σ α) (.error d : Except δ α) := by
  refine triple_throw fun s hs => ⟨hs, he, fun a ha => ?_⟩
  cases ha

theorem Agrees.bind {x : EStateM ε σ α} {r : Except δ α} {f : α → EStateM ε σ β}
    {g : α → Except δ β} (hx : Agrees P F x r) (hf : ∀ a, r = .ok a → Agrees P F (f a) (g a)) :
    Agrees P F (x >>= f) (r >>= g) := by
  refine Triple.bind (hx.weaken (fun _ hs => hs) (fun _ _ hs => hs)
    fun _ s hs => ⟨hs.1, hs.2.1, ?_⟩) fun a => Triple.of_fact (p := r = .ok a) (fun ha => ?_)
    fun _ hs => hs.2
  · intro b hb
    cases hr : r with
    | ok a => exact hs.2.2 a hr
    | error d =>
      rw [hr] at hb
      cases hb
  · have hrest := hf a ha
    subst ha
    exact hrest.of_pre fun _ hs => hs.1

theorem Agrees.ok_iff {x : EStateM ε σ α} {r : Except δ α} (h : Agrees P F x r) {s : σ}
    (hs : P s) {a : α} : (∃ s', x s = .ok a s') ↔ r = .ok a := by
  have hrun := h s hs
  cases hx : x s with
  | ok b s' =>
    rw [hx] at hrun
    rw [hrun.2, Except.ok.injEq]
    exact ⟨fun ⟨_, hok⟩ => by cases hok; rfl, fun hok => ⟨s', by rw [hok]⟩⟩
  | error e s' =>
    rw [hx] at hrun
    exact ⟨fun ⟨_, hok⟩ => (by cases hok), fun hok => absurd hok (hrun.2.2 a)⟩

/-! ## Computations with a fixed result -/

/-- Under the invariant `P`, the computation ends as `r` does, with the same value or error. -/
def Computes (P : σ → Prop) (x : EStateM ε σ α) (r : Except ε α) : Prop :=
  Triple P x (fun a s => P s ∧ r = .ok a) fun e s => P s ∧ r = .error e

theorem computes_pure {a : α} : Computes P (pure a : EStateM ε σ α) (.ok a) :=
  triple_pure fun _ hs => ⟨hs, rfl⟩

theorem computes_throw {e : ε} : Computes P (throw e : EStateM ε σ α) (.error e) :=
  triple_throw fun _ hs => ⟨hs, rfl⟩

theorem Computes.bind {x : EStateM ε σ α} {r : Except ε α} {f : α → EStateM ε σ β}
    {g : α → Except ε β} (hx : Computes P x r) (hf : ∀ a, r = .ok a → Computes P (f a) (g a)) :
    Computes P (x >>= f) (r >>= g) := by
  refine Triple.bind (hx.weaken (fun _ hs => hs) (fun _ _ hs => hs) fun _ s hs => ⟨hs.1, ?_⟩)
    fun a => Triple.of_fact (p := r = .ok a) (fun ha => ?_) fun _ hs => hs.2
  · rw [hs.2]
    rfl
  · have hrest := hf a ha
    subst ha
    exact hrest.of_pre fun _ hs => hs.1

theorem computes_ite {c : Prop} [Decidable c] {x y : EStateM ε σ α} {r t : Except ε α}
    (hx : c → Computes P x r) (hy : ¬ c → Computes P y t) :
    Computes P (if c then x else y) (if c then r else t) := by
  by_cases hc : c
  · rw [if_pos hc, if_pos hc]
    exact hx hc
  · rw [if_neg hc, if_neg hc]
    exact hy hc

theorem Computes.keeps {x : EStateM ε σ α} {r : Except ε α} (h : Computes P x r) :
    Triple P x (fun _ => P) fun _ => P :=
  h.weaken (fun _ hs => hs) (fun _ _ hs => hs.1) fun _ _ hs => hs.1

theorem Computes.ok_iff {x : EStateM ε σ α} {r : Except ε α} (h : Computes P x r) {s : σ}
    (hs : P s) {a : α} : (∃ s', x s = .ok a s') ↔ r = .ok a := by
  have hrun := h s hs
  cases hx : x s with
  | ok b s' =>
    rw [hx] at hrun
    rw [hrun.2, Except.ok.injEq]
    exact ⟨fun ⟨_, hok⟩ => by cases hok; rfl, fun hok => ⟨s', by rw [hok]⟩⟩
  | error e s' =>
    rw [hx] at hrun
    rw [hrun.2]
    exact ⟨fun ⟨_, hok⟩ => (by cases hok), fun hok => (by cases hok)⟩

theorem Computes.error_iff {x : EStateM ε σ α} {r : Except ε α} (h : Computes P x r) {s : σ}
    (hs : P s) {e : ε} : (∃ s', x s = .error e s') ↔ r = .error e := by
  have hrun := h s hs
  cases hx : x s with
  | ok b s' =>
    rw [hx] at hrun
    rw [hrun.2]
    exact ⟨fun ⟨_, herror⟩ => (by cases herror), fun herror => (by cases herror)⟩
  | error e' s' =>
    rw [hx] at hrun
    rw [hrun.2, Except.error.injEq]
    exact ⟨fun ⟨_, herror⟩ => by cases herror; rfl, fun herror => ⟨s', by rw [herror]⟩⟩

/-- A result that is only passed on. -/
theorem Computes.passOn {x : EStateM ε σ α} {r : Except ε α} {f : α → EStateM ε σ α}
    (hx : Computes P x r) (hf : ∀ a, r = .ok a → Computes P (f a) (.ok a)) :
    Computes P (x >>= f) r := by
  have hbind : r = r >>= fun a => .ok a := by
    cases r <;> rfl
  have hpassed := hx.bind (g := fun a => .ok a) hf
  rw [← hbind] at hpassed
  exact hpassed

/-- A step that keeps the invariant does not change what the rest computes. -/
theorem Computes.after {x : EStateM ε σ β} {f : β → EStateM ε σ α} {r : Except ε α}
    (hx : ∀ s, P s → ∃ b s', x s = .ok b s' ∧ P s') (hf : ∀ b, Computes P (f b) r) :
    Computes P (x >>= f) r := by
  refine Triple.bind (Q := fun _ => P) ?_ hf
  intro s hs
  obtain ⟨b, s', hrun, hs'⟩ := hx s hs
  rw [hrun]
  exact hs'

end Triples
