import EwfImage.Lib.Triples

/-!
# Programs that ask

A program computes, asks queries and goes on with their answers, which can be errors. The
answers come from a table, or from a store that may change with every query, as one with
caches does. A store that serves a table under an invariant gives every program the result
that the table gives it: whatever has been cached, and whatever the program asks.

The main rule is `Serves.run`: if every query under the invariant gives the answer of the table
and keeps the invariant, then every program that is run from such a store gives what it gives
over the table, and leaves the invariant. `Serves.listen` adds a listener that is told something
on the way and may end the program. Queries, answers and errors are of any type.
-/

namespace Queries

open Triples

variable {Q Q' : Type} {B : Q → Type} {B' : Q' → Type} {ε α β σ : Type}

/-- A computation that ends with a result, or asks a query and goes on with its answer. -/
inductive Program (Q : Type) (B : Q → Type) (ε α : Type) where
  | done (result : Except ε α)
  | ask (query : Q) (next : Except ε (B query) → Program Q B ε α)

namespace Program

def bind : Program Q B ε α → (α → Program Q B ε β) → Program Q B ε β
  | .done (.ok a), f => f a
  | .done (.error e), _ => .done (.error e)
  | .ask query next, f => .ask query fun answer => (next answer).bind f

def handle : Program Q B ε α → (ε → Program Q B ε α) → Program Q B ε α
  | .done (.ok a), _ => .done (.ok a)
  | .done (.error e), f => f e
  | .ask query next, f => .ask query fun answer => (next answer).handle f

instance : Monad (Program Q B ε) where
  pure a := .done (.ok a)
  bind := bind

instance : MonadExceptOf ε (Program Q B ε) where
  throw e := .done (.error e)
  tryCatch := handle

instance : MonadLift (Except ε) (Program Q B ε) where
  monadLift := .done

/-- The answer to a single query. -/
def request (query : Q) : Program Q B ε (B query) := .ask query .done

/-- The result of a program, with its error as a value. -/
def attempt : Program Q B ε α → Program Q B ε (Except ε α)
  | .done result => .done (.ok result)
  | .ask query next => .ask query fun answer => (next answer).attempt

/-! ## Answers from a table -/

/-- The result when a table answers the queries. -/
def eval (answers : ∀ query, Except ε (B query)) : Program Q B ε α → Except ε α
  | .done result => result
  | .ask query next => (next (answers query)).eval answers

variable {answers : ∀ query, Except ε (B query)}

@[simp] theorem eval_pure (a : α) : eval answers (pure a) = .ok a := rfl

@[simp] theorem eval_throw (e : ε) : eval answers (throw e : Program Q B ε α) = .error e := rfl

@[simp] theorem eval_lift (r : Except ε α) :
    eval answers (liftM r : Program Q B ε α) = r := rfl

@[simp] theorem eval_monadLift (r : Except ε α) :
    eval answers (MonadLift.monadLift r : Program Q B ε α) = r := rfl

@[simp] theorem eval_request (query : Q) : eval answers (request query) = answers query := rfl

@[simp] theorem eval_bind (p : Program Q B ε α) (f : α → Program Q B ε β) :
    eval answers (p >>= f) = eval answers p >>= fun a => eval answers (f a) := by
  change eval answers (p.bind f) = _
  induction p with
  | done result =>
    cases result with
    | ok a => rfl
    | error e => rfl
  | ask query next ih => exact ih (answers query)

theorem bind_assoc {γ : Type} (p : Program Q B ε α) (f : α → Program Q B ε β)
    (g : β → Program Q B ε γ) : p >>= f >>= g = p >>= fun a => f a >>= g := by
  change (p.bind f).bind g = p.bind fun a => (f a).bind g
  induction p with
  | done result =>
    cases result with
    | ok a => rfl
    | error e => rfl
  | ask query next ih => exact congrArg (ask query) (funext fun answer => ih answer)

@[simp] theorem eval_attempt (p : Program Q B ε α) :
    eval answers p.attempt = .ok (eval answers p) := by
  induction p with
  | done result => rfl
  | ask query next ih => exact ih (answers query)

@[simp] theorem eval_ite {c : Prop} [Decidable c] (p q : Program Q B ε α) :
    eval answers (if c then p else q) = if c then eval answers p else eval answers q := by
  by_cases hc : c
  · rw [if_pos hc, if_pos hc]
  · rw [if_neg hc, if_neg hc]

/-! ## Answers from a store -/

/-- The run of a program when a store answers the queries. -/
def run (store : ∀ query, EStateM ε σ (B query)) : Program Q B ε α → EStateM ε σ α
  | .done (.ok a), s => .ok a s
  | .done (.error e), s => .error e s
  | .ask query next, s => match store query s with
    | .ok answer s' => (next (.ok answer)).run store s'
    | .error e s' => (next (.error e)).run store s'

end Program

/-- Under the invariant the store answers as the table does. -/
def Serves (P : σ → Prop) (store : ∀ query, EStateM ε σ (B query))
    (answers : ∀ query, Except ε (B query)) : Prop :=
  ∀ query, Computes P (store query) (answers query)

/-- A store that serves a table gives every program the result from the table. -/
theorem Serves.run {P : σ → Prop} {store : ∀ query, EStateM ε σ (B query)}
    {answers : ∀ query, Except ε (B query)} (h : Serves P store answers)
    (p : Program Q B ε α) : Computes P (p.run store) (p.eval answers) := by
  induction p with
  | done result =>
    intro s hs
    cases result with
    | ok a => exact ⟨hs, rfl⟩
    | error e => exact ⟨hs, rfl⟩
  | ask query next ih =>
    intro s hs
    have hserved := h query s hs
    have hanswer : ∀ answer, answers query = answer →
        Computes P ((next answer).run store) ((next (answers query)).eval answers) := by
      rintro _ rfl
      exact ih (answers query)
    unfold Program.run
    cases hstore : store query s with
    | ok answer s' =>
      rw [hstore] at hserved
      exact hanswer _ hserved.2 s' hserved.1
    | error e s' =>
      rw [hstore] at hserved
      exact hanswer _ hserved.2 s' hserved.1

/-- What every answer keeps, a run keeps, whatever it asks. -/
theorem Program.run_keeps {P : σ → Prop} {store : ∀ query, EStateM ε σ (B query)}
    (hstore : ∀ query, Triple P (store query) (fun _ => P) fun _ => P) (p : Program Q B ε α) :
    Triple P (p.run store) (fun _ => P) fun _ => P := by
  induction p with
  | done result =>
    intro s hs
    cases result with
    | ok a => exact hs
    | error e => exact hs
  | ask query next ih =>
    intro s hs
    have hkept := hstore query s hs
    unfold Program.run
    cases hanswer : store query s with
    | ok answer s' =>
      rw [hanswer] at hkept
      exact ih _ s' hkept
    | error e s' =>
      rw [hanswer] at hkept
      exact ih _ s' hkept

/-! ## Programs that report and can be stopped

A program may also send signals, each of which is answered with whether to stop. One that
ends with a fixed error as soon as it is told to stop has, whenever it ends otherwise, the
result it has when nobody stops it.
-/

/-- The answers to queries and to signals. -/
abbrev Heard (B : Q → Type) (S : Type) : Q ⊕ S → Type := Sum.elim B fun _ => Bool

namespace Program

variable {S π : Type} {answers : ∀ query, Except ε (B query)} {e : ε}

/-- A program without signals. -/
def quiet : Program Q B ε α → Program (Q ⊕ S) (Heard B S) ε α
  | .done result => .done result
  | .ask query next => .ask (.inl query) fun answer => (next answer).quiet

instance : MonadLift (Program Q B ε) (Program (Q ⊕ S) (Heard B S) ε) where
  monadLift := quiet

/-- A signal, and the error that ends the program if it is told to stop. -/
def signal (e : ε) (s : S) : Program (Q ⊕ S) (Heard B S) ε Unit :=
  .ask (.inr s) fun stop => match stop with
    | .ok true => .done (.error e)
    | .ok false => .done (.ok ())
    | .error e => .done (.error e)

/-- The table's answers when nobody stops the program. -/
def undisturbed (answers : ∀ query, Except ε (B query)) :
    ∀ query : Q ⊕ S, Except ε (Heard B S query)
  | .inl query => answers query
  | .inr _ => .ok false

@[simp] theorem eval_quiet (p : Program Q B ε α) :
    eval (undisturbed (S := S) answers) p.quiet = eval answers p := by
  induction p with
  | done result => rfl
  | ask query next ih => exact ih (answers query)

@[simp] theorem eval_monadLift_quiet (p : Program Q B ε α) :
    eval (undisturbed (S := S) answers) (liftM p) = eval answers p := eval_quiet p

@[simp] theorem eval_signal (s : S) :
    eval (undisturbed answers) (signal (B := B) e s) = .ok () := rfl

/-- The store together with a listener that may stop the program. -/
def listen (store : ∀ query, EStateM ε σ (B query)) (listener : S → π → Bool × π) :
    ∀ query : Q ⊕ S, EStateM ε (σ × π) (Heard B S query)
  | .inl query => fun s => match store query s.1 with
    | .ok answer s' => .ok answer (s', s.2)
    | .error e s' => .error e (s', s.2)
  | .inr signal => fun s => .ok (listener signal s.2).1 (s.1, (listener signal s.2).2)

/-- As soon as it is told to stop, the program ends with the error `e`. -/
def Stops (e : ε) : Program (Q ⊕ S) (Heard B S) ε α → Prop
  | .done _ => True
  | .ask (.inl _) next => ∀ answer, Stops e (next answer)
  | .ask (.inr _) next => next (.ok true) = .done (.error e) ∧ Stops e (next (.ok false))

theorem stops_done (result : Except ε α) :
    Stops e (.done result : Program (Q ⊕ S) (Heard B S) ε α) := trivial

theorem stops_pure (a : α) : Stops e (pure a : Program (Q ⊕ S) (Heard B S) ε α) := trivial

theorem stops_throw (e' : ε) : Stops e (throw e' : Program (Q ⊕ S) (Heard B S) ε α) := trivial

theorem stops_quiet (p : Program Q B ε α) : Stops e (p.quiet : Program (Q ⊕ S) (Heard B S) ε α) := by
  induction p with
  | done result => trivial
  | ask query next ih => exact ih

theorem stops_signal (s : S) : Stops e (signal (B := B) e s) := ⟨rfl, trivial⟩

theorem Stops.bind {p : Program (Q ⊕ S) (Heard B S) ε α}
    {f : α → Program (Q ⊕ S) (Heard B S) ε β} (hp : Stops e p) (hf : ∀ a, Stops e (f a)) :
    Stops e (p >>= f) := by
  change Stops e (p.bind f)
  induction p with
  | done result =>
    cases result with
    | ok a => exact hf a
    | error e => trivial
  | ask query next ih =>
    cases query with
    | inl query => exact fun answer => ih answer (hp answer)
    | inr s =>
      refine ⟨?_, ih _ hp.2⟩
      change (next (.ok true)).bind f = _
      rw [hp.1]
      rfl

theorem stops_ite {c : Prop} [Decidable c] {p q : Program (Q ⊕ S) (Heard B S) ε α}
    (hp : c → Stops e p) (hq : ¬ c → Stops e q) : Stops e (if c then p else q) := by
  by_cases hc : c
  · rw [if_pos hc]
    exact hp hc
  · rw [if_neg hc]
    exact hq hc

/-- An attempt that passes the error on when it was stopped. -/
theorem Stops.attempt_bind {p : Program (Q ⊕ S) (Heard B S) ε α}
    {f : Except ε α → Program (Q ⊕ S) (Heard B S) ε β} (hp : Stops e p)
    (hstop : f (.error e) = .done (.error e)) (hf : ∀ r, Stops e (f r)) :
    Stops e (p.attempt >>= f) := by
  change Stops e (p.attempt.bind f)
  induction p with
  | done result => exact hf result
  | ask query next ih =>
    cases query with
    | inl query => exact fun answer => ih answer (hp answer)
    | inr s =>
      refine ⟨?_, ih _ hp.2⟩
      change ((next (.ok true)).attempt).bind f = _
      rw [hp.1]
      exact hstop

theorem keeps_listen {P : σ → Prop} {store : ∀ query, EStateM ε σ (B query)}
    (hstore : ∀ query, Triple P (store query) (fun _ => P) fun _ => P)
    (listener : S → π → Bool × π) (query : Q ⊕ S) :
    Triple (fun s : σ × π => P s.1) (listen store listener query) (fun _ s => P s.1)
      fun _ s => P s.1 := by
  intro s hs
  cases query with
  | inl query =>
    have hkept := hstore query s.1 hs
    unfold listen
    dsimp only
    cases hrun : store query s.1 with
    | ok answer s' =>
      rw [hrun] at hkept
      exact hkept
    | error e s' =>
      rw [hrun] at hkept
      exact hkept
  | inr signal => exact hs

end Program

open Program

/-- With a listener that never stops a program, a store serves what it serves undisturbed. -/
theorem Serves.listen_silent {S π : Type} {P : σ → Prop} {store : ∀ query, EStateM ε σ (B query)}
    {answers : ∀ query, Except ε (B query)} (h : Serves P store answers)
    (listener : S → π → Bool × π) (hsilent : ∀ signal told, (listener signal told).1 = false) :
    Serves (fun s : σ × π => P s.1) (Program.listen store listener) (undisturbed answers) := by
  intro query s hs
  cases query with
  | inl query =>
    have hserved := h query s.1 hs
    unfold Program.listen
    dsimp only
    cases hrun : store query s.1 with
    | ok answer s' =>
      rw [hrun] at hserved
      exact hserved
    | error e s' =>
      rw [hrun] at hserved
      exact hserved
  | inr signal => exact ⟨hs, congrArg Except.ok (hsilent signal s.2).symm⟩

/-- However it is listened to, a program that stops when told to ends as it does undisturbed, or
with the error for having been stopped. -/
theorem Serves.listen {S π : Type} {P : σ → Prop} {store : ∀ query, EStateM ε σ (B query)}
    {answers : ∀ query, Except ε (B query)} (h : Serves P store answers) {e : ε}
    (listener : S → π → Bool × π) {p : Program (Q ⊕ S) (Heard B S) ε α} (hp : Stops e p) :
    Triple (fun s : σ × π => P s.1) (p.run (Program.listen store listener))
      (fun a s => P s.1 ∧ p.eval (undisturbed answers) = .ok a)
      fun e' s => P s.1 ∧ (e' = e ∨ p.eval (undisturbed answers) = .error e') := by
  induction p with
  | done result =>
    intro s hs
    cases result with
    | ok a => exact ⟨hs, rfl⟩
    | error e => exact ⟨hs, .inr rfl⟩
  | ask query next ih =>
    intro s hs
    unfold Program.run
    cases query with
    | inl query =>
      have hserved := h query s.1 hs
      have hrest := fun answer => ih answer (hp answer)
      have heval : (ask (.inl query) next).eval (undisturbed answers) =
          (next (answers query)).eval (undisturbed answers) := rfl
      simp only [heval, Program.listen]
      cases hstore : store query s.1 with
      | ok answer s' =>
        rw [hstore] at hserved
        rw [hserved.2]
        exact hrest (.ok answer) (s', s.2) hserved.1
      | error e' s' =>
        rw [hstore] at hserved
        rw [hserved.2]
        exact hrest (.error e') (s', s.2) hserved.1
    | inr signal =>
      unfold Program.listen
      dsimp only
      cases hstop : (listener signal s.2).1 with
      | true =>
        rw [hp.1]
        exact ⟨hs, .inl rfl⟩
      | false => exact ih (.ok false) hp.2 (s.1, (listener signal s.2).2) hs

end Queries
