import Mathlib.Data.List.Infix

/-!
# Programs as lists of operations

A process that works through a list of fallible operations is described by the
operations that are left, a suffix of the whole list. The suffix lemmas place its
next operation; `execute_of_progress` runs the rest to its end from an invariant
under which every next operation succeeds.

The operations, the state and the failures are of any type. That an operation may stop in the
middle is not modelled here but by the invariant of its user: it has to hold in front of every
operation that is left.
-/

namespace Programs

variable {σ α : Type*}

/-- Run a list of operations to its end. -/
def execute (apply : σ → α → Option σ) : List α → σ → Option σ
  | [], s => some s
  | a :: rest, s => (apply s a).bind (execute apply rest)

theorem execute_append {apply : σ → α → Option σ} (xs ys : List α) (s : σ) :
    execute apply (xs ++ ys) s = (execute apply xs s).bind (execute apply ys) := by
  induction xs generalizing s with
  | nil => rfl
  | cons a xs ih =>
    rw [List.cons_append, execute, execute, Option.bind_assoc]
    congr 1
    funext next
    exact ih next

theorem execute_of_progress {apply : σ → α → Option σ} {I : List α → σ → Prop}
    (hstep : ∀ a rest s, I (a :: rest) s → ∃ s', apply s a = some s' ∧ I rest s')
    {todo : List α} {s : σ} (h : I todo s) : ∃ s', execute apply todo s = some s' ∧ I [] s' := by
  induction todo generalizing s with
  | nil => exact ⟨s, rfl, h⟩
  | cons a rest ih =>
    obtain ⟨s₁, happly, h₁⟩ := hstep a rest s h
    obtain ⟨s', hexec, h'⟩ := ih h₁
    refine ⟨s', ?_, h'⟩
    rw [execute, happly, Option.bind_some, hexec]

/-- While an operation of the first part is next, the second part is still to come. -/
theorem suffix_of_cons_suffix_append {a : α} {rest xs ys : List α}
    (h : a :: rest <:+ xs ++ ys) (ha : a ∉ ys) : ys <:+ rest := by
  rcases List.suffix_or_suffix_of_suffix h (List.suffix_append xs ys) with hs | hs
  · exact absurd (hs.subset List.mem_cons_self) ha
  · rcases List.suffix_cons_iff.mp hs with heq | hs
    · exact absurd (heq ▸ List.mem_cons_self) ha
    · exact hs

/-- An operation that the first part does not hold is next in the second part. -/
theorem cons_suffix_of_suffix_append {a : α} {rest xs ys : List α}
    (h : a :: rest <:+ xs ++ ys) (ha : a ∉ xs) : a :: rest <:+ ys := by
  rcases List.suffix_or_suffix_of_suffix h (List.suffix_append xs ys) with hs | hs
  · exact hs
  · obtain ⟨before, hbefore⟩ := hs
    cases before with
    | nil =>
      rw [← hbefore]
      exact List.suffix_refl _
    | cons first before =>
      obtain ⟨outer, houter⟩ := h
      rw [← hbefore, ← List.append_assoc] at houter
      have hxs := (List.append_inj' houter rfl).1
      obtain ⟨rfl, -⟩ := List.cons.inj hbefore
      exact absurd (hxs ▸ List.mem_append_right outer List.mem_cons_self) ha

/-- An operation is not repeated when its key is not. -/
theorem key_ne_of_cons_suffix {β : Type*} {key : α → Option β} {a : α} {b : β} {rest ops : List α}
    (hnodup : (ops.filterMap key).Nodup) (h : a :: rest <:+ ops) (ha : key a = some b) :
    ∀ other ∈ rest, key other ≠ some b := by
  intro other hother hkey
  have hsub := (h.sublist.filterMap key).nodup hnodup
  rw [List.filterMap_cons_some ha, List.nodup_cons] at hsub
  exact hsub.1 (List.mem_filterMap.mpr ⟨other, hother, hkey⟩)

theorem eq_nil_of_cons_suffix_concat {a : α} {rest xs : List α}
    (h : a :: rest <:+ xs ++ [a]) (ha : a ∉ xs) : rest = [] := by
  obtain ⟨before, hbefore⟩ := h
  rcases List.eq_nil_or_concat rest with hrest | ⟨init, last, hrest⟩
  · exact hrest
  · rw [hrest, List.concat_eq_append, ← List.cons_append, ← List.append_assoc] at hbefore
    have hinit := (List.append_inj' hbefore rfl).1
    exact absurd (hinit ▸ List.mem_append_right before List.mem_cons_self) ha

theorem last_mem_of_suffix_concat {a : α} {todo xs : List α}
    (h : todo <:+ xs ++ [a]) (hne : todo ≠ []) : a ∈ todo := by
  obtain ⟨before, hbefore⟩ := h
  rcases List.eq_nil_or_concat todo with htodo | ⟨init, last, htodo⟩
  · exact absurd htodo hne
  · rw [htodo, List.concat_eq_append, ← List.append_assoc] at hbefore
    have hlast := (List.append_inj' hbefore rfl).2
    rw [htodo, List.concat_eq_append]
    exact List.mem_append_right init (by simpa using (List.cons.inj hlast).1.symm)

theorem tail_suffix {a : α} {rest ops : List α} (h : a :: rest <:+ ops) : rest <:+ ops :=
  (List.suffix_cons a rest).trans h

end Programs
