import EwfImage.Error
import EwfImage.Lib.Runs
import EwfImage.Lib.Triples
import Mathlib.Data.List.Nodup

/-!
# The pool of segment files

Path-backed images open their segment files when they need them, up to a maximum, and
close the least recently used idle ones. A read leases the file of its segment: while the
lease is active the file is shared, and the pool does not close it. Supplied readers stay
open. The lengths that the pool remembers and its statistics do not matter here.

The main result is `segmentFilePool_run`, about any sequence of acquisitions, releases, failed
opens and changes of the maximum, of which each may come at any moment.
`setMaximumOpenHandles_spec` and the lemma behind `exists_busy_of_acquire` are the steps. An
attempt to lease sees which files are idle; `Reading.PoolWaiters` connects this with the readers
that hold the leases. A change of the maximum that fails keeps what it has closed by then, as
`setMaximum_not_restores` shows.
-/

namespace EwfImage.Reading

open Fallible Triples

/-- An open segment: the file of a path, or a supplied reader. -/
inductive SegmentFileHandle
  | path (file : Nat)
  | supplied
  deriving DecidableEq

inductive SegmentFilePoolMode
  | reopenFromPath
  | suppliedReaders
  deriving DecidableEq

structure SegmentFilePool where
  files : List (Option SegmentFileHandle)
  openOrder : List Nat
  maximumOpenHandles : Option Nat
  mode : SegmentFilePoolMode
  deriving DecidableEq

abbrev PoolOp := EStateM EwfError SegmentFilePool

/-- `idle` says which files only the pool refers to. -/
def SegmentFileHandle.idlePathHandle (idle : Nat → Bool) : SegmentFileHandle → Bool
  | .path file => idle file
  | .supplied => false

def validateMaximumOpenHandles (maximumOpenHandles : Option Nat) : Result Unit :=
  if maximumOpenHandles = some 0 then
    .error (.unsupported "maximum open handles must be at least one")
  else .ok ()

namespace SegmentFilePool

def newPath (segmentCount : Nat) (maximumOpenHandles : Option Nat) : Result SegmentFilePool := do
  validateMaximumOpenHandles maximumOpenHandles
  return {
    files := List.replicate segmentCount none
    openOrder := []
    maximumOpenHandles
    mode := .reopenFromPath }

def newReaders (segmentCount : Nat) (maximumOpenHandles : Option Nat) :
    Result SegmentFilePool := do
  validateMaximumOpenHandles maximumOpenHandles
  (if maximumOpenHandles.any (· < segmentCount) then
    .error (.unsupported "maximum open handles cannot evict supplied segment readers")
  else .ok ())
  return {
    files := List.replicate segmentCount (some .supplied)
    openOrder := List.range segmentCount
    maximumOpenHandles
    mode := .suppliedReaders }

variable (pool : SegmentFilePool)

def openCount : Nat := pool.files.countP Option.isSome

def canCloseHandles : Bool := pool.mode = .reopenFromPath

/-- The slot of the segment holds the handle. -/
def Holds (segmentIndex : Nat) (handle : SegmentFileHandle) : Prop :=
  pool.files[segmentIndex]? = some (some handle)

end SegmentFilePool

section Operations

variable (idle : Nat → Bool)

/-- The loop of `close_least_recently_used` over as many entries of the order. -/
def closeCandidates : Nat → PoolOp Bool
  | 0 => pure false
  | candidates + 1 => do
    let pool ← get
    match pool.openOrder with
    | [] => pure false
    | segmentIndex :: order =>
      match pool.files[segmentIndex]? with
      | none => do
        set { pool with openOrder := order }
        throw (.malformed "segment index out of range")
      | some slot =>
        if slot.any (·.idlePathHandle idle) then do
          set { pool with openOrder := order, files := pool.files.set segmentIndex none }
          return true
        else do
          set { pool with openOrder := if slot.isSome then order ++ [segmentIndex] else order }
          closeCandidates candidates

def closeLeastRecentlyUsed : PoolOp Bool := do
  let pool ← get
  closeCandidates idle pool.openOrder.length

/-- Closes handles until fewer than `limit` are open, or none can be closed; every turn closes one
of at most `fuel` handles. -/
def closeUntilBelow (limit : Nat) : Nat → PoolOp Bool
  | 0 => pure true
  | fuel + 1 => do
    let pool ← get
    if pool.openCount < limit then return true
    else do
      let closed ← closeLeastRecentlyUsed idle
      if closed then closeUntilBelow limit fuel else return false

/-- Closes handles until there is room for one more. -/
def makeRoom : PoolOp Bool := do
  let pool ← get
  match pool.maximumOpenHandles with
  | none => return true
  | some maximum => closeUntilBelow idle maximum pool.openCount

def markUsed (segmentIndex : Nat) : PoolOp Unit :=
  modify fun pool => { pool with openOrder := pool.openOrder.erase segmentIndex ++ [segmentIndex] }

def reserveHandle : PoolOp Unit := do
  let pool ← get
  match pool.maximumOpenHandles with
  | none => pure ()
  | some maximum =>
    if maximum ≤ pool.openCount ∧ pool.canCloseHandles = false then
      throw (.unsupported "maximum open handles cannot evict supplied segment readers")
    else do
      let room ← makeRoom idle
      if room then pure ()
      else throw (.unsupported "maximum open handles are all serving active reads")

/-- `file_mut`; `opened` is what opening the file gives. -/
def fileMut (segmentIndex : Nat) (opened : Result Nat) : PoolOp SegmentFileHandle := do
  let pool ← get
  match pool.files[segmentIndex]? with
  | none => throw (.malformed "segment index out of range")
  | some (some handle) => do
    markUsed segmentIndex
    return handle
  | some none => do
    reserveHandle idle
    let pool ← get
    match pool.mode, opened with
    | .suppliedReaders, _ =>
      throw (.malformed "supplied segment reader was unexpectedly closed")
    | .reopenFromPath, .error e => throw e
    | .reopenFromPath, .ok file => do
      set { pool with files := pool.files.set segmentIndex (some (.path file)) }
      markUsed segmentIndex
      return .path file

/-- `acquire_path_file`: the file to lease, or nothing while all handles serve reads. -/
def acquirePathFile (segmentIndex : Nat) (opened : Result Nat) : PoolOp (Option Nat) := do
  let pool ← get
  if pool.mode ≠ .reopenFromPath then
    throw (.malformed "positioned file requested for a supplied segment reader")
  else match pool.files[segmentIndex]? with
    | none => throw (.malformed "segment index out of range")
    | some (some handle) => do
      markUsed segmentIndex
      match handle with
      | .path file => return some file
      | .supplied => throw (.malformed "path segment file was not opened")
    | some none => do
      let room ← makeRoom idle
      if room then
        match opened with
        | .error e => throw e
        | .ok file => do
          modify fun pool => { pool with files := pool.files.set segmentIndex (some (.path file)) }
          markUsed segmentIndex
          return some file
      else return none

def enforceLimit : PoolOp Unit := do
  let pool ← get
  match pool.maximumOpenHandles with
  | none => pure ()
  | some maximum =>
    if maximum < pool.openCount ∧ pool.canCloseHandles = false then
      throw (.unsupported "maximum open handles cannot evict supplied segment readers")
    else do
      let below ← closeUntilBelow idle (maximum + 1) pool.openCount
      if below then pure ()
      else throw (.unsupported "maximum open handles are all serving active reads")

def setMaximumOpenHandles (maximumOpenHandles : Option Nat) : PoolOp Unit := do
  match validateMaximumOpenHandles maximumOpenHandles with
  | .error e => throw e
  | .ok () => do
    let pool ← get
    if pool.canCloseHandles = false ∧ maximumOpenHandles.any (· < pool.openCount) then
      throw (.unsupported "maximum open handles cannot evict supplied segment readers")
    else do
      set { pool with maximumOpenHandles }
      tryCatch (enforceLimit idle) fun e => do
        modify fun changed => { changed with maximumOpenHandles := pool.maximumOpenHandles }
        throw e

end Operations

/-! ## Closing handles -/

namespace SegmentFilePool

/-- The order lists exactly the open slots, each once, and the handles are of the pool's mode. -/
structure Consistent (pool : SegmentFilePool) : Prop where
  nodup : pool.openOrder.Nodup
  mem_openOrder : ∀ i, i ∈ pool.openOrder ↔ ∃ handle, pool.Holds i handle
  mode : ∀ i handle, pool.Holds i handle → (handle = .supplied ↔ pool.mode = .suppliedReaders)

/-- Apart from the order, the pools only differ in that idle handles were closed. -/
structure Shrinks (idle : Nat → Bool) (pool pool' : SegmentFilePool) : Prop where
  maximum : pool'.maximumOpenHandles = pool.maximumOpenHandles
  mode : pool'.mode = pool.mode
  openCount_le : pool'.openCount ≤ pool.openCount
  slots : ∀ i, pool'.files[i]? = pool.files[i]? ∨
    (pool'.files[i]? = some none ∧
      ∃ handle, pool.Holds i handle ∧ handle.idlePathHandle idle = true)

variable {idle : Nat → Bool} {pool pool' pool'' : SegmentFilePool} {i : Nat}
  {handle : SegmentFileHandle}

theorem Shrinks.refl (idle : Nat → Bool) (pool : SegmentFilePool) : pool.Shrinks idle pool :=
  ⟨rfl, rfl, Nat.le_refl _, fun _ => .inl rfl⟩

/-- Pools with the same slots that differ in their order. -/
theorem Shrinks.of_files (hfiles : pool'.files = pool.files)
    (hmaximum : pool'.maximumOpenHandles = pool.maximumOpenHandles)
    (hmode : pool'.mode = pool.mode) : pool.Shrinks idle pool' :=
  ⟨hmaximum, hmode, Nat.le_of_eq (by unfold openCount; rw [hfiles]), fun _ => .inl (by rw [hfiles])⟩

theorem Shrinks.trans (h : pool.Shrinks idle pool') (h' : pool'.Shrinks idle pool'') :
    pool.Shrinks idle pool'' := by
  refine ⟨h'.maximum.trans h.maximum, h'.mode.trans h.mode,
    Nat.le_trans h'.openCount_le h.openCount_le, fun i => ?_⟩
  rcases h'.slots i with hsame | ⟨hclosed, handle, hholds, hidle⟩
  · rw [hsame]
    exact h.slots i
  · right
    refine ⟨hclosed, handle, ?_, hidle⟩
    rcases h.slots i with hsame | ⟨hnone, -⟩
    · unfold Holds at hholds ⊢
      rw [← hsame, hholds]
    · unfold Holds at hholds
      rw [hnone] at hholds
      cases hholds

/-- A handle that is in use stays in its slot. -/
theorem Shrinks.holds (h : pool.Shrinks idle pool') (hholds : pool.Holds i handle)
    (hbusy : handle.idlePathHandle idle = false) : pool'.Holds i handle := by
  rcases h.slots i with hsame | ⟨-, other, hother, hidle⟩
  · exact hsame.trans hholds
  · have heq : other = handle := by
      have := hother.symm.trans hholds
      cases this
      rfl
    rw [heq, hbusy] at hidle
    cases hidle

theorem Shrinks.of_holds (h : pool.Shrinks idle pool') (hholds : pool'.Holds i handle) :
    pool.Holds i handle := by
  rcases h.slots i with hsame | ⟨hnone, -⟩
  · exact hsame.symm.trans hholds
  · unfold Holds at hholds
    rw [hnone] at hholds
    cases hholds

theorem Shrinks.slot_none (h : pool.Shrinks idle pool') (hslot : pool.files[i]? = some none) :
    pool'.files[i]? = some none := by
  rcases h.slots i with hsame | ⟨hnone, -⟩
  · exact hsame.trans hslot
  · exact hnone

/-- An entry of the order moves to its end. -/
theorem Consistent.rotate {order : List Nat} (h : pool.Consistent)
    (horder : pool.openOrder = i :: order) :
    Consistent { pool with openOrder := order ++ [i] } := by
  have hperm : (order ++ [i]).Perm pool.openOrder := by
    rw [horder]
    exact List.perm_append_singleton i order
  exact ⟨hperm.nodup_iff.mpr h.nodup, fun j => hperm.mem_iff.trans (h.mem_openOrder j), h.mode⟩

theorem holds_set_none {files : List (Option SegmentFileHandle)} {j : Nat} :
    (files.set i none)[j]? = some (some handle) ↔ j ≠ i ∧ files[j]? = some (some handle) := by
  by_cases hij : i = j
  · subst hij
    simp only [ne_eq, not_true_eq_false, false_and, iff_false]
    intro h
    by_cases hlt : i < files.length
    · rw [List.getElem?_set_self hlt] at h
      cases h
    · rw [List.getElem?_eq_none (by rw [List.length_set]; omega)] at h
      cases h
  · rw [List.getElem?_set_ne hij]
    exact ⟨fun h => ⟨fun heq => hij heq.symm, h⟩, And.right⟩

/-- The first entry of the order is closed. -/
theorem Consistent.close {order : List Nat} (h : pool.Consistent)
    (horder : pool.openOrder = i :: order) :
    Consistent { pool with openOrder := order, files := pool.files.set i none } := by
  have hnodup := h.nodup
  rw [horder, List.nodup_cons] at hnodup
  refine ⟨hnodup.2, fun j => ?_,
    fun j handle hholds => h.mode j handle (holds_set_none.mp hholds).2⟩
  have hmem := h.mem_openOrder j
  rw [horder, List.mem_cons] at hmem
  constructor
  · intro hj
    have hne : j ≠ i := by
      rintro rfl
      exact hnodup.1 hj
    obtain ⟨handle, hholds⟩ := hmem.mp (.inr hj)
    exact ⟨handle, holds_set_none.mpr ⟨hne, hholds⟩⟩
  · rintro ⟨handle, hholds⟩
    obtain ⟨hne, hold⟩ := holds_set_none.mp hholds
    exact (hmem.mpr ⟨handle, hold⟩).resolve_left hne

theorem openCount_close {order : List Nat} (hholds : pool.Holds i handle) :
    openCount { pool with openOrder := order, files := pool.files.set i none } + 1 =
      pool.openCount := by
  obtain ⟨hlt, hget⟩ := List.getElem?_eq_some_iff.mp hholds
  have hpos : 0 < pool.files.countP Option.isSome :=
    List.countP_pos_iff.mpr ⟨_, List.getElem_mem hlt, by rw [hget]; rfl⟩
  unfold openCount
  rw [List.countP_set hlt, hget]
  simp only [Option.isSome_some, Option.isSome_none, if_true, Bool.false_eq_true, if_false]
  omega

theorem shrinks_close {order : List Nat} (hholds : pool.Holds i handle)
    (hidle : handle.idlePathHandle idle = true) :
    pool.Shrinks idle { pool with openOrder := order, files := pool.files.set i none } := by
  refine ⟨rfl, rfl, Nat.le_of_succ_le (Nat.le_of_eq (openCount_close hholds)), fun j => ?_⟩
  by_cases hij : i = j
  · subst hij
    have hlt : i < pool.files.length := (List.getElem?_eq_some_iff.mp hholds).1
    exact .inr ⟨List.getElem?_set_self hlt, handle, hholds, hidle⟩
  · exact .inl (List.getElem?_set_ne hij)

end SegmentFilePool

open SegmentFilePool

section Closing

variable (idle : Nat → Bool) {pool : SegmentFilePool}

theorem closeCandidates_succ (candidates : Nat) (pool : SegmentFilePool) :
    closeCandidates idle (candidates + 1) pool = match pool.openOrder with
      | [] => .ok false pool
      | segmentIndex :: order => match pool.files[segmentIndex]? with
        | none => .error (.malformed "segment index out of range") { pool with openOrder := order }
        | some slot =>
          if slot.any (·.idlePathHandle idle) then
            .ok true { pool with openOrder := order, files := pool.files.set segmentIndex none }
          else closeCandidates idle candidates
            { pool with openOrder := if slot.isSome then order ++ [segmentIndex] else order } := by
  change (match pool.openOrder with
      | [] => (pure false : PoolOp Bool)
      | segmentIndex :: order => _) pool = _
  cases pool.openOrder with
  | nil => rfl
  | cons i order =>
    simp only
    cases pool.files[i]? with
    | none => rfl
    | some slot =>
      simp only
      split <;> rfl

/-- Either an idle handle is closed, or none of the candidates is idle. -/
theorem closeCandidates_spec {candidates : Nat} (h : pool.Consistent)
    (hle : candidates ≤ pool.openOrder.length) :
    ∃ closed pool', closeCandidates idle candidates pool = .ok closed pool' ∧ pool'.Consistent ∧
      pool.Shrinks idle pool' ∧ (closed = true → pool'.openCount + 1 = pool.openCount) ∧
      (closed = false → pool'.files = pool.files ∧
        ∀ i ∈ pool.openOrder.take candidates, ∀ handle, pool.Holds i handle →
          handle.idlePathHandle idle = false) := by
  induction candidates generalizing pool with
  | zero =>
    exact ⟨false, pool, rfl, h, .refl idle pool, nofun, fun _ => ⟨rfl, by simp⟩⟩
  | succ candidates ih =>
    cases horder : pool.openOrder with
    | nil =>
      rw [horder] at hle
      simp at hle
    | cons i order =>
      obtain ⟨handle, hholds⟩ := (h.mem_openOrder i).mp (by rw [horder]; exact List.mem_cons_self)
      have hslot : pool.files[i]? = some (some handle) := hholds
      rw [closeCandidates_succ]
      simp only [horder, hslot, Option.any_some]
      by_cases hidle : handle.idlePathHandle idle = true
      · rw [if_pos hidle]
        exact ⟨true, _, rfl, h.close horder, shrinks_close hholds hidle,
          fun _ => openCount_close hholds, nofun⟩
      · rw [if_neg hidle]
        have hlength : candidates ≤ order.length := by
          rw [horder, List.length_cons] at hle
          omega
        obtain ⟨closed, pool', hrun, hconsistent, hshrinks, hclosed, hkept⟩ :=
          ih (h.rotate horder) (by rw [List.length_append]; omega)
        refine ⟨closed, pool', hrun, hconsistent, ?_, hclosed, fun hfalse => ?_⟩
        · have hrotated : pool.Shrinks idle { pool with openOrder := order ++ [i] } :=
            .of_files rfl rfl rfl
          exact hrotated.trans hshrinks
        · obtain ⟨hfiles, hbusy⟩ := hkept hfalse
          refine ⟨hfiles, fun j hj other hother => ?_⟩
          rw [List.take_succ_cons, List.mem_cons] at hj
          rcases hj with rfl | hj
          · cases hother.symm.trans hholds
            exact Bool.not_eq_true _ ▸ hidle
          · refine hbusy j ?_ other hother
            rwa [List.take_append_of_le_length hlength]

/-- Either an idle handle is closed, or every open one is in use. -/
theorem closeLeastRecentlyUsed_spec (h : pool.Consistent) :
    ∃ closed pool', closeLeastRecentlyUsed idle pool = .ok closed pool' ∧ pool'.Consistent ∧
      pool.Shrinks idle pool' ∧ (closed = true → pool'.openCount + 1 = pool.openCount) ∧
      (closed = false → pool'.files = pool.files ∧
        ∀ i handle, pool.Holds i handle → handle.idlePathHandle idle = false) := by
  obtain ⟨closed, pool', hrun, hconsistent, hshrinks, hclosed, hkept⟩ :=
    closeCandidates_spec idle h (Nat.le_refl _)
  refine ⟨closed, pool', hrun, hconsistent, hshrinks, hclosed, fun hfalse => ?_⟩
  obtain ⟨hfiles, hbusy⟩ := hkept hfalse
  refine ⟨hfiles, fun i handle hholds => hbusy i ?_ handle hholds⟩
  rw [List.take_length]
  exact (h.mem_openOrder i).mpr ⟨handle, hholds⟩

theorem closeUntilBelow_succ (limit fuel : Nat) (pool : SegmentFilePool) :
    closeUntilBelow idle limit (fuel + 1) pool =
      if pool.openCount < limit then .ok true pool
      else match closeLeastRecentlyUsed idle pool with
        | .ok true pool' => closeUntilBelow idle limit fuel pool'
        | .ok false pool' => .ok false pool'
        | .error e pool' => .error e pool' := by
  change (if pool.openCount < limit then (pure true : PoolOp Bool) else _) pool = _
  split
  · rfl
  · change EStateM.bind (closeLeastRecentlyUsed idle) _ pool = _
    unfold EStateM.bind
    cases closeLeastRecentlyUsed idle pool with
    | error e pool' => rfl
    | ok closed pool' => cases closed <;> rfl

/-- Either fewer handles are open than the limit, or every open one is in use. -/
theorem closeUntilBelow_spec {limit fuel : Nat} (h : pool.Consistent) (hlimit : 0 < limit)
    (hfuel : pool.openCount ≤ fuel) :
    ∃ below pool', closeUntilBelow idle limit fuel pool = .ok below pool' ∧ pool'.Consistent ∧
      pool.Shrinks idle pool' ∧ (below = true → pool'.openCount < limit) ∧
      (below = false → limit ≤ pool'.openCount ∧
        ∀ i handle, pool'.Holds i handle → handle.idlePathHandle idle = false) := by
  induction fuel generalizing pool with
  | zero =>
    exact ⟨true, pool, rfl, h, .refl idle pool, fun _ => by omega, nofun⟩
  | succ fuel ih =>
    rw [closeUntilBelow_succ]
    by_cases hbelow : pool.openCount < limit
    · rw [if_pos hbelow]
      exact ⟨true, pool, rfl, h, .refl idle pool, fun _ => hbelow, nofun⟩
    · rw [if_neg hbelow]
      obtain ⟨closed, pool', hrun, hconsistent, hshrinks, hclosed, hkept⟩ :=
        closeLeastRecentlyUsed_spec idle h
      rw [hrun]
      cases closed with
      | true =>
        have hcount := hclosed rfl
        obtain ⟨below, pool'', hrun', hconsistent', hshrinks', hrest⟩ :=
          ih hconsistent (by omega)
        exact ⟨below, pool'', hrun', hconsistent', hshrinks.trans hshrinks', hrest⟩
      | false =>
        obtain ⟨hfiles, hbusy⟩ := hkept rfl
        refine ⟨false, pool', rfl, hconsistent, hshrinks, nofun, fun _ => ⟨?_, ?_⟩⟩
        · unfold openCount at hbelow ⊢
          rw [hfiles]
          omega
        · intro i handle hholds
          exact hbusy i handle (hshrinks.of_holds hholds)

end Closing

/-! ## What the operations keep -/

namespace SegmentFilePool

/-- A pool between operations. -/
structure Sound (pool : SegmentFilePool) : Prop extends pool.Consistent where
  within : ∀ maximum, pool.maximumOpenHandles = some maximum →
    0 < maximum ∧ pool.openCount ≤ maximum

/-- An operation on a segment closes idle handles and opens at most the file of the segment. -/
structure Serves (idle : Nat → Bool) (segmentIndex : Nat) (opened : Result Nat)
    (pool pool' : SegmentFilePool) : Prop extends pool'.Sound where
  maximum : pool'.maximumOpenHandles = pool.maximumOpenHandles
  kept : ∀ i handle, pool.Holds i handle → handle.idlePathHandle idle = false →
    pool'.Holds i handle
  origin : ∀ i handle, pool'.Holds i handle → pool.Holds i handle ∨
    ∃ file, opened = .ok file ∧ handle = .path file ∧ i = segmentIndex

variable {idle : Nat → Bool} {pool pool' : SegmentFilePool} {segmentIndex : Nat}
  {opened : Result Nat} {handle : SegmentFileHandle}

theorem Sound.refl (h : pool.Sound) : pool.Serves idle segmentIndex opened pool :=
  { h with
    maximum := rfl
    kept := fun _ _ hholds _ => hholds
    origin := fun _ _ hholds => .inl hholds }

theorem Serves.of_shrinks (hconsistent : pool'.Consistent) (hshrinks : pool.Shrinks idle pool')
    (hwithin : ∀ maximum, pool.maximumOpenHandles = some maximum →
      0 < maximum ∧ pool'.openCount ≤ maximum) : pool.Serves idle segmentIndex opened pool' :=
  { hconsistent with
    within := fun maximum hmaximum => hwithin maximum (hshrinks.maximum.symm.trans hmaximum)
    maximum := hshrinks.maximum
    kept := fun _ _ hholds hbusy => hshrinks.holds hholds hbusy
    origin := fun _ _ hholds => .inl (hshrinks.of_holds hholds) }

/-- The pool with the segment as the most recently used one. -/
def marked (pool : SegmentFilePool) (segmentIndex : Nat) : SegmentFilePool :=
  { pool with openOrder := pool.openOrder.erase segmentIndex ++ [segmentIndex] }

theorem Consistent.marked (h : pool.Consistent) (hholds : pool.Holds segmentIndex handle) :
    (pool.marked segmentIndex).Consistent := by
  have hmem : segmentIndex ∈ pool.openOrder := (h.mem_openOrder segmentIndex).mpr ⟨handle, hholds⟩
  have hperm : (pool.openOrder.erase segmentIndex ++ [segmentIndex]).Perm pool.openOrder :=
    (List.perm_append_singleton _ _).trans (List.perm_cons_erase hmem).symm
  exact ⟨hperm.nodup_iff.mpr h.nodup, fun j => hperm.mem_iff.trans (h.mem_openOrder j), h.mode⟩

theorem Sound.marked (h : pool.Sound) (hholds : pool.Holds segmentIndex handle) :
    pool.Serves idle segmentIndex opened (pool.marked segmentIndex) :=
  { h.toConsistent.marked hholds with
    within := h.within
    maximum := rfl
    kept := fun _ _ hold _ => hold
    origin := fun _ _ hold => .inl hold }

/-- The pool with a file opened for the segment. -/
def withFile (pool : SegmentFilePool) (segmentIndex file : Nat) : SegmentFilePool :=
  { pool with files := pool.files.set segmentIndex (some (.path file)) }.marked segmentIndex

theorem holds_withFile {file i : Nat} (hslot : pool.files[segmentIndex]? = some none) :
    (pool.withFile segmentIndex file).Holds i handle ↔
      pool.Holds i handle ∨ (i = segmentIndex ∧ handle = .path file) := by
  have hlt : segmentIndex < pool.files.length := (List.getElem?_eq_some_iff.mp hslot).1
  change (pool.files.set segmentIndex (some (.path file)))[i]? = some (some handle) ↔ _
  by_cases hi : segmentIndex = i
  · subst hi
    rw [List.getElem?_set_self hlt]
    unfold Holds
    rw [hslot]
    simp [eq_comm]
  · rw [List.getElem?_set_ne hi]
    exact ⟨.inl, fun h => h.resolve_right fun hsame => hi hsame.1.symm⟩

theorem openCount_withFile {file : Nat} (hslot : pool.files[segmentIndex]? = some none) :
    (pool.withFile segmentIndex file).openCount = pool.openCount + 1 := by
  obtain ⟨hlt, hget⟩ := List.getElem?_eq_some_iff.mp hslot
  change (pool.files.set segmentIndex (some (.path file))).countP Option.isSome = _
  rw [List.countP_set hlt, hget]
  simp [openCount]

theorem Consistent.withFile {file : Nat} (h : pool.Consistent)
    (hslot : pool.files[segmentIndex]? = some none) (hmode : pool.mode = .reopenFromPath) :
    (pool.withFile segmentIndex file).Consistent := by
  have hnot : segmentIndex ∉ pool.openOrder := by
    intro hmem
    obtain ⟨handle, hholds⟩ := (h.mem_openOrder segmentIndex).mp hmem
    cases hslot.symm.trans hholds
  have horder : (pool.withFile segmentIndex file).openOrder = pool.openOrder ++ [segmentIndex] := by
    change pool.openOrder.erase segmentIndex ++ [segmentIndex] = _
    rw [List.erase_of_not_mem hnot]
  refine ⟨?_, fun i => ?_, fun i handle hholds => ?_⟩
  · rw [horder]
    exact List.nodup_append.mpr ⟨h.nodup, List.nodup_singleton _, by
      intro i hi j hj
      rw [List.mem_singleton] at hj
      rintro rfl
      exact hnot (hj ▸ hi)⟩
  · rw [horder, List.mem_append, List.mem_singleton, h.mem_openOrder i]
    constructor
    · rintro (⟨handle, hholds⟩ | rfl)
      · exact ⟨handle, (holds_withFile hslot).mpr (.inl hholds)⟩
      · exact ⟨_, (holds_withFile hslot).mpr (.inr ⟨rfl, rfl⟩)⟩
    · rintro ⟨handle, hholds⟩
      rcases (holds_withFile hslot).mp hholds with hold | ⟨rfl, -⟩
      · exact .inl ⟨handle, hold⟩
      · exact .inr rfl
  · rcases (holds_withFile hslot).mp hholds with hold | ⟨-, rfl⟩
    · exact h.mode i handle hold
    · refine ⟨fun hpath => (by cases hpath), fun hsupplied => ?_⟩
      have hpool : pool.mode = .suppliedReaders := hsupplied
      rw [hmode] at hpool
      cases hpool

/-- Idle handles are closed, and the file of the segment is opened. -/
theorem Serves.of_withFile {file : Nat} (hconsistent : pool'.Consistent)
    (hshrinks : pool.Shrinks idle pool') (hslot : pool'.files[segmentIndex]? = some none)
    (hmode : pool'.mode = .reopenFromPath)
    (hwithin : ∀ maximum, pool.maximumOpenHandles = some maximum → pool'.openCount < maximum)
    (hopened : opened = .ok file) :
    pool.Serves idle segmentIndex opened (pool'.withFile segmentIndex file) :=
  { hconsistent.withFile hslot hmode with
    within := by
      intro maximum hmaximum
      have hlt := hwithin maximum (hshrinks.maximum.symm.trans hmaximum)
      rw [openCount_withFile hslot]
      exact ⟨by omega, hlt⟩
    maximum := hshrinks.maximum
    kept := fun _ _ hholds hbusy => (holds_withFile hslot).mpr (.inl (hshrinks.holds hholds hbusy))
    origin := by
      intro i handle hholds
      rcases (holds_withFile hslot).mp hholds with hold | ⟨rfl, rfl⟩
      · exact .inl (hshrinks.of_holds hold)
      · exact .inr ⟨file, hopened, rfl, rfl⟩ }

end SegmentFilePool

section Specs

variable (idle : Nat → Bool) {pool pool' : SegmentFilePool} {segmentIndex : Nat}
  (opened : Result Nat)

theorem makeRoom_eq (pool : SegmentFilePool) :
    makeRoom idle pool = match pool.maximumOpenHandles with
      | none => .ok true pool
      | some maximum => closeUntilBelow idle maximum pool.openCount pool := by
  change (match pool.maximumOpenHandles with
    | none => (pure true : PoolOp Bool)
    | some maximum => closeUntilBelow idle maximum pool.openCount) pool = _
  cases pool.maximumOpenHandles <;> rfl

theorem makeRoom_spec (segmentIndex : Nat) (h : pool.Sound) :
    ∃ room pool', makeRoom idle pool = .ok room pool' ∧ pool'.Consistent ∧
      pool.Shrinks idle pool' ∧
      (room = true → ∀ maximum, pool.maximumOpenHandles = some maximum →
        pool'.openCount < maximum) ∧
      (room = false → pool.Serves idle segmentIndex opened pool' ∧ 0 < pool'.openCount ∧
        ∀ i handle, pool'.Holds i handle → handle.idlePathHandle idle = false) := by
  rw [makeRoom_eq]
  cases hmaximum : pool.maximumOpenHandles with
  | none => exact ⟨true, pool, rfl, h.toConsistent, .refl idle pool, nofun, nofun⟩
  | some maximum =>
    obtain ⟨hpos, hle⟩ := h.within maximum hmaximum
    obtain ⟨room, pool', hrun, hconsistent, hshrinks, htrue, hfalse⟩ :=
      closeUntilBelow_spec idle h.toConsistent hpos (Nat.le_refl _)
    refine ⟨room, pool', hrun, hconsistent, hshrinks, ?_, fun hroom => ?_⟩
    · intro hroom other hother
      cases hother
      exact htrue hroom
    · obtain ⟨hge, hbusy⟩ := hfalse hroom
      refine ⟨.of_shrinks hconsistent hshrinks fun other hother => ?_, by omega, hbusy⟩
      cases hmaximum.symm.trans hother
      exact ⟨hpos, Nat.le_trans hshrinks.openCount_le hle⟩

theorem acquirePathFile_eq (pool : SegmentFilePool) :
    acquirePathFile idle segmentIndex opened pool =
      if pool.mode ≠ .reopenFromPath then
        .error (.malformed "positioned file requested for a supplied segment reader") pool
      else match pool.files[segmentIndex]? with
        | none => .error (.malformed "segment index out of range") pool
        | some (some (.path file)) => .ok (some file) (pool.marked segmentIndex)
        | some (some .supplied) =>
          .error (.malformed "path segment file was not opened") (pool.marked segmentIndex)
        | some none => match makeRoom idle pool with
          | .ok true pool' => match opened with
            | .ok file => .ok (some file) (pool'.withFile segmentIndex file)
            | .error e => .error e pool'
          | .ok false pool' => .ok none pool'
          | .error e pool' => .error e pool' := by
  change (if pool.mode ≠ .reopenFromPath then
    (throw (.malformed "positioned file requested for a supplied segment reader") :
      PoolOp (Option Nat)) else _) pool = _
  split
  · rfl
  · cases pool.files[segmentIndex]? with
    | none => rfl
    | some slot =>
      cases slot with
      | some handle => cases handle <;> rfl
      | none =>
        change EStateM.bind (makeRoom idle) _ pool = _
        unfold EStateM.bind
        cases makeRoom idle pool with
        | error e pool' => rfl
        | ok room pool' =>
          cases room with
          | false => rfl
          | true => cases opened <;> rfl

/-- A file to lease is the one in the slot; when there is none, all open handles are in use. -/
theorem acquirePathFile_spec (segmentIndex : Nat) (h : pool.Sound) :
    match acquirePathFile idle segmentIndex opened pool with
    | .ok (some file) pool' =>
      pool.Serves idle segmentIndex opened pool' ∧ pool'.Holds segmentIndex (.path file)
    | .ok none pool' => pool.Serves idle segmentIndex opened pool' ∧ 0 < pool'.openCount ∧
        ∀ i handle, pool'.Holds i handle → handle.idlePathHandle idle = false
    | .error _ pool' => pool.Serves idle segmentIndex opened pool' := by
  rw [acquirePathFile_eq]
  by_cases hmode : pool.mode = .reopenFromPath
  · rw [if_neg (not_not_intro hmode)]
    cases hslot : pool.files[segmentIndex]? with
    | none => exact h.refl
    | some slot =>
      cases slot with
      | some handle =>
        cases handle with
        | path file => exact ⟨h.marked hslot, hslot⟩
        | supplied => exact h.marked hslot
      | none =>
        obtain ⟨room, pool', hrun, hconsistent, hshrinks, htrue, hfalse⟩ :=
          makeRoom_spec idle opened segmentIndex h
        simp only [hrun]
        cases room with
        | false => exact hfalse rfl
        | true =>
          have hslot' := hshrinks.slot_none hslot
          have hmode' := hshrinks.mode.trans hmode
          cases hopened : opened with
          | ok file =>
            refine ⟨.of_withFile hconsistent hshrinks hslot' hmode' (htrue rfl) rfl, ?_⟩
            exact (holds_withFile hslot').mpr (.inr ⟨rfl, rfl⟩)
          | error e =>
            refine Serves.of_shrinks hconsistent hshrinks fun maximum hmaximum => ?_
            have hlt := htrue rfl maximum hmaximum
            exact ⟨by omega, Nat.le_of_lt hlt⟩
  · rw [if_pos hmode]
    exact h.refl

theorem reserveHandle_eq (pool : SegmentFilePool) :
    reserveHandle idle pool = match pool.maximumOpenHandles with
      | none => .ok () pool
      | some maximum =>
        if maximum ≤ pool.openCount ∧ pool.canCloseHandles = false then
          .error (.unsupported "maximum open handles cannot evict supplied segment readers") pool
        else match makeRoom idle pool with
          | .ok true pool' => .ok () pool'
          | .ok false pool' =>
            .error (.unsupported "maximum open handles are all serving active reads") pool'
          | .error e pool' => .error e pool' := by
  change (match pool.maximumOpenHandles with
    | none => (pure () : PoolOp Unit)
    | some maximum => _) pool = _
  cases pool.maximumOpenHandles with
  | none => rfl
  | some maximum =>
    simp only
    split
    · rfl
    · change EStateM.bind (makeRoom idle) _ pool = _
      unfold EStateM.bind
      cases makeRoom idle pool with
      | error e pool' => rfl
      | ok room pool' => cases room <;> rfl

theorem reserveHandle_spec (segmentIndex : Nat) (h : pool.Sound) :
    match reserveHandle idle pool with
    | .ok () pool' => pool'.Consistent ∧ pool.Shrinks idle pool' ∧
        ∀ maximum, pool.maximumOpenHandles = some maximum → pool'.openCount < maximum
    | .error _ pool' => pool.Serves idle segmentIndex opened pool' := by
  rw [reserveHandle_eq]
  cases hmaximum : pool.maximumOpenHandles with
  | none => exact ⟨h.toConsistent, .refl idle pool, nofun⟩
  | some maximum =>
    by_cases hguard : maximum ≤ pool.openCount ∧ pool.canCloseHandles = false
    · simp only [if_pos hguard]
      exact h.refl
    · obtain ⟨room, pool', hrun, hconsistent, hshrinks, htrue, hfalse⟩ :=
        makeRoom_spec idle opened segmentIndex h
      simp only [if_neg hguard, hrun]
      cases room with
      | false => exact (hfalse rfl).1
      | true => exact ⟨hconsistent, hshrinks, hmaximum ▸ htrue rfl⟩

theorem fileMut_eq (pool : SegmentFilePool) :
    fileMut idle segmentIndex opened pool = match pool.files[segmentIndex]? with
      | none => .error (.malformed "segment index out of range") pool
      | some (some handle) => .ok handle (pool.marked segmentIndex)
      | some none => match reserveHandle idle pool with
        | .error e pool' => .error e pool'
        | .ok () pool' => match pool'.mode, opened with
          | .suppliedReaders, _ =>
            .error (.malformed "supplied segment reader was unexpectedly closed") pool'
          | .reopenFromPath, .error e => .error e pool'
          | .reopenFromPath, .ok file => .ok (.path file) (pool'.withFile segmentIndex file) := by
  change (match pool.files[segmentIndex]? with
    | none => (throw (EwfError.malformed "segment index out of range") : PoolOp SegmentFileHandle)
    | some (some handle) => _
    | some none => _) pool = _
  cases pool.files[segmentIndex]? with
  | none => rfl
  | some slot =>
    cases slot with
    | some handle => rfl
    | none =>
      change EStateM.bind (reserveHandle idle) _ pool = _
      unfold EStateM.bind
      cases reserveHandle idle pool with
      | error e pool' => rfl
      | ok _ pool' =>
        obtain ⟨files, openOrder, maximum, mode⟩ := pool'
        cases mode <;> cases opened <;> rfl

/-- Whichever way `file_mut` ends. -/
theorem fileMut_spec (segmentIndex : Nat) (h : pool.Sound) :
    match fileMut idle segmentIndex opened pool with
    | .ok _ pool' | .error _ pool' => pool.Serves idle segmentIndex opened pool' := by
  rw [fileMut_eq]
  cases hslot : pool.files[segmentIndex]? with
  | none => exact h.refl
  | some slot =>
    cases slot with
    | some handle => exact h.marked hslot
    | none =>
      have hreserve := reserveHandle_spec idle opened segmentIndex h
      simp only
      cases hrun : reserveHandle idle pool with
      | error e pool' =>
        rw [hrun] at hreserve
        exact hreserve
      | ok _ pool' =>
        rw [hrun] at hreserve
        obtain ⟨hconsistent, hshrinks, hlt⟩ := hreserve
        have hserves : pool.Serves idle segmentIndex opened pool' :=
          .of_shrinks hconsistent hshrinks fun maximum hmaximum =>
            ⟨Nat.lt_of_le_of_lt (Nat.zero_le _) (hlt maximum hmaximum),
              Nat.le_of_lt (hlt maximum hmaximum)⟩
        cases hmode : pool'.mode with
        | suppliedReaders =>
          simp only [hmode]
          exact hserves
        | reopenFromPath =>
          cases opened with
          | error e =>
            simp only [hmode]
            exact hserves
          | ok file =>
            simp only [hmode]
            exact .of_withFile hconsistent hshrinks (hshrinks.slot_none hslot) hmode hlt rfl

theorem enforceLimit_eq (pool : SegmentFilePool) :
    enforceLimit idle pool = match pool.maximumOpenHandles with
      | none => .ok () pool
      | some maximum =>
        if maximum < pool.openCount ∧ pool.canCloseHandles = false then
          .error (.unsupported "maximum open handles cannot evict supplied segment readers") pool
        else match closeUntilBelow idle (maximum + 1) pool.openCount pool with
          | .ok true pool' => .ok () pool'
          | .ok false pool' =>
            .error (.unsupported "maximum open handles are all serving active reads") pool'
          | .error e pool' => .error e pool' := by
  change (match pool.maximumOpenHandles with
    | none => (pure () : PoolOp Unit)
    | some maximum => _) pool = _
  cases pool.maximumOpenHandles with
  | none => rfl
  | some maximum =>
    simp only
    split
    · rfl
    · change EStateM.bind (closeUntilBelow idle (maximum + 1) pool.openCount) _ pool = _
      unfold EStateM.bind
      cases closeUntilBelow idle (maximum + 1) pool.openCount pool with
      | error e pool' => rfl
      | ok below pool' => cases below <;> rfl

theorem enforceLimit_spec (h : pool.Consistent) :
    match enforceLimit idle pool with
    | .ok () pool' => pool'.Consistent ∧ pool.Shrinks idle pool' ∧
        ∀ maximum, pool.maximumOpenHandles = some maximum → pool'.openCount ≤ maximum
    | .error _ pool' => pool'.Consistent ∧ pool.Shrinks idle pool' := by
  rw [enforceLimit_eq]
  cases hmaximum : pool.maximumOpenHandles with
  | none => exact ⟨h, .refl idle pool, nofun⟩
  | some maximum =>
    by_cases hguard : maximum < pool.openCount ∧ pool.canCloseHandles = false
    · simp only [if_pos hguard]
      exact ⟨h, .refl idle pool⟩
    · obtain ⟨below, pool', hrun, hconsistent, hshrinks, htrue, -⟩ :=
        closeUntilBelow_spec idle h (Nat.succ_pos maximum) (Nat.le_refl _)
      simp only [if_neg hguard, hrun]
      cases below with
      | false => exact ⟨hconsistent, hshrinks⟩
      | true =>
        refine ⟨hconsistent, hshrinks, fun other hother => ?_⟩
        cases hother
        exact Nat.le_of_lt_succ (htrue rfl)

theorem setMaximumOpenHandles_eq (maximum : Option Nat) (pool : SegmentFilePool) :
    setMaximumOpenHandles idle maximum pool = match validateMaximumOpenHandles maximum with
      | .error e => .error e pool
      | .ok () =>
        if pool.canCloseHandles = false ∧ maximum.any (· < pool.openCount) then
          .error (.unsupported "maximum open handles cannot evict supplied segment readers") pool
        else match enforceLimit idle { pool with maximumOpenHandles := maximum } with
          | .ok () pool' => .ok () pool'
          | .error e pool' =>
            .error e { pool' with maximumOpenHandles := pool.maximumOpenHandles } := by
  unfold setMaximumOpenHandles
  cases validateMaximumOpenHandles maximum with
  | error e => rfl
  | ok _ =>
    change (if pool.canCloseHandles = false ∧ maximum.any (· < pool.openCount) then
      (throw (.unsupported "maximum open handles cannot evict supplied segment readers") :
        PoolOp Unit) else _) pool = _
    split
    · rfl
    · change EStateM.tryCatch (enforceLimit idle) _ { pool with maximumOpenHandles := maximum } = _
      unfold EStateM.tryCatch
      simp only
      cases enforceLimit idle { pool with maximumOpenHandles := maximum } <;> rfl

/-- A failure puts the limit back; whichever way it ends, only idle handles are closed. -/
theorem setMaximumOpenHandles_spec (maximum : Option Nat) (h : pool.Sound) :
    match setMaximumOpenHandles idle maximum pool with
    | .ok () pool' => pool'.Sound ∧ ∀ i, pool'.files[i]? = pool.files[i]? ∨
        (pool'.files[i]? = some none ∧
          ∃ handle, pool.Holds i handle ∧ handle.idlePathHandle idle = true)
    | .error _ pool' => pool'.Sound ∧ pool.Shrinks idle pool' := by
  rw [setMaximumOpenHandles_eq]
  cases hvalid : validateMaximumOpenHandles maximum with
  | error e => exact ⟨h, .refl idle pool⟩
  | ok _ =>
    by_cases hguard : pool.canCloseHandles = false ∧ maximum.any (· < pool.openCount)
    · simp only [if_pos hguard]
      exact ⟨h, .refl idle pool⟩
    · simp only [if_neg hguard]
      have hlimited : Consistent { pool with maximumOpenHandles := maximum } :=
        ⟨h.nodup, h.mem_openOrder, h.mode⟩
      have henforce := enforceLimit_spec idle hlimited
      cases hrun : enforceLimit idle { pool with maximumOpenHandles := maximum } with
      | ok _ pool' =>
        rw [hrun] at henforce
        obtain ⟨hconsistent, hshrinks, hle⟩ := henforce
        refine ⟨⟨hconsistent, fun limit hlimit => ?_⟩, hshrinks.slots⟩
        have hsame : maximum = some limit := hshrinks.maximum.symm.trans hlimit
        refine ⟨?_, hle limit hsame⟩
        by_contra hzero
        rw [hsame, Nat.eq_zero_of_not_pos hzero] at hvalid
        cases hvalid
      | error e pool' =>
        rw [hrun] at henforce
        obtain ⟨hconsistent, hshrinks⟩ := henforce
        have hback : pool.Shrinks idle
            { pool' with maximumOpenHandles := pool.maximumOpenHandles } :=
          ⟨rfl, hshrinks.mode, hshrinks.openCount_le, hshrinks.slots⟩
        refine ⟨⟨⟨hconsistent.nodup, hconsistent.mem_openOrder, hconsistent.mode⟩, ?_⟩, hback⟩
        intro limit hlimit
        obtain ⟨hpos, hle⟩ := h.within limit hlimit
        exact ⟨hpos, Nat.le_trans hback.openCount_le hle⟩

/-- There is nothing to lease only while a file is in use. -/
theorem exists_busy_of_acquire {pool' : SegmentFilePool} (h : pool.Sound)
    (hrun : acquirePathFile idle segmentIndex opened pool = .ok none pool') :
    ∃ file, idle file = false := by
  have hspec := acquirePathFile_spec idle opened segmentIndex h
  rw [hrun] at hspec
  obtain ⟨hserves, hpos, hbusy⟩ := hspec
  obtain ⟨slot, hmem, hsome⟩ := List.countP_pos_iff.mp hpos
  obtain ⟨i, hi⟩ := List.getElem?_of_mem hmem
  obtain ⟨handle, rfl⟩ := Option.isSome_iff_exists.mp hsome
  have hidle := hbusy i handle hi
  cases handle with
  | path file => exact ⟨file, hidle⟩
  | supplied =>
    have hmode : pool.mode = .suppliedReaders := by
      rcases hserves.origin i _ hi with hold | ⟨_, -, hpath, -⟩
      · exact (h.mode i _ hold).mp rfl
      · cases hpath
    rw [acquirePathFile_eq, if_pos (by rw [hmode]; nofun)] at hrun
    cases hrun

end Specs

/-! ## Sequences of operations -/

/-- A pool with the active leases, each of the file of a segment, and the number that the next
opened file gets. -/
structure PoolSystem where
  pool : SegmentFilePool
  leases : List (Nat × Nat) := []
  nextFile : Nat := 0

inductive PoolOperation
  /-- A read leases the file of a segment; opening it may fail. -/
  | acquire (segmentIndex : Nat) (failure : Option EwfError)
  /-- A lease ends. -/
  | release (lease : Nat)
  /-- The file of a segment is used under the lock; opening it may fail. -/
  | fileMut (segmentIndex : Nat) (failure : Option EwfError)
  | setMaximum (maximumOpenHandles : Option Nat)

namespace PoolSystem

variable (s : PoolSystem)

/-- Only the pool refers to a file that is not leased. -/
def idle (file : Nat) : Bool := file ∉ s.leases.map Prod.snd

def opened : Option EwfError → Result Nat
  | none => .ok s.nextFile
  | some e => .error e

def apply : PoolOperation → PoolSystem
  | .acquire segmentIndex failure =>
    match acquirePathFile s.idle segmentIndex (s.opened failure) s.pool with
    | .ok (some file) pool => ⟨pool, (segmentIndex, file) :: s.leases, s.nextFile + 1⟩
    | .ok none pool | .error _ pool => ⟨pool, s.leases, s.nextFile + 1⟩
  | .release lease => { s with leases := s.leases.eraseIdx lease }
  | .fileMut segmentIndex failure =>
    match fileMut s.idle segmentIndex (s.opened failure) s.pool with
    | .ok _ pool | .error _ pool => ⟨pool, s.leases, s.nextFile + 1⟩
  | .setMaximum maximumOpenHandles =>
    match setMaximumOpenHandles s.idle maximumOpenHandles s.pool with
    | .ok _ pool | .error _ pool => { s with pool }

/-- A sound pool that holds every leased file, in slots that do not share one. -/
structure Leased (s : PoolSystem) : Prop where
  sound : s.pool.Sound
  leased : ∀ segmentIndex file, (segmentIndex, file) ∈ s.leases →
    s.pool.Holds segmentIndex (.path file)
  fresh : ∀ i file, s.pool.Holds i (.path file) → file < s.nextFile
  apart : ∀ i j file, s.pool.Holds i (.path file) → s.pool.Holds j (.path file) → i = j

variable {s} {pool' : SegmentFilePool} {segmentIndex : Nat} {failure : Option EwfError}

theorem busy_of_lease {file : Nat} (h : (segmentIndex, file) ∈ s.leases) :
    (SegmentFileHandle.path file).idlePathHandle s.idle = false := by
  have hmem : file ∈ s.leases.map Prod.snd := List.mem_map.mpr ⟨_, h, rfl⟩
  simp only [SegmentFileHandle.idlePathHandle, idle, hmem, not_true_eq_false, decide_false]

theorem Leased.of_serves (h : s.Leased)
    (hserves : s.pool.Serves s.idle segmentIndex (s.opened failure) pool') :
    Leased ⟨pool', s.leases, s.nextFile + 1⟩ := by
  have horigin : ∀ i file, pool'.Holds i (.path file) → s.pool.Holds i (.path file) ∨
      (file = s.nextFile ∧ i = segmentIndex) := by
    intro i file hholds
    rcases hserves.origin i _ hholds with hold | ⟨other, hopened, heq, rfl⟩
    · exact .inl hold
    · cases heq
      cases failure with
      | none => exact .inr ⟨(Except.ok.inj hopened).symm, rfl⟩
      | some e => cases hopened
  refine ⟨hserves.toSound, fun i file hlease => ?_, fun i file hholds => ?_,
    fun i j file hi hj => ?_⟩
  · exact hserves.kept i _ (h.leased i file hlease) (busy_of_lease hlease)
  · rcases horigin i file hholds with hold | ⟨rfl, -⟩
    · exact Nat.lt_succ_of_lt (h.fresh i file hold)
    · exact Nat.lt_succ_self _
  · rcases horigin i file hi with hold | ⟨hfile, rfl⟩
    · rcases horigin j file hj with hold' | ⟨rfl, -⟩
      · exact h.apart i j file hold hold'
      · exact absurd (h.fresh i _ hold) (Nat.lt_irrefl _)
    · rcases horigin j file hj with hold' | ⟨-, rfl⟩
      · exact absurd (hfile ▸ h.fresh j file hold') (Nat.lt_irrefl _)
      · rfl

/-- Only idle handles are closed. -/
theorem Leased.of_slots (h : s.Leased) (hsound : pool'.Sound)
    (hslots : ∀ i, pool'.files[i]? = s.pool.files[i]? ∨ (pool'.files[i]? = some none ∧
      ∃ handle, s.pool.Holds i handle ∧ handle.idlePathHandle s.idle = true)) :
    Leased { s with pool := pool' } := by
  have hback : ∀ i handle, pool'.Holds i handle → s.pool.Holds i handle := by
    intro i handle hholds
    rcases hslots i with hsame | ⟨hnone, -⟩
    · exact hsame.symm.trans hholds
    · cases hnone.symm.trans hholds
  refine ⟨hsound, fun i file hlease => ?_, fun i file hholds => h.fresh i file (hback i _ hholds),
    fun i j file hi hj => h.apart i j file (hback i _ hi) (hback j _ hj)⟩
  have hheld := h.leased i file hlease
  rcases hslots i with hsame | ⟨-, handle, hholds, hidle⟩
  · exact hsame.trans hheld
  · cases hheld.symm.trans hholds
    have hbusy := busy_of_lease (s := s) hlease
    rw [hbusy] at hidle
    cases hidle

theorem Leased.apply (h : s.Leased) (operation : PoolOperation) : (s.apply operation).Leased := by
  cases operation with
  | acquire segmentIndex failure =>
    have hspec := acquirePathFile_spec s.idle (s.opened failure) segmentIndex h.sound
    unfold PoolSystem.apply
    cases hrun : acquirePathFile s.idle segmentIndex (s.opened failure) s.pool with
    | error e pool' =>
      rw [hrun] at hspec
      simp only [hrun]
      exact h.of_serves hspec
    | ok acquired pool' =>
      rw [hrun] at hspec
      cases acquired with
      | none =>
        simp only [hrun]
        exact h.of_serves hspec.1
      | some file =>
        simp only [hrun]
        have hserved := h.of_serves hspec.1
        refine { hserved with leased := fun i other hlease => ?_ }
        rcases List.mem_cons.mp hlease with heq | hlease
        · cases heq
          exact hspec.2
        · exact hserved.leased i other hlease
  | release lease =>
    exact { h with
      leased := fun i file hlease => h.leased i file (List.mem_of_mem_eraseIdx hlease) }
  | fileMut segmentIndex failure =>
    have hspec := fileMut_spec s.idle (s.opened failure) segmentIndex h.sound
    unfold PoolSystem.apply
    cases hrun : fileMut s.idle segmentIndex (s.opened failure) s.pool with
    | ok _ pool' | error _ pool' =>
      rw [hrun] at hspec
      simp only [hrun]
      exact h.of_serves hspec
  | setMaximum maximum =>
    have hspec := setMaximumOpenHandles_spec s.idle maximum h.sound
    unfold PoolSystem.apply
    cases hrun : setMaximumOpenHandles s.idle maximum s.pool with
    | ok _ pool' =>
      rw [hrun] at hspec
      simp only [hrun]
      exact h.of_slots hspec.1 hspec.2
    | error e pool' =>
      rw [hrun] at hspec
      simp only [hrun]
      exact h.of_slots hspec.1 hspec.2.slots

/-- A pool of a newly opened image. -/
def New (s : PoolSystem) : Prop :=
  (∃ segmentCount maximum, newPath segmentCount maximum = .ok s.pool ∨
    newReaders segmentCount maximum = .ok s.pool) ∧ s.leases = [] ∧ s.nextFile = 0

theorem validMaximum_pos {maximum : Option Nat} {limit : Nat}
    (h : validateMaximumOpenHandles maximum = .ok ()) (hmaximum : maximum = some limit) :
    0 < limit := by
  rcases Nat.eq_zero_or_pos limit with rfl | hpos
  · rw [validateMaximumOpenHandles, if_pos hmaximum] at h
    cases h
  · exact hpos

theorem sound_newPath {segmentCount : Nat} {maximum : Option Nat} {pool : SegmentFilePool}
    (h : newPath segmentCount maximum = .ok pool) :
    pool.Sound ∧ ∀ i handle, ¬ pool.Holds i handle := by
  obtain ⟨_, hvalid, hpool⟩ := bind_eq_ok.mp h
  cases hpool
  have hnone : ∀ (i : Nat) handle, (List.replicate segmentCount none)[i]? ≠
      some (some (handle : SegmentFileHandle)) := by
    intro i handle hholds
    have hmem := List.mem_of_getElem? hholds
    cases List.eq_of_mem_replicate hmem
  refine ⟨⟨⟨List.nodup_nil,
    fun i => ⟨nofun, fun ⟨handle, hholds⟩ => absurd hholds (hnone i handle)⟩,
    fun i handle hholds => absurd hholds (hnone i handle)⟩, fun limit hlimit => ?_⟩, hnone⟩
  refine ⟨validMaximum_pos hvalid hlimit, ?_⟩
  have hcount : List.countP Option.isSome (List.replicate segmentCount
      (none : Option SegmentFileHandle)) = 0 := by
    rw [List.countP_replicate]
    rfl
  exact Nat.le_trans (Nat.le_of_eq hcount) (Nat.zero_le limit)

theorem sound_newReaders {segmentCount : Nat} {maximum : Option Nat} {pool : SegmentFilePool}
    (h : newReaders segmentCount maximum = .ok pool) :
    pool.Sound ∧ ∀ i handle, pool.Holds i handle → handle = .supplied := by
  obtain ⟨_, hvalid, h⟩ := bind_eq_ok.mp h
  obtain ⟨_, hfits, hpool⟩ := bind_eq_ok.mp h
  cases hpool
  have hholds : ∀ (i : Nat) handle,
      (List.replicate segmentCount (some SegmentFileHandle.supplied))[i]? = some (some handle) ↔
        i < segmentCount ∧ handle = .supplied := by
    intro i handle
    rw [List.getElem?_replicate]
    by_cases hlt : i < segmentCount
    · simp [hlt, eq_comm]
    · simp [hlt]
  refine ⟨⟨⟨List.nodup_range, fun i => ?_, fun i handle hheld => ?_⟩, fun limit hlimit => ?_⟩,
    fun i handle hheld => ((hholds i handle).mp hheld).2⟩
  · rw [List.mem_range]
    exact ⟨fun hlt => ⟨.supplied, (hholds i _).mpr ⟨hlt, rfl⟩⟩,
      fun ⟨handle, hheld⟩ => ((hholds i handle).mp hheld).1⟩
  · exact ⟨fun _ => rfl, fun _ => ((hholds i handle).mp hheld).2⟩
  · refine ⟨validMaximum_pos hvalid hlimit, ?_⟩
    have hcount : List.countP Option.isSome (List.replicate segmentCount
        (some SegmentFileHandle.supplied)) = segmentCount := by
      rw [List.countP_replicate]
      rfl
    have hle : segmentCount ≤ limit := by
      by_contra hlt
      have hany : maximum.any (· < segmentCount) = true := by
        have hmaximum : maximum = some limit := hlimit
        rw [hmaximum]
        simpa using hlt
      rw [if_pos hany] at hfits
      cases hfits
    exact Nat.le_trans (Nat.le_of_eq hcount) hle

theorem New.leased (h : s.New) : s.Leased := by
  obtain ⟨⟨segmentCount, maximum, hpool⟩, hleases, -⟩ := h
  have hpath : s.pool.Sound ∧ ∀ i file, ¬ s.pool.Holds i (.path file) := by
    rcases hpool with hpool | hpool
    · obtain ⟨hsound, hnone⟩ := sound_newPath hpool
      exact ⟨hsound, fun i file => hnone i _⟩
    · obtain ⟨hsound, hsupplied⟩ := sound_newReaders hpool
      exact ⟨hsound, fun i file hholds => (by cases hsupplied i _ hholds)⟩
  refine ⟨hpath.1, fun i file hlease => ?_, fun i file hholds => absurd hholds (hpath.2 i file),
    fun i j file hholds => absurd hholds (hpath.2 i file)⟩
  rw [hleases] at hlease
  cases hlease

end PoolSystem

open PoolSystem Runs

def PoolStep (s : PoolSystem) (operation : PoolOperation) (s' : PoolSystem) : Prop :=
  s' = s.apply operation

theorem leased_of_run {s s' : PoolSystem} {operations : List PoolOperation} (hnew : s.New)
    (hrun : Run PoolStep s operations s') : s'.Leased := by
  refine hrun.invariant ?_ hnew.leased
  rintro s operation s' hs rfl
  exact hs.apply operation

/-- Behind any sequence of operations the handles are within the maximum, the order lists the
open slots, and leased files are in their slots. A change of the maximum that fails puts the
maximum back, and closes none but idle handles. -/
theorem segmentFilePool_run {s s' : PoolSystem} {operations : List PoolOperation} (hnew : s.New)
    (hrun : Run PoolStep s operations s') :
    (∀ maximum, s'.pool.maximumOpenHandles = some maximum → s'.pool.openCount ≤ maximum) ∧
    s'.pool.openOrder.Nodup ∧
    (∀ i, i ∈ s'.pool.openOrder ↔ ∃ handle, s'.pool.Holds i handle) ∧
    (∀ segmentIndex file, (segmentIndex, file) ∈ s'.leases →
      s'.pool.Holds segmentIndex (.path file)) ∧
    ∀ maximum e pool, setMaximumOpenHandles s'.idle maximum s'.pool = .error e pool →
      pool.maximumOpenHandles = s'.pool.maximumOpenHandles ∧
      ∀ i, pool.files[i]? = s'.pool.files[i]? ∨ (pool.files[i]? = some none ∧
        ∃ file, s'.pool.Holds i (.path file) ∧ file ∉ s'.leases.map Prod.snd) := by
  have hleased := leased_of_run hnew hrun
  have hsound := hleased.sound
  refine ⟨fun maximum hmaximum => (hsound.within maximum hmaximum).2, hsound.nodup,
    hsound.mem_openOrder, hleased.leased, fun maximum e pool hfailed => ?_⟩
  have hspec := setMaximumOpenHandles_spec s'.idle maximum hsound
  rw [hfailed] at hspec
  obtain ⟨-, hshrinks⟩ := hspec
  refine ⟨hshrinks.maximum, fun i => (hshrinks.slots i).imp_right ?_⟩
  rintro ⟨hnone, handle, hholds, hidle⟩
  cases handle with
  | supplied => cases hidle
  | path file => exact ⟨hnone, file, hholds, of_decide_eq_true hidle⟩

/-- Two of three segments are leased, the other one is open and idle. -/
def twoLeased : PoolSystem where
  pool := ⟨[some (.path 0), some (.path 1), some (.path 2)], [0, 1, 2], none, .reopenFromPath⟩
  leases := [(2, 2), (1, 1)]
  nextFile := 3

def newOfThree : PoolSystem where
  pool := ⟨[none, none, none], [], none, .reopenFromPath⟩

def twoLeasedOperations : List PoolOperation :=
  [.fileMut 0 none, .acquire 1 none, .acquire 2 none]

theorem new_newOfThree : newOfThree.New := ⟨⟨3, none, .inl rfl⟩, rfl, rfl⟩

theorem run_twoLeased : Run PoolStep newOfThree twoLeasedOperations twoLeased :=
  .cons rfl <| .cons rfl <| .cons rfl <| .nil _

theorem segmentFilePool_run_twoLeased :
    twoLeased.pool.openOrder.Nodup ∧ twoLeased.pool.Holds 1 (.path 1) :=
  have h := segmentFilePool_run new_newOfThree run_twoLeased
  ⟨h.2.1, h.2.2.2.1 1 1 (by decide)⟩

/-- A limit of one handle fails, but the idle handle is closed. -/
theorem setMaximum_twoLeased : ∃ e pool,
    setMaximumOpenHandles twoLeased.idle (some 1) twoLeased.pool = .error e pool ∧
      pool.files ≠ twoLeased.pool.files :=
  ⟨_, _, rfl, by decide⟩

/-- A failed change of the maximum does not always keep the contents of the pool. -/
theorem setMaximum_not_restores : ¬ ∀ s s' operations maximum e pool, PoolSystem.New s →
    Run PoolStep s operations s' →
    setMaximumOpenHandles s'.idle maximum s'.pool = .error e pool →
    pool.maximumOpenHandles = s'.pool.maximumOpenHandles ∧ pool.files = s'.pool.files := by
  intro h
  obtain ⟨e, pool, hfailed, hne⟩ := setMaximum_twoLeased
  exact hne (h _ _ _ _ _ _ new_newOfThree run_twoLeased hfailed).2

end EwfImage.Reading
