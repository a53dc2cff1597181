import EwfImage.Reading.SegmentPool

/-!
# Readers that wait for a segment file

A read that finds every handle of the pool in use sleeps until a lease ends, and tries
again. The end of a lease wakes one sleeper. An attempt that fails wakes nobody, so the
wake-up that it used is lost.

The steps are those of any number of readers, in any order: an attempt for a segment, the sleep,
the wake-up by the end of a lease, an attempt that fails. `not_stuck_of_handsOn` is about every
run: in a run without a failed attempt that was the last hope of the others, it is never the
case that readers sleep while nobody is left to wake them; and a step that loses the last
wake-up leaves them asleep for good. `sees_exactly` connects the model with the pool: what an
attempt sees in use are the leased files. Opening a file may fail at any time.
-/

namespace EwfImage.Reading

open Runs SegmentFilePool

/-- Where a reader stands in `read_segment_range`. -/
inductive WaiterPhase
  | idle
  /-- Asleep until a handle is available. -/
  | waiting (segmentIndex : Nat)
  /-- Woken, and about to try again. -/
  | woken (segmentIndex : Nat)
  | leased (segmentIndex file : Nat)
  /-- The lease has given up its file, and is about to wake a sleeper. -/
  | releasing (segmentIndex file : Nat)
  deriving DecidableEq

namespace WaiterPhase

/-- The reader has no lease and is not woken. -/
def rests : WaiterPhase → Bool
  | .idle | .waiting _ => true
  | _ => false

/-- A reader that the lock lets try to lease the file of the segment. -/
def attempts (segmentIndex : Nat) (phase : WaiterPhase) : Bool :=
  phase = .idle || phase = .woken segmentIndex

end WaiterPhase

/-- The pool behind its lock, and where each reader stands. -/
structure Waiters where
  pool : SegmentFilePool
  nextFile : Nat := 0
  readers : Nat → WaiterPhase := fun _ => .idle

namespace Waiters

variable (s : Waiters)

def goto (reader : Nat) (phase : WaiterPhase) : Waiters :=
  { s with readers := Function.update s.readers reader phase }

def withPool (pool : SegmentFilePool) : Waiters := { s with pool, nextFile := s.nextFile + 1 }

/-- What a scan of the pool sees: leased files are in use, and so may be those whose lease ends
during the scan. -/
structure Sees (idle : Nat → Bool) : Prop where
  leased : ∀ reader segmentIndex file, s.readers reader = .leased segmentIndex file →
    idle file = false
  busy : ∀ file, idle file = false → ∃ reader segmentIndex,
    s.readers reader = .leased segmentIndex file ∨ s.readers reader = .releasing segmentIndex file

/-- What opening a segment gives. -/
def Opens (opened : Result Nat) : Prop := opened = .ok s.nextFile ∨ ∃ e, opened = .error e

end Waiters

inductive WaiterLabel
  /-- An attempt to lease a file that fails. -/
  | failed (reader : Nat)
  /-- Another step of a reader. -/
  | reader (reader : Nat)
  /-- The pool is used or resized under its lock. -/
  | maintain

/-- One step of a reader, or of the pool: a reader leases a file, goes to sleep, is woken, fails to
open its file or ends its lease, each under the lock of the pool. -/
inductive WaiterStep : Waiters → WaiterLabel → Waiters → Prop
  | lease {s : Waiters} {reader segmentIndex file : Nat} {idle : Nat → Bool} {opened : Result Nat}
      {pool : SegmentFilePool} (h : (s.readers reader).attempts segmentIndex = true)
      (hsees : s.Sees idle) (hopens : s.Opens opened)
      (hrun : acquirePathFile idle segmentIndex opened s.pool = .ok (some file) pool) :
      WaiterStep s (.reader reader) ((s.withPool pool).goto reader (.leased segmentIndex file))
  | sleep {s : Waiters} {reader segmentIndex : Nat} {idle : Nat → Bool} {opened : Result Nat}
      {pool : SegmentFilePool} (h : (s.readers reader).attempts segmentIndex = true)
      (hsees : s.Sees idle) (hopens : s.Opens opened)
      (hrun : acquirePathFile idle segmentIndex opened s.pool = .ok none pool) :
      WaiterStep s (.reader reader) ((s.withPool pool).goto reader (.waiting segmentIndex))
  /-- The file cannot be opened. -/
  | fail {s : Waiters} {reader segmentIndex : Nat} {idle : Nat → Bool} {opened : Result Nat}
      {pool : SegmentFilePool} {e : EwfError}
      (h : (s.readers reader).attempts segmentIndex = true)
      (hsees : s.Sees idle) (hopens : s.Opens opened)
      (hrun : acquirePathFile idle segmentIndex opened s.pool = .error e pool) :
      WaiterStep s (.failed reader) ((s.withPool pool).goto reader .idle)
  /-- The file is there, but its length cannot be read. -/
  | metadata {s : Waiters} {reader segmentIndex file : Nat} {idle : Nat → Bool}
      {opened : Result Nat} {pool : SegmentFilePool}
      (h : (s.readers reader).attempts segmentIndex = true)
      (hsees : s.Sees idle) (hopens : s.Opens opened)
      (hrun : acquirePathFile idle segmentIndex opened s.pool = .ok (some file) pool) :
      WaiterStep s (.failed reader) ((s.withPool pool).goto reader .idle)
  /-- A spurious wake-up. -/
  | wake {s : Waiters} {reader segmentIndex : Nat}
      (h : s.readers reader = .waiting segmentIndex) :
      WaiterStep s (.reader reader) (s.goto reader (.woken segmentIndex))
  /-- `drop` of the lease gives up the file. -/
  | take {s : Waiters} {reader segmentIndex file : Nat}
      (h : s.readers reader = .leased segmentIndex file) :
      WaiterStep s (.reader reader) (s.goto reader (.releasing segmentIndex file))
  /-- `notify_one` wakes one of the sleepers. -/
  | notify {s : Waiters} {reader segmentIndex file sleeper awaited : Nat}
      (h : s.readers reader = .releasing segmentIndex file)
      (hsleeper : s.readers sleeper = .waiting awaited) :
      WaiterStep s (.reader reader) ((s.goto reader .idle).goto sleeper (.woken awaited))
  /-- `notify_one` when nobody sleeps. -/
  | notifyNone {s : Waiters} {reader segmentIndex file : Nat}
      (h : s.readers reader = .releasing segmentIndex file)
      (hnone : ∀ sleeper awaited, s.readers sleeper ≠ .waiting awaited) :
      WaiterStep s (.reader reader) (s.goto reader .idle)
  | useFile {s : Waiters} {segmentIndex : Nat} {idle : Nat → Bool} {opened : Result Nat}
      {result : EStateM.Result EwfError SegmentFilePool SegmentFileHandle} {pool : SegmentFilePool}
      (hsees : s.Sees idle) (hopens : s.Opens opened)
      (hrun : fileMut idle segmentIndex opened s.pool = result)
      (hpool : (∃ handle, result = .ok handle pool) ∨ ∃ e, result = .error e pool) :
      WaiterStep s .maintain (s.withPool pool)
  | resize {s : Waiters} {maximum : Option Nat} {idle : Nat → Bool}
      {result : EStateM.Result EwfError SegmentFilePool Unit} {pool : SegmentFilePool}
      (hsees : s.Sees idle) (hrun : setMaximumOpenHandles idle maximum s.pool = result)
      (hpool : result = .ok () pool ∨ ∃ e, result = .error e pool) :
      WaiterStep s .maintain (s.withPool pool)

namespace Waiters

/-- A reader waits, no lease is active, nobody is woken, and there is a handle to use. -/
structure Stuck (s : Waiters) : Prop where
  waits : ∃ reader segmentIndex, s.readers reader = .waiting segmentIndex
  rests : ∀ reader, (s.readers reader).rests = true
  usable : ∀ reader segmentIndex, s.readers reader = .waiting segmentIndex →
    ∀ idle opened pool, s.Sees idle →
      acquirePathFile idle segmentIndex opened s.pool ≠ .ok none pool

/-- The reader is woken and others wait, but none of the others has a lease or is woken. -/
structure Last (s : Waiters) (reader : Nat) : Prop where
  woken : ∃ segmentIndex, s.readers reader = .woken segmentIndex
  waits : ∃ other segmentIndex, s.readers other = .waiting segmentIndex
  rests : ∀ other, other ≠ reader → (s.readers other).rests = true

/-- A step that loses no wake-up: a reader whose attempt fails is not the last one from which the
waiting readers can expect a file. -/
def HandsOn (s : Waiters) (label : WaiterLabel) (s' : Waiters) : Prop :=
  WaiterStep s label s' ∧ ∀ reader, label = .failed reader → ¬ s.Last reader

/-- Somebody will try to lease a file, or end a lease, as long as somebody waits. -/
structure Awake (s : Waiters) : Prop where
  sound : s.pool.Sound
  awake : (∃ reader segmentIndex, s.readers reader = .waiting segmentIndex) →
    ∃ reader, (s.readers reader).rests = false

variable {s s' : Waiters} {reader other : Nat} {phase : WaiterPhase} {label : WaiterLabel}

@[simp] theorem goto_self : (s.goto reader phase).readers reader = phase :=
  Function.update_self ..

theorem goto_other (h : other ≠ reader) : (s.goto reader phase).readers other = s.readers other :=
  Function.update_of_ne h ..

@[simp] theorem withPool_readers {pool : SegmentFilePool} :
    (s.withPool pool).readers = s.readers := rfl

/-- When no lease is active, every waiting reader would get a file. -/
theorem usable_of_rests (hsound : s.pool.Sound)
    (hrests : ∀ reader, (s.readers reader).rests = true) {segmentIndex : Nat} {idle : Nat → Bool}
    {opened : Result Nat} {pool : SegmentFilePool} (hsees : s.Sees idle) :
    acquirePathFile idle segmentIndex opened s.pool ≠ .ok none pool := by
  intro hrun
  obtain ⟨file, hbusy⟩ := exists_busy_of_acquire idle opened hsound hrun
  obtain ⟨reader, _, hlease⟩ := hsees.busy file hbusy
  have hrest := hrests reader
  rcases hlease with hlease | hlease <;> (rw [hlease] at hrest; cases hrest)

/-- A reader that does not rest keeps everybody else awake. -/
theorem Awake.of_active (hsound : s.pool.Sound) (h : (s.readers reader).rests = false) : s.Awake :=
  ⟨hsound, fun _ => ⟨reader, h⟩⟩

/-- A reader goes to rest while another one does not. -/
theorem Awake.goto_rest (hsound : s.pool.Sound)
    (h : (∃ sleeper awaited, (s.goto reader phase).readers sleeper = .waiting awaited) →
      ∃ other, other ≠ reader ∧ (s.readers other).rests = false) : (s.goto reader phase).Awake := by
  refine ⟨hsound, fun hwaits => ?_⟩
  obtain ⟨other, hne, hactive⟩ := h hwaits
  exact ⟨other, by rw [goto_other hne]; exact hactive⟩

theorem sound_of_acquire {segmentIndex : Nat} {idle : Nat → Bool} {opened : Result Nat}
    {acquired : Option Nat} {pool pool' : SegmentFilePool} (h : pool.Sound)
    (hrun : acquirePathFile idle segmentIndex opened pool = .ok acquired pool') : pool'.Sound := by
  have hspec := acquirePathFile_spec idle opened segmentIndex h
  rw [hrun] at hspec
  cases acquired with
  | none => exact hspec.1.toSound
  | some file => exact hspec.1.toSound

theorem sound_of_acquire_error {segmentIndex : Nat} {idle : Nat → Bool} {opened : Result Nat}
    {e : EwfError} {pool pool' : SegmentFilePool} (h : pool.Sound)
    (hrun : acquirePathFile idle segmentIndex opened pool = .error e pool') : pool'.Sound := by
  have hspec := acquirePathFile_spec idle opened segmentIndex h
  rw [hrun] at hspec
  exact hspec.toSound

/-- A failed attempt that is not the last hope of the waiting readers. -/
theorem Awake.failed {segmentIndex : Nat} {pool : SegmentFilePool} (h : s.Awake)
    (hsound : pool.Sound) (hattempts : (s.readers reader).attempts segmentIndex = true)
    (hlast : ¬ s.Last reader) : ((s.withPool pool).goto reader .idle).Awake := by
  refine .goto_rest hsound fun ⟨sleeper, awaited, hwaits⟩ => ?_
  have hne : sleeper ≠ reader := by
    rintro rfl
    rw [goto_self] at hwaits
    cases hwaits
  rw [goto_other hne] at hwaits
  have hphase : s.readers reader = .idle ∨ s.readers reader = .woken segmentIndex := by
    simpa [WaiterPhase.attempts] using hattempts
  by_contra hnone
  push Not at hnone
  rcases hphase with hidle | hwoken
  · obtain ⟨other, hactive⟩ := h.awake ⟨sleeper, awaited, hwaits⟩
    have hother : other ≠ reader := by
      rintro rfl
      rw [hidle] at hactive
      cases hactive
    exact hnone other hother hactive
  · refine hlast ⟨⟨segmentIndex, hwoken⟩, ⟨sleeper, awaited, hwaits⟩, fun other hother => ?_⟩
    simpa using hnone other hother

theorem sound_of_fileMut {segmentIndex : Nat} {idle : Nat → Bool} {opened : Result Nat}
    {pool pool' : SegmentFilePool} (h : pool.Sound)
    (hpool : (∃ handle, fileMut idle segmentIndex opened pool = .ok handle pool') ∨
      ∃ e, fileMut idle segmentIndex opened pool = .error e pool') : pool'.Sound := by
  have hspec := fileMut_spec idle opened segmentIndex h
  rcases hpool with ⟨handle, hrun⟩ | ⟨e, hrun⟩
  · rw [hrun] at hspec
    exact hspec.toSound
  · rw [hrun] at hspec
    exact hspec.toSound

theorem sound_of_setMaximum {maximum : Option Nat} {idle : Nat → Bool}
    {pool pool' : SegmentFilePool} (h : pool.Sound)
    (hpool : setMaximumOpenHandles idle maximum pool = .ok () pool' ∨
      ∃ e, setMaximumOpenHandles idle maximum pool = .error e pool') : pool'.Sound := by
  have hspec := setMaximumOpenHandles_spec idle maximum h
  rcases hpool with hrun | ⟨e, hrun⟩
  · rw [hrun] at hspec
    exact hspec.1
  · rw [hrun] at hspec
    exact hspec.1

theorem Awake.step (h : s.Awake) (hstep : s.HandsOn label s') : s'.Awake := by
  obtain ⟨hstep, hlast⟩ := hstep
  cases hstep with
  | lease hphase hsees hopens hrun =>
    exact .of_active (sound_of_acquire h.sound hrun) (by rw [goto_self]; rfl)
  | sleep hphase hsees hopens hrun =>
    refine .goto_rest (sound_of_acquire h.sound hrun) fun _ => ?_
    obtain ⟨file, hbusy⟩ := exists_busy_of_acquire _ _ h.sound hrun
    obtain ⟨owner, segmentIndex, howner⟩ := hsees.busy file hbusy
    refine ⟨owner, ?_, ?_⟩
    · rintro rfl
      rcases howner with howner | howner <;> (rw [howner] at hphase; cases hphase)
    · change (s.readers owner).rests = false
      rcases howner with howner | howner <;> (rw [howner]; rfl)
  | fail hphase hsees hopens hrun =>
    exact h.failed (sound_of_acquire_error h.sound hrun) hphase (hlast _ rfl)
  | metadata hphase hsees hopens hrun =>
    exact h.failed (sound_of_acquire h.sound hrun) hphase (hlast _ rfl)
  | wake hphase => exact .of_active h.sound (by rw [goto_self]; rfl)
  | take hphase => exact .of_active h.sound (by rw [goto_self]; rfl)
  | notify hphase hsleeper => exact .of_active h.sound (by rw [goto_self]; rfl)
  | @notifyNone reader _ _ hphase hnone =>
    refine .goto_rest h.sound fun ⟨sleeper, awaited, hwaits⟩ => ?_
    have hne : sleeper ≠ reader := by
      rintro rfl
      rw [goto_self] at hwaits
      cases hwaits
    rw [goto_other hne] at hwaits
    exact absurd hwaits (hnone sleeper awaited)
  | useFile hsees hopens hrun hpool =>
    subst hrun
    exact ⟨sound_of_fileMut h.sound hpool, h.awake⟩
  | resize hsees hrun hpool =>
    subst hrun
    exact ⟨sound_of_setMaximum h.sound hpool, h.awake⟩

/-- No read is under way, and nothing has been opened. -/
def New (s : Waiters) : Prop :=
  (∃ segmentCount maximum, newPath segmentCount maximum = .ok s.pool) ∧
    ∀ reader, s.readers reader = .idle

theorem New.awake (h : s.New) : s.Awake := by
  obtain ⟨⟨segmentCount, maximum, hpool⟩, hidle⟩ := h
  refine ⟨(PoolSystem.sound_newPath hpool).1, fun ⟨reader, segmentIndex, hwaits⟩ => ?_⟩
  rw [hidle] at hwaits
  cases hwaits

/-- A failed attempt of the last woken reader leaves the others asleep. -/
theorem stuck_of_last (hsound : s.pool.Sound) (hstep : WaiterStep s (.failed reader) s')
    (hlast : s.Last reader) : s'.Stuck := by
  obtain ⟨pool, hpool, rfl⟩ : ∃ pool : SegmentFilePool, pool.Sound ∧
      s' = (s.withPool pool).goto reader .idle := by
    cases hstep with
    | fail hphase hsees hopens hrun => exact ⟨_, sound_of_acquire_error hsound hrun, rfl⟩
    | metadata hphase hsees hopens hrun => exact ⟨_, sound_of_acquire hsound hrun, rfl⟩
  have hrests : ∀ other, (((s.withPool pool).goto reader .idle).readers other).rests = true := by
    intro other
    by_cases hne : other = reader
    · rw [hne, goto_self]
      rfl
    · rw [goto_other hne]
      exact hlast.rests other hne
  refine ⟨?_, hrests, fun _ _ _ idle opened _ hsees => usable_of_rests hpool hrests hsees⟩
  obtain ⟨other, segmentIndex, hwaits⟩ := hlast.waits
  obtain ⟨awaited, hwoken⟩ := hlast.woken
  refine ⟨other, segmentIndex, ?_⟩
  have hne : other ≠ reader := by
    rintro rfl
    rw [hwoken] at hwaits
    cases hwaits
  rw [goto_other hne]
  exact hwaits

/-- As long as no wake-up is lost, no reader waits in vain; a step that loses one leaves the waiting
readers stuck. So the condition on the steps is not only enough: a run that leaves it at a last
reader has lost the others. -/
theorem not_stuck_of_handsOn {labels : List WaiterLabel} (hnew : s.New)
    (hrun : Run HandsOn s labels s') :
    ¬ s'.Stuck ∧ ∀ reader next, WaiterStep s' (.failed reader) next → s'.Last reader →
      next.Stuck := by
  have hawake : s'.Awake := hrun.invariant (fun _ _ _ hs hstep => hs.step hstep) hnew.awake
  refine ⟨fun hstuck => ?_, fun reader next => stuck_of_last hawake.sound⟩
  obtain ⟨reader, hactive⟩ := hawake.awake hstuck.waits
  rw [hstuck.rests reader] at hactive
  cases hactive

/-! ## A lost wake-up -/

/-- The file of the lease of a reader, also while it ends. -/
def leaseOf : WaiterPhase → Option Nat
  | .leased _ file | .releasing _ file => some file
  | _ => none

/-- Exactly the leased files are in use. -/
theorem sees_exactly {idle : Nat → Bool}
    (h : ∀ file, idle file = false ↔ ∃ reader, leaseOf (s.readers reader) = some file) :
    s.Sees idle := by
  refine ⟨fun reader segmentIndex file hlease => (h file).mpr ⟨reader, by rw [hlease]; rfl⟩,
    fun file hbusy => ?_⟩
  obtain ⟨reader, hlease⟩ := (h file).mp hbusy
  refine ⟨reader, ?_⟩
  cases hphase : s.readers reader with
  | leased segmentIndex other =>
    rw [hphase] at hlease
    cases hlease
    exact ⟨segmentIndex, .inl rfl⟩
  | releasing segmentIndex other =>
    rw [hphase] at hlease
    cases hlease
    exact ⟨segmentIndex, .inr rfl⟩
  | _ =>
    rw [hphase] at hlease
    cases hlease

/-- Three segments and one handle. -/
def threeSegments : Waiters where
  pool := ⟨[none, none, none], [], some 1, .reopenFromPath⟩

/-- The first segment has the handle. -/
def firstOpen : SegmentFilePool :=
  ⟨[some (.path 0), none, none], [0], some 1, .reopenFromPath⟩

def oneLeased : Waiters := (threeSegments.withPool firstOpen).goto 0 (.leased 0 0)

def oneWaits : Waiters := (oneLeased.withPool firstOpen).goto 1 (.waiting 1)

def twoWait : Waiters := (oneWaits.withPool firstOpen).goto 2 (.waiting 2)

def oneReleases : Waiters := twoWait.goto 0 (.releasing 0 0)

def oneWoken : Waiters := (oneReleases.goto 0 .idle).goto 1 (.woken 1)

/-- The woken reader could not open its segment; the other one is asleep. -/
def leftAsleep : Waiters := (oneWoken.withPool threeSegments.pool).goto 1 .idle

theorem sees_oneLeased : oneLeased.Sees (· ≠ 0) := by
  refine sees_exactly fun file => ?_
  simp only [decide_eq_false_iff_not, ne_eq, not_not]
  constructor
  · rintro rfl
    exact ⟨0, rfl⟩
  · rintro ⟨reader, hlease⟩
    by_cases hreader : reader = 0
    · subst hreader
      exact (Option.some.inj hlease).symm
    · rw [oneLeased, goto_other hreader] at hlease
      cases hlease

theorem sees_oneWaits : oneWaits.Sees (· ≠ 0) := by
  refine ⟨fun reader segmentIndex file hlease => ?_, fun file hbusy => ⟨0, 0, .inl ?_⟩⟩
  · by_cases hreader : reader = 1
    · subst hreader
      cases hlease
    · rw [oneWaits, goto_other hreader] at hlease
      exact sees_oneLeased.leased reader segmentIndex file hlease
  · obtain rfl : file = 0 := by simpa using hbusy
    rfl

theorem sees_oneWoken : oneWoken.Sees fun _ => true := by
  refine sees_exactly fun file => ⟨nofun, fun ⟨reader, hlease⟩ => ?_⟩
  by_cases h₁ : reader = 1
  · subst h₁
    cases hlease
  · rw [oneWoken, goto_other h₁] at hlease
    by_cases h₀ : reader = 0
    · subst h₀
      cases hlease
    · rw [goto_other h₀, oneReleases, goto_other h₀] at hlease
      by_cases h₂ : reader = 2
      · subst h₂
        cases hlease
      · rw [twoWait, goto_other h₂, withPool_readers, oneWaits, goto_other h₁, withPool_readers,
          oneLeased, goto_other h₀] at hlease
        cases hlease

theorem step_twoWait : WaiterStep oneWaits (.reader 2) twoWait :=
  @WaiterStep.sleep oneWaits 2 2 (· ≠ 0) (.ok 2) firstOpen rfl sees_oneWaits (.inl rfl) rfl

theorem run_oneWoken : Run HandsOn threeSegments
    [.reader 0, .reader 1, .reader 2, .reader 0, .reader 0] oneWoken := by
  have hsees : threeSegments.Sees fun _ => true :=
    sees_exactly fun file => ⟨nofun, fun ⟨reader, hlease⟩ => (by cases hlease)⟩
  have hlease : WaiterStep threeSegments (.reader 0) oneLeased :=
    @WaiterStep.lease threeSegments 0 0 0 (fun _ => true) (.ok 0) firstOpen rfl hsees (.inl rfl) rfl
  have hsleep : WaiterStep oneLeased (.reader 1) oneWaits :=
    @WaiterStep.sleep oneLeased 1 1 (· ≠ 0) (.ok 1) firstOpen rfl sees_oneLeased (.inl rfl) rfl
  refine .cons ⟨hlease, nofun⟩ ?_
  refine .cons ⟨hsleep, nofun⟩ ?_
  refine .cons ⟨step_twoWait, nofun⟩ ?_
  refine .cons ⟨.take rfl, nofun⟩ ?_
  exact .cons ⟨.notify rfl rfl, nofun⟩ (.nil oneWoken)

theorem step_leftAsleep : WaiterStep oneWoken (.failed 1) leftAsleep :=
  @WaiterStep.fail oneWoken 1 1 (fun _ => true) (.error (.io .notFound)) threeSegments.pool
    (.io .notFound) rfl sees_oneWoken (.inr ⟨_, rfl⟩) rfl

theorem new_threeSegments : threeSegments.New := ⟨⟨3, some 1, rfl⟩, fun _ => rfl⟩

theorem not_stuck_oneWoken : ¬ oneWoken.Stuck :=
  (not_stuck_of_handsOn new_threeSegments run_oneWoken).1

theorem last_oneWoken : oneWoken.Last 1 := by
  refine ⟨⟨1, rfl⟩, ⟨2, 2, rfl⟩, fun other hother => ?_⟩
  rw [oneWoken, goto_other hother]
  by_cases h₀ : other = 0
  · subst h₀
    rfl
  · rw [goto_other h₀, oneReleases, goto_other h₀]
    by_cases h₂ : other = 2
    · subst h₂
      rfl
    · rw [twoWait, goto_other h₂, withPool_readers, oneWaits, goto_other hother, withPool_readers,
        oneLeased, goto_other h₀]
      rfl

/-- A reader can wait in vain. -/
theorem stuck_reachable : ¬ ∀ s labels s', New s → Run WaiterStep s labels s' → ¬ s'.Stuck := by
  intro h
  have hrun := (run_oneWoken.mono fun _ _ _ hstep => hstep.1).snoc step_leftAsleep
  have hsound : oneWoken.pool.Sound :=
    (run_oneWoken.invariant (fun _ _ _ hs hstep => hs.step hstep) new_threeSegments.awake).sound
  exact h _ _ _ new_threeSegments hrun (stuck_of_last hsound step_leftAsleep last_oneWoken)

end Waiters

end EwfImage.Reading
