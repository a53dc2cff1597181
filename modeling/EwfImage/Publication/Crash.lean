import EwfImage.Publication.Recovery
import EwfImage.Publication.Preparation
import EwfImage.Publication.Installation
import EwfImage.Segment

/-!
# Crashes and recoveries

Every state of a publication, whatever failed, crashed or was recovered on the way,
satisfies the invariant of what its process is doing, and every such invariant leaves
the disk recoverable. A completed recovery therefore reaches the outcome that the
commit marker decides. The destinations have to keep what is installed: the secondary
set of `crossedRequest` claims a segment of the primary one as stale and removes it.

The main result is `recovers_of_keepsInstalled`, about every state that is reachable by any
interleaving of steps, failures, crashes (after any prefix of the writes, and with the last one
cut short) and recoveries. The condition is on the request alone: no set claims a path of an
earlier set as stale. Every operation reaches the disk before the next one starts, as the
program asks for by synchronising, and renames and removals are atomic; a copy or a write can be
cut short. `reachable_commit` shows that the runs with an outcome exist, and
`not_recovers_of_any_request` that the condition is needed.
-/

namespace EwfImage.Publication

open Fallible Programs

section Run

variable {Path Content : Type} [DecidableEq Path] {request : Request Path Content}
  {initial : Path → Option Content}

/-- A completed recovery over `disk`, in whatever order it goes through the files, reaches the
outcome of the decision and leaves nothing to recover: the journals are gone, and a second recovery
has nothing to do. -/
def Recovers (request : Request Path Content) (initial : Path → Option Content) (committed : Bool)
    (disk : Disk Path Content) : Prop :=
  ∀ order : List Path → List Path, (∀ paths, (order paths).Perm paths) → ∀ found plan,
    recover order request.policy request.sets request.identity.val disk = .ok (found, plan) →
    found = (disk.journals 0).isSome ∧
      ∃ disk', execute (FsOp.apply request.policy) plan disk = some disk' ∧
        Outcome request initial committed disk'.files ∧ (∀ set, disk'.journals set = none) ∧
        recover order request.policy request.sets request.identity.val disk' = .ok (false, [])

/-- What the process and the disk have in common. -/
def Invariant (request : Request Path Content) (initial : Path → Option Content)
    (system : System Path Content) : Prop :=
  match system.process with
  | .idle => Recoverable request initial system.committed system.disk
  | .preparing todo => system.committed = false ∧ Preparing request initial todo system.disk
  | .installing todo => system.committed = false ∧ Installing request initial todo system.disk
  | .concluding todo => Concluding request initial system.committed todo system.disk

theorem Preparing.recoverable {todo : List (FsOp Path Content)} {disk : Disk Path Content}
    (h : Preparing request initial todo disk) : Recoverable request initial false disk := by
  cases todo with
  | nil => exact .inr ⟨rfl, h.secured⟩
  | cons op rest => exact .inl h.settled

theorem Preparing.installing {disk : Disk Path Content} (h : Preparing request initial [] disk) :
    Installing request initial request.installOps disk := by
  refine h.secured.installing fun set journal path hjournal => ?_
  have hstaged := h.staged set path
  rw [hjournal] at hstaged
  exact hstaged

/-- A preparation that fails only retires its journals. -/
theorem Preparing.cleaning {op : FsOp Path Content} {rest : List (FsOp Path Content)}
    {disk : Disk Path Content} (h : Preparing request initial (op :: rest) disk) :
    Cleaning request initial false (cleanupOps request.sets) disk :=
  ⟨h.settled, request.sets, Nat.le_refl _, rfl, h.unused⟩

theorem Invariant.recoverable {system : System Path Content}
    (h : Invariant request initial system) :
    Recoverable request initial system.committed system.disk := by
  obtain ⟨disk, process, committed⟩ := system
  cases process with
  | idle => exact h
  | preparing todo =>
    obtain ⟨rfl, hpreparing⟩ := h
    exact hpreparing.recoverable
  | installing todo =>
    obtain ⟨rfl, hinstalling⟩ := h
    exact .inr ⟨rfl, hinstalling.secured⟩
  | concluding todo => exact Concluding.recoverable h

theorem Step.invariant {system system' : System Path Content} (hkeeps : request.KeepsInstalled)
    (hstep : Step request system system') (h : Invariant request initial system) :
    Invariant request initial system' := by
  cases hstep with
  | prepare happly =>
    obtain ⟨hcommitted, hpreparing⟩ := h
    exact ⟨hcommitted, hpreparing.step happly⟩
  | prepared =>
    obtain ⟨hcommitted, hpreparing⟩ := h
    exact ⟨hcommitted, hpreparing.installing⟩
  | failPrepare =>
    obtain ⟨rfl, hpreparing⟩ := h
    exact .inr hpreparing.cleaning
  | install happly =>
    obtain ⟨hcommitted, hinstalling⟩ := h
    exact ⟨hcommitted, hinstalling.step hkeeps happly⟩
  | failInstall order horder =>
    obtain ⟨rfl, hinstalling⟩ := h
    exact .inl ⟨rfl, hinstalling.secured.rolling horder⟩
  | commit happly =>
    obtain ⟨rfl, hinstalling⟩ := h
    exact .inr (hinstalling.commit happly)
  | conclude happly =>
    obtain ⟨next, hnext, hconcluding⟩ := Concluding.step h
    rw [happly] at hnext
    cases hnext
    exact hconcluding
  | tearPreparing htorn =>
    obtain ⟨hcommitted, hpreparing⟩ := h
    exact ⟨hcommitted, hpreparing.torn htorn⟩
  | tearConcluding htorn => exact Concluding.torn h htorn
  | stop => exact h.recoverable
  | recover order horder hplan => exact (Recoverable.plan h horder hplan).2

theorem Reachable.invariant {system : System Path Content} (hkeeps : request.KeepsInstalled)
    (h : Reachable request initial system) : Invariant request initial system := by
  induction h with
  | refl => exact ⟨rfl, Preparing.start request initial⟩
  | tail _ hstep ih => exact hstep.invariant hkeeps ih

omit [DecidableEq Path] in
theorem recover_of_journals_none {disk : Disk Path Content} (h : ∀ set, disk.journals set = none)
    (order : List Path → List Path) (policy : Policy Path) (sets : Nat) (identity : Bytes) :
    recover order policy sets identity disk = .ok (false, []) := by
  unfold recover
  rw [h 0]
  simp only
  rw [rejectIf_neg _ (by simp [h])]
  rfl

theorem Recoverable.recovers {committed : Bool} {disk : Disk Path Content}
    (h : Recoverable request initial committed disk) : Recovers request initial committed disk := by
  intro order horder found plan hplan
  obtain ⟨hfound, hconcluding⟩ := h.plan horder hplan
  obtain ⟨disk', hexecute, houtcome, hnone⟩ := hconcluding.execute
  exact ⟨hfound, disk', hexecute, houtcome, hnone, recover_of_journals_none hnone ..⟩

/-- After any failures, crashes and recoveries a completed recovery leaves the destinations
entirely old or, once committed, entirely new, and it is accepted unless the crash cut an identity
short. -/
theorem recovers_of_keepsInstalled (hkeeps : request.KeepsInstalled) {system : System Path Content}
    (h : Reachable request initial system) :
    Recovers request initial system.committed system.disk ∧
      (IdentitiesWhole request system.disk → ∀ order, ∃ plan,
        recover order request.policy request.sets request.identity.val system.disk =
          .ok ((system.disk.journals 0).isSome, plan)) := by
  have hrecoverable := (h.invariant hkeeps).recoverable
  exact ⟨hrecoverable.recovers, hrecoverable.accepted⟩

/-! ## Runs that are not interrupted -/

theorem reachable_prepare {committed : Bool} {ops : List (FsOp Path Content)}
    {disk disk' : Disk Path Content}
    (h : execute (FsOp.apply request.policy) ops disk = some disk')
    (hreach : Reachable request initial ⟨disk, .preparing ops, committed⟩) :
    Reachable request initial ⟨disk', .preparing [], committed⟩ := by
  induction ops generalizing disk with
  | nil =>
    cases h
    exact hreach
  | cons op ops ih =>
    obtain ⟨next, happly, hrest⟩ := Option.bind_eq_some_iff.mp h
    exact ih hrest (hreach.tail (.prepare happly))

theorem reachable_install {committed : Bool} {ops : List (FsOp Path Content)}
    {disk disk' : Disk Path Content}
    (h : execute (FsOp.apply request.policy) ops disk = some disk')
    (hreach : Reachable request initial ⟨disk, .installing ops, committed⟩) :
    Reachable request initial ⟨disk', .installing [], committed⟩ := by
  induction ops generalizing disk with
  | nil =>
    cases h
    exact hreach
  | cons op ops ih =>
    obtain ⟨next, happly, hrest⟩ := Option.bind_eq_some_iff.mp h
    exact ih hrest (hreach.tail (.install happly))

/-- A publication of which nothing fails commits. -/
theorem reachable_commit {disk : Disk Path Content}
    (h : execute (FsOp.apply request.policy)
      (request.program ++ (request.installOps ++ [.markCommitted])) (request.start initial).disk =
        some disk) :
    Reachable request initial ⟨disk, .concluding (cleanupOps request.sets), true⟩ := by
  rw [execute_append] at h
  obtain ⟨prepared, hprepare, h⟩ := Option.bind_eq_some_iff.mp h
  rw [execute_append] at h
  obtain ⟨installed, hinstall, h⟩ := Option.bind_eq_some_iff.mp h
  obtain ⟨marked, hmark, h⟩ := Option.bind_eq_some_iff.mp h
  cases h
  have hready := reachable_prepare hprepare .refl
  have hinstalled := reachable_install hinstall (hready.tail .prepared)
  exact hinstalled.tail (.commit hmark)

end Run

/-! ## Sets that claim each other's segments -/

def segmentNamed (extension : String) : OutputPath := ⟨"out", "case", extension⟩

def zeroIdentity : { identity : Bytes // identity.length = 32 } :=
  ⟨List.replicate 32 0, by decide⟩

/-- A publication of one segment to each of two sets in a directory that holds `existing`, by
the names that the writer derives. -/
def namedRequest (primary secondary : OutputPath) (existing : List OutputPath) :
    Request OutputPath Bytes where
  sets := 2
  sets_pos := by decide
  identity := zeroIdentity
  destinations
    | 0 => publicationSegmentPaths (fun path => if path ∈ existing then some path else none)
        existing [primary] false
    | 1 => publicationSegmentPaths (fun path => if path ∈ existing then some path else none)
        existing [secondary] false
    | _ => []
  writtenCount := 1
  staging := [(0, primary, [1]), (1, secondary, [1])]
  policy :=
    { validTarget := fun set path => isSegmentOf (if set = 0 then primary else secondary) path
      allowReplace := true }

/-- The sets `case.E01` and `case.F01` over an old `case.E01` with a stale `case.E02`. -/
def separateRequest : Request OutputPath Bytes :=
  namedRequest (segmentNamed "E01") (segmentNamed "F01") [segmentNamed "E01", segmentNamed "E02"]

def separateFiles (path : OutputPath) : Option Bytes :=
  if path ∈ [segmentNamed "E01", segmentNamed "E02"] then some [0] else none

theorem recovers_of_keepsInstalled_separate : separateRequest.KeepsInstalled ∧
    ∃ disk, Reachable separateRequest separateFiles
        ⟨disk, .concluding (cleanupOps separateRequest.sets), true⟩ ∧
      Recovers separateRequest separateFiles true disk := by
  have hkeeps : separateRequest.KeepsInstalled := by
    refine ⟨by decide, fun set other hlt hother => ?_⟩
    have hset : set = 0 ∧ other = 1 := by
      have htwo : other < 2 := hother
      omega
    obtain ⟨rfl, rfl⟩ := hset
    decide
  have hsome : (execute (FsOp.apply separateRequest.policy)
      (separateRequest.program ++ (separateRequest.installOps ++ [.markCommitted]))
      (separateRequest.start separateFiles).disk).isSome := by decide
  obtain ⟨disk, hdisk⟩ := Option.isSome_iff_exists.mp hsome
  have hreach := reachable_commit hdisk
  exact ⟨hkeeps, disk, hreach, (recovers_of_keepsInstalled hkeeps hreach).1⟩

/-- The sets `case.img` and `case.E01` over an old `case.img`, which the second set claims. -/
def crossedRequest : Request OutputPath Bytes :=
  namedRequest (segmentNamed "img") (segmentNamed "E01") [segmentNamed "img"]

def crossedFiles (path : OutputPath) : Option Bytes :=
  if path = segmentNamed "img" then some [0] else none

/-- The publication commits without its first segment. -/
theorem not_recovers_of_any_request : ¬ ∀ (request : Request OutputPath Bytes)
    (initial : OutputPath → Option Bytes) (system : System OutputPath Bytes),
    Reachable request initial system →
    Recovers request initial system.committed system.disk := by
  intro hclaim
  have hrun : ((execute (FsOp.apply crossedRequest.policy)
      (crossedRequest.program ++ (crossedRequest.installOps ++ [.markCommitted]))
      (crossedRequest.start crossedFiles).disk).bind fun disk =>
        (recover id crossedRequest.policy 2 crossedRequest.identity.val disk).toOption.bind
          fun plan => (execute (FsOp.apply crossedRequest.policy) plan.2 disk).map fun disk =>
            disk.files (segmentNamed "img")) = some none := by decide
  obtain ⟨disk, hdisk, hrun⟩ := Option.bind_eq_some_iff.mp hrun
  obtain ⟨⟨found, plan⟩, hplan, hrun⟩ := Option.bind_eq_some_iff.mp hrun
  obtain ⟨recovered, hexecute, hlost⟩ := Option.map_eq_some_iff.mp hrun
  have haccepted : recover id crossedRequest.policy 2 crossedRequest.identity.val disk =
      .ok (found, plan) := by
    cases hresult : recover id crossedRequest.policy 2 crossedRequest.identity.val disk with
    | error e =>
      rw [hresult] at hplan
      cases hplan
    | ok value =>
      rw [hresult] at hplan
      cases hplan
      rfl
  have hclaimed := hclaim crossedRequest crossedFiles _ (reachable_commit hdisk)
  obtain ⟨-, disk', hexecute', houtcome, -⟩ :=
    hclaimed id (fun _ => .refl _) found plan haccepted
  have hsame : recovered = disk' := Option.some.inj (hexecute.symm.trans hexecute')
  subst hsame
  have hnew : EntirelyNew crossedRequest crossedFiles recovered.files := by
    simpa [Outcome] using houtcome
  have hwritten : segmentNamed "img" ∈ crossedRequest.written 0 := by decide
  obtain ⟨hsome, heq⟩ := hnew.written 0 (by decide) _ hwritten
  rw [← heq, hlost] at hsome
  cases hsome

end EwfImage.Publication
