import EwfImage.Lib.Fallible
import EwfImage.Publication.Disk
import Mathlib.Logic.Relation
import Mathlib.Data.List.Basic

/-!
# The publication protocol

A publication creates the journals, stages the new segments, copies what it is
about to replace, and marks itself ready; it then installs the segments, commits,
and retires the journals, the secondary one first. A failure before the mark only
retires the journals, a failure of the installation rolls it back. `recover` reads
what a crash left and resumes with one of the two endings.

A state is what the process does, with the operations that are left, and the disk. A step is the
next operation, its failure, or a crash, which may cut the operation short; a recovery starts
from what a crash left. `Reachable` has all states that come about in this way, with the
decision that was recorded.
-/

namespace EwfImage.Publication

open Fallible

variable {Path Content : Type}

/-- A publication of one or two sets, as its caller asks for it. -/
structure Request (Path Content : Type) where
  sets : Nat
  sets_pos : 0 < sets
  /-- The digest of the paths of the sets, with the length that recovery checks. -/
  identity : { identity : Bytes // identity.length = 32 }
  destinations : Nat → List Path
  writtenCount : Nat
  /-- The writes to staged segments, in order. -/
  staging : List (Nat × Path × Content)
  policy : Policy Path

namespace Request

variable (request : Request Path Content)

/-- The segments that a set installs. -/
def written (set : Nat) : List Path := (request.destinations set).take request.writtenCount

/-- The further segments of a set, which are removed. -/
def stale (set : Nat) : List Path := (request.destinations set).drop request.writtenCount

def directories : List Directory := [.new, .old, .absent, .restore]

def beginOps : List (FsOp Path Content) :=
  (List.range request.sets).map .createJournal ++
    (List.range request.sets).flatMap fun set =>
      directories.map (.createDirectory set) ++ [.writeIdentity set request.identity.val]

def stageOps : List (FsOp Path Content) :=
  request.staging.map fun (set, path, content) => .stage set path content

def prepareOps : List (FsOp Path Content) :=
  ((List.range request.sets).flatMap fun set =>
    (request.written set).map (.checkStaged set) ++ (request.destinations set).map (.backup set)) ++
    [.markReady]

def installSetOps (set : Nat) : List (FsOp Path Content) :=
  (request.written set).map (.install set) ++ (request.stale set).map (.removeStale set)

def installOps : List (FsOp Path Content) :=
  (List.range request.sets).flatMap request.installSetOps

end Request

/-- `cleanup` of the first `sets` sets, the last one first. -/
def cleanupOps (sets : Nat) : List (FsOp Path Content) :=
  (List.range sets).reverse.map .retire

/-- The restoration of one set from its journal; `order` is the order of directory listings. -/
def restoreOps (order : List Path → List Path) (set : Nat) (journal : Journal Path Content) :
    List (FsOp Path Content) :=
  ((order (journal.backups.map Prod.fst)).flatMap fun path =>
    [.copyRestore set path, .restore set path]) ++
    (order journal.absent).map (.removeInstalled set)

/-- `rollback`, up to its own decision mark, and the cleanup behind it. -/
def rollbackOps (order : List Path → List Path) (sets : Nat) (disk : Disk Path Content) :
    List (FsOp Path Content) :=
  ((List.range sets).flatMap fun set =>
    match disk.journals set with
    | some journal => restoreOps order set journal
    | none => []) ++ .markRolledBack :: cleanupOps sets

/-- The checks of `recover` on the journal of one set. -/
def checkJournal (policy : Policy Path) (identity : Bytes) (ready decided : Bool) (set : Nat)
    (journal : Option (Journal Path Content)) : Result Unit :=
  match journal with
  | none => if decided || !ready then .ok () else .error (.io .notFound)
  | some journal =>
    match journal.identity with
    | none => if !ready then .ok () else .error (.io .notFound)
    | some found => do
      rejectIf (found.length ≠ 32) (.malformed "invalid publication identity")
      rejectIf (found ≠ identity) (.malformed
        "publication recovery requires the original primary and secondary paths")
      if ready && !decided then do
        rejectIf (¬ Request.directories.all journal.directories.contains) (.io .notFound)
        rejectIf (¬ (journal.backups.map Prod.fst ++ journal.absent).all (policy.validTarget set))
          (.malformed "invalid segment filename in publication journal")
      else .ok ()

/-- `recover`: whether a journal was found, and the operations that finish it. -/
def recover (order : List Path → List Path) (policy : Policy Path) (sets : Nat) (identity : Bytes)
    (disk : Disk Path Content) : Result (Bool × List (FsOp Path Content)) :=
  match disk.journals 0 with
  | none => do
    rejectIf ((List.range sets).any fun set => (disk.journals set).isSome)
      (.malformed "secondary journal exists without its primary")
    return (false, [])
  | some primary => do
    let decided := primary.committed || primary.rolledBack
    (List.range sets).forM fun set =>
      checkJournal policy identity primary.ready decided set (disk.journals set)
    return (true,
      if decided || !primary.ready then cleanupOps sets else rollbackOps order sets disk)

/-- The operations up to the mark that the journals are complete. -/
def Request.program (request : Request Path Content) : List (FsOp Path Content) :=
  request.beginOps ++ request.stageOps ++ request.prepareOps

/-! ## The process -/

/-- What the process that holds the output locks is doing. -/
inductive Process (Path Content : Type)
  | idle
  | preparing (todo : List (FsOp Path Content))
  | installing (todo : List (FsOp Path Content))
  | concluding (todo : List (FsOp Path Content))

structure System (Path Content : Type) where
  disk : Disk Path Content
  process : Process Path Content
  /-- The commit marker has been created. -/
  committed : Bool

/-- A publication of `request` over the files `initial`. -/
def Request.start (request : Request Path Content) (initial : Path → Option Content) :
    System Path Content where
  disk := { files := initial, journals := fun _ => none }
  process := .preparing request.program
  committed := false

variable [DecidableEq Path]

/-- One step of the process, a failure of its next operation, or a crash. -/
inductive Step (request : Request Path Content) : System Path Content → System Path Content → Prop
  | prepare {disk disk' op todo committed} (happly : op.apply request.policy disk = some disk') :
      Step request ⟨disk, .preparing (op :: todo), committed⟩ ⟨disk', .preparing todo, committed⟩
  | prepared {disk committed} :
      Step request ⟨disk, .preparing [], committed⟩ ⟨disk, .installing request.installOps, committed⟩
  | failPrepare {disk op todo committed} :
      Step request ⟨disk, .preparing (op :: todo), committed⟩
        ⟨disk, .concluding (cleanupOps request.sets), committed⟩
  | install {disk disk' op todo committed} (happly : op.apply request.policy disk = some disk') :
      Step request ⟨disk, .installing (op :: todo), committed⟩ ⟨disk', .installing todo, committed⟩
  | failInstall {disk todo committed} (order : List Path → List Path)
      (horder : ∀ paths, (order paths).Perm paths) :
      Step request ⟨disk, .installing todo, committed⟩
        ⟨disk, .concluding (rollbackOps order request.sets disk), committed⟩
  | commit {disk disk' committed}
      (happly : FsOp.markCommitted.apply request.policy disk = some disk') :
      Step request ⟨disk, .installing [], committed⟩
        ⟨disk', .concluding (cleanupOps request.sets), true⟩
  | conclude {disk disk' op todo committed} (happly : op.apply request.policy disk = some disk') :
      Step request ⟨disk, .concluding (op :: todo), committed⟩ ⟨disk', .concluding todo, committed⟩
  | tearPreparing {disk disk' op todo committed} (htorn : Torn request.policy disk op disk') :
      Step request ⟨disk, .preparing (op :: todo), committed⟩
        ⟨disk', .preparing (op :: todo), committed⟩
  | tearConcluding {disk disk' op todo committed} (htorn : Torn request.policy disk op disk') :
      Step request ⟨disk, .concluding (op :: todo), committed⟩
        ⟨disk', .concluding (op :: todo), committed⟩
  | stop {disk process committed} :
      Step request ⟨disk, process, committed⟩ ⟨disk, .idle, committed⟩
  | recover {disk plan found committed} (order : List Path → List Path)
      (horder : ∀ paths, (order paths).Perm paths)
      (hplan : recover order request.policy request.sets request.identity.val disk =
        .ok (found, plan)) :
      Step request ⟨disk, .idle, committed⟩ ⟨disk, .concluding plan, committed⟩

/-- The states of a publication, its crashes and its recoveries. -/
def Reachable (request : Request Path Content) (initial : Path → Option Content) :
    System Path Content → Prop :=
  Relation.ReflTransGen (Step request) (request.start initial)

end EwfImage.Publication
