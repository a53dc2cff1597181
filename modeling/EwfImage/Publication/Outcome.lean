import EwfImage.Publication.Protocol

/-!
# The outcomes of a publication

Two disk predicates carry the argument. A disk is `Secured` when the journals are
complete and nothing has been decided: whatever the destinations hold, the backups
restore them. It is `Settled` when the destinations hold the outcome and only
journals remain to be retired. Every step of a publication, of its rollback and of
a recovery keeps one of the two, so each crash leaves a disk from which a completed
recovery reaches the outcome that the commit marker decides.
-/

namespace EwfImage.Publication

open Fallible

variable {Path Content : Type}

/-! ## Outcomes -/

/-- The content staged for `path` of `set` when the writes `writes` follow what is there `now`. -/
def stagedAfter [DecidableEq Path] (writes : List (Nat × Path × Content)) (set : Nat) (path : Path)
    (now : Option Content) : Option Content :=
  writes.foldl (fun now write => if write.1 = set ∧ write.2.1 = path then some write.2.2 else now)
    now

def Request.stagedContent [DecidableEq Path] (request : Request Path Content) (set : Nat)
    (path : Path) : Option Content :=
  stagedAfter request.staging set path none

/-- Every written segment holds its staged content, the other stale segments are gone, and nothing
else has changed. -/
structure EntirelyNew [DecidableEq Path] (request : Request Path Content)
    (initial files : Path → Option Content) : Prop where
  written : ∀ set < request.sets, ∀ path ∈ request.written set,
    (request.stagedContent set path).isSome ∧ files path = request.stagedContent set path
  stale : ∀ set < request.sets, ∀ path ∈ request.stale set,
    (∀ other < request.sets, path ∉ request.written other) → files path = none
  others : ∀ path, (∀ set < request.sets, path ∉ request.destinations set) →
    files path = initial path

/-- The destinations after a publication that did or did not commit. -/
def Outcome [DecidableEq Path] (request : Request Path Content) (initial : Path → Option Content)
    (committed : Bool) (files : Path → Option Content) : Prop :=
  if committed then EntirelyNew request initial files else files = initial

/-- No path that a set installs is a stale path of the set or a destination of a later one. -/
structure Request.KeepsInstalled (request : Request Path Content) : Prop where
  own : ∀ set < request.sets, ∀ path ∈ request.written set, path ∉ request.stale set
  later : ∀ set other, set < other → other < request.sets → ∀ path ∈ request.written set,
    path ∉ request.destinations other

/-! ## Disk predicates -/

section Predicates

variable (request : Request Path Content) (initial : Path → Option Content)

/-- The journal of `set` restores every destination of the set. -/
structure Saved (set : Nat) (journal : Journal Path Content) : Prop where
  directories : ∀ directory, directory ∈ journal.directories
  identity : journal.identity = some request.identity.val
  backups : ∀ path content, (path, content) ∈ journal.backups →
    path ∈ request.destinations set ∧ initial path = some content
  absent : ∀ path ∈ journal.absent, path ∈ request.destinations set ∧ initial path = none
  covered : ∀ path ∈ request.destinations set,
    path ∈ journal.backups.map Prod.fst ∨ path ∈ journal.absent
  valid : ∀ path ∈ journal.backups.map Prod.fst ++ journal.absent,
    request.policy.validTarget set path

/-- The journals are complete and no decision has been recorded. -/
structure Secured (disk : Disk Path Content) : Prop where
  primary : ∃ journal, disk.journals 0 = some journal ∧ journal.ready = true ∧
    journal.committed = false ∧ journal.rolledBack = false
  saved : ∀ set < request.sets, ∃ journal, disk.journals set = some journal ∧
    Saved request initial set journal
  unused : ∀ set, request.sets ≤ set → disk.journals set = none
  others : ∀ path, (∀ set < request.sets, path ∉ request.destinations set) →
    disk.files path = initial path

/-- The destinations hold the outcome, and what is left of the journals can be retired. -/
structure Settled [DecidableEq Path] (committed : Bool) (disk : Disk Path Content) : Prop where
  outcome : Outcome request initial committed disk.files
  primaryLast : disk.journals 0 = none → ∀ set, disk.journals set = none
  unused : ∀ set, request.sets ≤ set → disk.journals set = none
  decided : ∀ journal, disk.journals 0 = some journal →
    journal.committed = true ∨ journal.rolledBack = true ∨ journal.ready = false
  identities : ∀ set journal, disk.journals set = some journal →
    journal.identity = some request.identity.val ∨
      ∀ primary, disk.journals 0 = some primary → primary.ready = false

/-- No identity was cut short while it was written: a journal on the disk has the identity of the
request, or none. -/
def IdentitiesWhole (disk : Disk Path Content) : Prop :=
  ∀ set journal found, disk.journals set = some journal → journal.identity = some found →
    found = request.identity.val

/-- What every crash leaves. -/
def Recoverable [DecidableEq Path] (committed : Bool) (disk : Disk Path Content) : Prop :=
  Settled request initial committed disk ∨ (committed = false ∧ Secured request initial disk)

end Predicates

end EwfImage.Publication
