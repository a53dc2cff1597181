import EwfImage.Error
import EwfImage.Lib.Programs
import EwfImage.Types

/-!
# The publication journal on disk

The files a publication touches: the destinations, by path, and one journal
directory for each output set, by set number. Every operation is one file-system
creation, copy, rename or removal and fails as the system call does. The directory
that a retired journal is renamed into is inert and is not part of the disk.

The content of a file is a list of bytes, and a journal holds backups by path, markers of absent
destinations, the identity of its set and the two marks. `inJournal` is a change of one journal;
the lemmas beside it say that all others and the destinations stay.
-/

namespace EwfImage.Publication

/-- The directories inside a journal. -/
inductive Directory
  | new
  | old
  | absent
  | restore
  deriving DecidableEq

structure Journal (Path Content : Type) where
  directories : List Directory := []
  identity : Option Bytes := none
  /-- `new`: the staged segments. -/
  staged : Path → Option Content := fun _ => none
  /-- `old`: copies of the destinations that existed. -/
  backups : List (Path × Content) := []
  /-- `absent`: markers for the destinations that did not exist. -/
  absent : List Path := []
  /-- `restore`: backups on their way back. -/
  restored : Path → Option Content := fun _ => none
  ready : Bool := false
  committed : Bool := false
  rolledBack : Bool := false

structure Disk (Path Content : Type) where
  files : Path → Option Content
  journals : Nat → Option (Journal Path Content)

inductive FsOp (Path Content : Type)
  | createJournal (set : Nat)
  | createDirectory (set : Nat) (directory : Directory)
  | writeIdentity (set : Nat) (identity : Bytes)
  | stage (set : Nat) (path : Path) (content : Content)
  | checkStaged (set : Nat) (path : Path)
  | backup (set : Nat) (path : Path)
  | markReady
  | install (set : Nat) (path : Path)
  | removeStale (set : Nat) (path : Path)
  | copyRestore (set : Nat) (path : Path)
  | restore (set : Nat) (path : Path)
  | removeInstalled (set : Nat) (path : Path)
  | markRolledBack
  | markCommitted
  | retire (set : Nat)

section Apply

variable {Path Content : Type} [DecidableEq Path]

/-- Set the value of a map at one key. -/
def assign {α β : Type} [DecidableEq α] (map : α → β) (key : α) (value : β) : α → β :=
  fun k => if k = key then value else map k

@[simp] theorem assign_self {α β : Type} [DecidableEq α] (map : α → β) (key : α) (value : β) :
    assign map key value key = value := by
  simp [assign]

theorem assign_of_ne {α β : Type} [DecidableEq α] (map : α → β) {key k : α} (value : β)
    (h : k ≠ key) : assign map key value k = map k := by
  simp [assign, h]

def Disk.setFile (disk : Disk Path Content) (path : Path) (content : Option Content) :
    Disk Path Content :=
  { disk with files := assign disk.files path content }

def Disk.setJournal (disk : Disk Path Content) (set : Nat)
    (journal : Option (Journal Path Content)) : Disk Path Content :=
  { disk with journals := assign disk.journals set journal }

/-- Change the journal of `set`, which must exist. -/
def Disk.inJournal (disk : Disk Path Content) (set : Nat)
    (change : Journal Path Content → Option (Journal Path Content)) : Option (Disk Path Content) :=
  (disk.journals set).bind fun journal =>
    (change journal).map fun journal => disk.setJournal set (some journal)

/-- Create or overwrite the backup of `path`. -/
def Journal.putBackup (journal : Journal Path Content) (path : Path) (content : Content) :
    Journal Path Content :=
  { journal with backups := (path, content) :: journal.backups.filter fun entry => entry.1 ≠ path }

/-- The checks of `prepare` on one destination: its name and, for an existing file, the permission
to replace it. -/
structure Policy (Path : Type) where
  validTarget : Nat → Path → Bool
  allowReplace : Bool

/-- The effect of an operation, absent when it fails. -/
def FsOp.apply (policy : Policy Path) (disk : Disk Path Content) :
    FsOp Path Content → Option (Disk Path Content)
  | .createJournal set =>
    match disk.journals set with
    | none => some (disk.setJournal set (some {}))
    | some _ => none
  | .createDirectory set directory => disk.inJournal set fun journal =>
      some { journal with directories := directory :: journal.directories }
  | .writeIdentity set identity => disk.inJournal set fun journal =>
      some { journal with identity := some identity }
  | .stage set path content => disk.inJournal set fun journal =>
      some { journal with staged := assign journal.staged path (some content) }
  | .checkStaged set path => disk.inJournal set fun journal =>
      if (journal.staged path).isSome then some journal else none
  | .backup set path => disk.inJournal set fun journal =>
      if policy.validTarget set path then
        match disk.files path with
        | some content => if policy.allowReplace then some (journal.putBackup path content) else none
        | none => some { journal with absent := path :: journal.absent }
      else none
  | .markReady => disk.inJournal 0 fun journal => some { journal with ready := true }
  | .install set path => do
    let journal ← disk.journals set
    let content ← journal.staged path
    some ((disk.setJournal set (some { journal with staged := assign journal.staged path none })).setFile
      path (some content))
  | .removeStale _ path => some (disk.setFile path none)
  | .copyRestore set path => disk.inJournal set fun journal =>
      (journal.backups.lookup path).map fun content =>
        { journal with restored := assign journal.restored path (some content) }
  | .restore set path => do
    let journal ← disk.journals set
    let content ← journal.restored path
    some ((disk.setJournal set
      (some { journal with restored := assign journal.restored path none })).setFile
      path (some content))
  | .removeInstalled _ path => some (disk.setFile path none)
  | .markRolledBack => disk.inJournal 0 fun journal => some { journal with rolledBack := true }
  | .markCommitted => disk.inJournal 0 fun journal => some { journal with committed := true }
  | .retire set => some (disk.setJournal set none)

/-- What a write that is cut short leaves: any content under the name being written. -/
inductive Torn (policy : Policy Path) (disk : Disk Path Content) :
    FsOp Path Content → Disk Path Content → Prop
  | writeIdentity {set : Nat} {identity : Bytes} {journal : Journal Path Content} (part : Bytes)
      (hjournal : disk.journals set = some journal) :
      Torn policy disk (.writeIdentity set identity)
        (disk.setJournal set (some { journal with identity := some part }))
  | backup {set : Nat} {path : Path} {journal : Journal Path Content} (part : Content)
      (hjournal : disk.journals set = some journal) (hfile : (disk.files path).isSome)
      (hvalid : policy.validTarget set path) :
      Torn policy disk (.backup set path) (disk.setJournal set (some (journal.putBackup path part)))
  | copyRestore {set : Nat} {path : Path} {journal : Journal Path Content} (part : Content)
      (hjournal : disk.journals set = some journal) :
      Torn policy disk (.copyRestore set path) (disk.setJournal set
        (some { journal with restored := assign journal.restored path (some part) }))

end Apply

/-! ## Reading the disk after an operation -/

section Reading

variable {Path Content : Type} {disk disk' : Disk Path Content}

@[simp] theorem setFile_files_self [DecidableEq Path] (path : Path) (content : Option Content) :
    (disk.setFile path content).files path = content := by
  simp [Disk.setFile]

theorem setFile_files_of_ne [DecidableEq Path] {path other : Path} (content : Option Content)
    (h : other ≠ path) : (disk.setFile path content).files other = disk.files other :=
  assign_of_ne _ _ h

@[simp] theorem setFile_journals [DecidableEq Path] (path : Path) (content : Option Content) :
    (disk.setFile path content).journals = disk.journals := rfl

@[simp] theorem setJournal_files (set : Nat) (journal : Option (Journal Path Content)) :
    (disk.setJournal set journal).files = disk.files := rfl

@[simp] theorem setJournal_journals_self (set : Nat) (journal : Option (Journal Path Content)) :
    (disk.setJournal set journal).journals set = journal := by
  simp [Disk.setJournal]

theorem setJournal_journals_of_ne {set other : Nat} (journal : Option (Journal Path Content))
    (h : other ≠ set) : (disk.setJournal set journal).journals other = disk.journals other :=
  assign_of_ne _ _ h

theorem inJournal_eq_some {set : Nat}
    {change : Journal Path Content → Option (Journal Path Content)} :
    disk.inJournal set change = some disk' ↔
      ∃ journal changed, disk.journals set = some journal ∧ change journal = some changed ∧
        disk' = disk.setJournal set (some changed) := by
  simp only [Disk.inJournal, Option.bind_eq_some_iff, Option.map_eq_some_iff]
  constructor
  · rintro ⟨journal, hget, changed, hchange, rfl⟩
    exact ⟨journal, changed, hget, hchange, rfl⟩
  · rintro ⟨journal, changed, hget, hchange, rfl⟩
    exact ⟨journal, hget, changed, hchange, rfl⟩

/-- The journal found after one journal has been replaced. -/
theorem setJournal_journals_cases {set other : Nat} {journal : Option (Journal Path Content)}
    {found : Journal Path Content}
    (h : (disk.setJournal set journal).journals other = some found) :
    (other = set ∧ journal = some found) ∨ (other ≠ set ∧ disk.journals other = some found) := by
  by_cases heq : other = set
  · subst heq
    rw [setJournal_journals_self] at h
    exact .inl ⟨rfl, h⟩
  · rw [setJournal_journals_of_ne _ heq] at h
    exact .inr ⟨heq, h⟩

end Reading

end EwfImage.Publication
