import EwfImage.Publication.Crash

/-!
# What a publication touches

Every operation names a destination of the request, so no step, crash or recovery
changes another file, and none depends on one. Two directories that agree on the
destinations therefore see the same runs.

The main results are `Reachable.agrees` and `canCommit_congr`. They make it enough to look at
the destinations of a request when two directories are compared, which is what
`Publication.Siblings` does with the files next to an output.
-/

namespace EwfImage.Publication

open Fallible Programs

variable {Path Content : Type}

def Process.todo : Process Path Content → List (FsOp Path Content)
  | .idle => []
  | .preparing todo | .installing todo | .concluding todo => todo

/-- The path of a directory that an operation reads or changes. -/
def FsOp.target : FsOp Path Content → Option Path
  | .backup _ path | .install _ path | .removeStale _ path | .restore _ path
  | .removeInstalled _ path => some path
  | _ => none

/-- A path that a set of the request writes or removes. -/
def Request.Claims (request : Request Path Content) (path : Path) : Prop :=
  ∃ set < request.sets, path ∈ request.destinations set

/-- The operations and the journals name claimed paths only. -/
structure Named (request : Request Path Content) (disk : Disk Path Content)
    (todo : List (FsOp Path Content)) : Prop where
  journals : ∀ set journal, disk.journals set = some journal → ∀ path,
    path ∈ journal.backups.map Prod.fst ∨ path ∈ journal.absent → request.Claims path
  todo : ∀ op ∈ todo, ∀ path, op.target = some path → request.Claims path

/-! ## Operations -/

section Apply

variable [DecidableEq Path] {request : Request Path Content} {disk disk' : Disk Path Content}
  {op : FsOp Path Content} {rest : List (FsOp Path Content)}

/-- An operation changes at most the file that it names. -/
theorem files_of_apply {policy : Policy Path} (h : op.apply policy disk = some disk') (path : Path)
    (hother : op.target ≠ some path) : disk'.files path = disk.files path := by
  cases op with
  | createJournal set =>
    simp only [FsOp.apply] at h
    split at h
    · cases h
      rfl
    · cases h
  | install set target =>
    simp only [FsOp.apply, Option.bind_eq_bind, Option.bind_eq_some_iff, Option.some.injEq] at h
    obtain ⟨_, _, _, _, rfl⟩ := h
    rw [setFile_files_of_ne _ fun heq => hother (by rw [heq]; rfl), setJournal_files]
  | restore set target =>
    simp only [FsOp.apply, Option.bind_eq_bind, Option.bind_eq_some_iff, Option.some.injEq] at h
    obtain ⟨_, _, _, _, rfl⟩ := h
    rw [setFile_files_of_ne _ fun heq => hother (by rw [heq]; rfl), setJournal_files]
  | removeStale set target =>
    cases h
    exact setFile_files_of_ne _ fun heq => hother (by rw [heq]; rfl)
  | removeInstalled set target =>
    cases h
    exact setFile_files_of_ne _ fun heq => hother (by rw [heq]; rfl)
  | retire set =>
    cases h
    rfl
  | createDirectory | writeIdentity | stage | checkStaged | backup | markReady | copyRestore
  | markRolledBack | markCommitted =>
    obtain ⟨_, _, _, _, rfl⟩ := inJournal_eq_some.mp h
    rfl

omit [DecidableEq Path] in
theorem Named.setJournal {set : Nat} {journal : Journal Path Content}
    (h : Named request disk rest) (hnamed : ∀ path,
      path ∈ journal.backups.map Prod.fst ∨ path ∈ journal.absent → request.Claims path) :
    Named request (disk.setJournal set (some journal)) rest := by
  refine ⟨?_, h.todo⟩
  intro other found hfound
  rcases setJournal_journals_cases hfound with ⟨_, heq⟩ | ⟨_, hold⟩
  · cases heq
    exact hnamed
  · exact h.journals other found hold

omit [DecidableEq Path] in
theorem Named.tail (h : Named request disk (op :: rest)) : Named request disk rest :=
  ⟨h.journals, fun other hother => h.todo other (List.mem_cons_of_mem _ hother)⟩

theorem Named.setFile {path : Path} {content : Option Content} (h : Named request disk rest) :
    Named request (disk.setFile path content) rest :=
  ⟨h.journals, h.todo⟩

theorem Named.putBackup {set : Nat} {path : Path} {content : Content}
    {journal : Journal Path Content} (h : Named request disk rest)
    (hjournal : disk.journals set = some journal) (hpath : request.Claims path) :
    Named request (disk.setJournal set (some (journal.putBackup path content))) rest := by
  refine h.setJournal fun other hother => ?_
  rcases hother with hother | hother
  · rcases mem_putBackup_keys.mp hother with rfl | hother
    · exact hpath
    · exact h.journals set journal hjournal other (.inl hother)
  · exact h.journals set journal hjournal other (.inr hother)

theorem Named.apply {policy : Policy Path} (h : Named request disk (op :: rest))
    (happly : op.apply policy disk = some disk') : Named request disk' rest := by
  have htail := h.tail
  cases op with
  | createJournal set =>
    simp only [FsOp.apply] at happly
    split at happly
    · cases happly
      exact htail.setJournal (by simp)
    · cases happly
  | install set target =>
    simp only [FsOp.apply, Option.bind_eq_bind, Option.bind_eq_some_iff, Option.some.injEq] at happly
    obtain ⟨journal, hjournal, _, _, rfl⟩ := happly
    refine Named.setFile (htail.setJournal ?_)
    exact h.journals set journal hjournal
  | restore set target =>
    simp only [FsOp.apply, Option.bind_eq_bind, Option.bind_eq_some_iff, Option.some.injEq] at happly
    obtain ⟨journal, hjournal, _, _, rfl⟩ := happly
    refine Named.setFile (htail.setJournal ?_)
    exact h.journals set journal hjournal
  | removeStale set target =>
    cases happly
    exact htail.setFile
  | removeInstalled set target =>
    cases happly
    exact htail.setFile
  | retire set =>
    cases happly
    refine ⟨?_, htail.todo⟩
    intro other found hfound
    rcases setJournal_journals_cases hfound with ⟨_, heq⟩ | ⟨_, hold⟩
    · cases heq
    · exact h.journals other found hold
  | backup set path =>
    obtain ⟨journal, changed, hjournal, hchange, rfl⟩ := inJournal_eq_some.mp happly
    have hclaims : request.Claims path := h.todo _ List.mem_cons_self path rfl
    split at hchange
    · split at hchange
      · split at hchange
        · cases hchange
          exact htail.putBackup hjournal hclaims
        · cases hchange
      · cases hchange
        refine htail.setJournal fun other hother => ?_
        rcases hother with hother | hother
        · exact h.journals set journal hjournal other (.inl hother)
        · rcases List.mem_cons.mp hother with rfl | hother
          · exact hclaims
          · exact h.journals set journal hjournal other (.inr hother)
    · cases hchange
  | checkStaged set path =>
    obtain ⟨journal, changed, hjournal, hchange, rfl⟩ := inJournal_eq_some.mp happly
    split at hchange
    · cases hchange
      exact htail.setJournal (h.journals set journal hjournal)
    · cases hchange
  | copyRestore set path =>
    obtain ⟨journal, changed, hjournal, hchange, rfl⟩ := inJournal_eq_some.mp happly
    obtain ⟨content, _, rfl⟩ := Option.map_eq_some_iff.mp hchange
    exact htail.setJournal (h.journals set journal hjournal)
  | createDirectory set _ | writeIdentity set _ | stage set _ _ =>
    obtain ⟨journal, changed, hjournal, hchange, rfl⟩ := inJournal_eq_some.mp happly
    cases hchange
    exact htail.setJournal (h.journals set journal hjournal)
  | markReady | markRolledBack | markCommitted =>
    obtain ⟨journal, changed, hjournal, hchange, rfl⟩ := inJournal_eq_some.mp happly
    cases hchange
    exact htail.setJournal (h.journals 0 journal hjournal)

theorem Named.torn {policy : Policy Path} (h : Named request disk (op :: rest))
    (htorn : Torn policy disk op disk') : Named request disk' (op :: rest) := by
  cases htorn with
  | @writeIdentity set _ journal part hjournal =>
    exact h.setJournal (h.journals set journal hjournal)
  | @backup set path journal part hjournal _ _ =>
    exact h.putBackup hjournal (h.todo _ List.mem_cons_self path rfl)
  | @copyRestore set _ journal part hjournal =>
    exact h.setJournal (h.journals set journal hjournal)

theorem files_of_torn {policy : Policy Path} (htorn : Torn policy disk op disk') :
    disk'.files = disk.files := by
  cases htorn <;> rfl

end Apply

/-! ## Lists of operations -/

section Lists

variable {request : Request Path Content} {disk : Disk Path Content}

theorem claims_of_mem_program [DecidableEq Path] {op : FsOp Path Content}
    (hop : op ∈ request.program) {path : Path} (htarget : op.target = some path) :
    request.Claims path := by
  rw [program_eq, List.mem_append, List.mem_append, List.mem_map, mem_fillOps] at hop
  rcases hop with (⟨_, _, rfl⟩ | ((⟨_, _, ⟨_, _, rfl⟩ | rfl⟩ | ⟨_, _, _, _, rfl⟩ | hcheck))) | hmark
  · cases htarget
  · cases htarget
  · cases htarget
  · cases htarget
  · obtain ⟨set, hset, ⟨_, _, rfl⟩ | ⟨found, hfound, rfl⟩⟩ := hcheck
    · cases htarget
    · cases htarget
      exact ⟨set, hset, hfound⟩
  · rw [List.mem_singleton.mp hmark] at htarget
    cases htarget

theorem claims_of_mem_installOps [DecidableEq Path] {op : FsOp Path Content}
    (hop : op ∈ request.installOps) {path : Path} (htarget : op.target = some path) :
    request.Claims path := by
  obtain ⟨set, hset, hop⟩ := List.mem_flatMap.mp hop
  rcases mem_installSetOps.mp hop with ⟨found, hfound, rfl⟩ | ⟨found, hfound, rfl⟩
  · cases htarget
    exact ⟨set, List.mem_range.mp hset, written_subset hfound⟩
  · cases htarget
    exact ⟨set, List.mem_range.mp hset, stale_subset hfound⟩

theorem target_of_mem_cleanupOps {sets : Nat} {op : FsOp Path Content}
    (hop : op ∈ cleanupOps sets) : op.target = none := by
  obtain ⟨_, _, rfl⟩ := List.mem_map.mp hop
  rfl

/-- A rollback restores and removes what the journals name. -/
theorem Named.rollback {rest : List (FsOp Path Content)} {order : List Path → List Path} {sets : Nat}
    (h : Named request disk rest) (horder : ∀ paths, (order paths).Perm paths) :
    Named request disk (rollbackOps order sets disk) := by
  refine ⟨h.journals, ?_⟩
  intro op hop path htarget
  rcases List.mem_append.mp hop with hop | hop
  · obtain ⟨set, _, hop⟩ := List.mem_flatMap.mp hop
    split at hop
    · rename_i journal hjournal
      rcases List.mem_append.mp hop with hop | hop
      · obtain ⟨found, hfound, hop⟩ := List.mem_flatMap.mp hop
        rcases List.mem_cons.mp hop with rfl | hop
        · cases htarget
        · rw [List.mem_singleton.mp hop] at htarget
          cases htarget
          exact h.journals set journal hjournal path (.inl ((horder _).mem_iff.mp hfound))
      · obtain ⟨found, hfound, rfl⟩ := List.mem_map.mp hop
        cases htarget
        exact h.journals set journal hjournal path (.inr ((horder _).mem_iff.mp hfound))
    · cases hop
  · rcases List.mem_cons.mp hop with rfl | hop
    · cases htarget
    · rw [target_of_mem_cleanupOps hop] at htarget
      cases htarget

theorem Named.cleanup {rest : List (FsOp Path Content)} {sets : Nat} (h : Named request disk rest) :
    Named request disk (cleanupOps sets) := by
  refine ⟨h.journals, ?_⟩
  intro op hop path htarget
  rw [target_of_mem_cleanupOps hop] at htarget
  cases htarget

theorem Named.of_recover {rest : List (FsOp Path Content)} {order : List Path → List Path}
    {policy : Policy Path} {sets : Nat} {identity : Bytes} {found : Bool}
    {plan : List (FsOp Path Content)} (h : Named request disk rest)
    (horder : ∀ paths, (order paths).Perm paths)
    (hplan : recover order policy sets identity disk = .ok (found, plan)) :
    Named request disk plan := by
  unfold recover at hplan
  split at hplan
  · simp only [bind_eq_ok, pure_eq_ok, Except.ok.injEq, Prod.mk.injEq] at hplan
    obtain ⟨_, _, _, rfl⟩ := hplan
    exact ⟨h.journals, by simp⟩
  · simp only [bind_eq_ok, pure_eq_ok, Except.ok.injEq, Prod.mk.injEq] at hplan
    obtain ⟨_, _, _, rfl⟩ := hplan
    split
    · exact h.cleanup
    · exact h.rollback horder

end Lists

/-! ## Runs -/

section Run

variable [DecidableEq Path] {request : Request Path Content} {initial : Path → Option Content}

/-- Only claimed paths are named, and the other files are as they were. -/
structure Confined (request : Request Path Content) (initial : Path → Option Content)
    (system : System Path Content) : Prop where
  named : Named request system.disk system.process.todo
  files : ∀ path, ¬ request.Claims path → system.disk.files path = initial path

theorem Confined.start : Confined request initial (request.start initial) := by
  refine ⟨⟨?_, ?_⟩, fun _ _ => rfl⟩
  · intro set journal hjournal
    cases hjournal
  · intro op hop path htarget
    exact claims_of_mem_program hop htarget

theorem Confined.apply {disk disk' : Disk Path Content} {op : FsOp Path Content}
    {rest : List (FsOp Path Content)} {policy : Policy Path}
    (hnamed : Named request disk (op :: rest))
    (hfiles : ∀ path, ¬ request.Claims path → disk.files path = initial path)
    (happly : op.apply policy disk = some disk') :
    Named request disk' rest ∧ ∀ path, ¬ request.Claims path → disk'.files path = initial path := by
  refine ⟨hnamed.apply happly, ?_⟩
  intro path hpath
  rw [files_of_apply happly path fun htarget =>
    hpath (hnamed.todo op List.mem_cons_self path htarget)]
  exact hfiles path hpath

theorem Step.confined {system system' : System Path Content} (hstep : Step request system system')
    (h : Confined request initial system) : Confined request initial system' := by
  obtain ⟨hnamed, hfiles⟩ := h
  cases hstep with
  | prepare happly =>
    obtain ⟨hnamed', hfiles'⟩ := Confined.apply hnamed hfiles happly
    exact ⟨hnamed', hfiles'⟩
  | prepared =>
    exact ⟨⟨hnamed.journals, fun _ hop _ htarget => claims_of_mem_installOps hop htarget⟩, hfiles⟩
  | failPrepare => exact ⟨hnamed.cleanup, hfiles⟩
  | install happly =>
    obtain ⟨hnamed', hfiles'⟩ := Confined.apply hnamed hfiles happly
    exact ⟨hnamed', hfiles'⟩
  | failInstall order horder => exact ⟨hnamed.rollback horder, hfiles⟩
  | commit happly =>
    have hmark : Named request _ [.markCommitted] := ⟨hnamed.journals, by simp [FsOp.target]⟩
    obtain ⟨hnamed', hfiles'⟩ := Confined.apply hmark hfiles happly
    exact ⟨hnamed'.cleanup, hfiles'⟩
  | conclude happly =>
    obtain ⟨hnamed', hfiles'⟩ := Confined.apply hnamed hfiles happly
    exact ⟨hnamed', hfiles'⟩
  | tearPreparing htorn =>
    exact ⟨hnamed.torn htorn, fun path hpath => by rw [files_of_torn htorn]; exact hfiles path hpath⟩
  | tearConcluding htorn =>
    exact ⟨hnamed.torn htorn, fun path hpath => by rw [files_of_torn htorn]; exact hfiles path hpath⟩
  | stop => exact ⟨⟨hnamed.journals, by simp [Process.todo]⟩, hfiles⟩
  | recover order horder hplan => exact ⟨hnamed.of_recover horder hplan, hfiles⟩

theorem Reachable.confined {system : System Path Content}
    (h : Reachable request initial system) : Confined request initial system := by
  induction h with
  | refl => exact .start
  | tail _ hstep ih => exact hstep.confined ih

end Run

/-! ## Directories that agree on the destinations -/

section Agreement

variable [DecidableEq Path] {request : Request Path Content}

structure SameClaimed (request : Request Path Content) (left right : Disk Path Content) :
    Prop where
  journals : right.journals = left.journals
  files : ∀ path, request.Claims path → right.files path = left.files path

structure Agrees (request : Request Path Content) (left right : System Path Content) : Prop where
  disk : SameClaimed request left.disk right.disk
  process : right.process = left.process
  committed : right.committed = left.committed

section Disks

variable {left right left' : Disk Path Content} {op : FsOp Path Content} {policy : Policy Path}

theorem SameClaimed.setFile (h : SameClaimed request left right) (path : Path)
    (content : Option Content) :
    SameClaimed request (left.setFile path content) (right.setFile path content) := by
  refine ⟨h.journals, ?_⟩
  intro other hother
  by_cases heq : other = path
  · subst heq
    rw [setFile_files_self, setFile_files_self]
  · rw [setFile_files_of_ne _ heq, setFile_files_of_ne _ heq]
    exact h.files other hother

omit [DecidableEq Path] in
theorem SameClaimed.setJournal (h : SameClaimed request left right) (set : Nat)
    (journal : Option (Journal Path Content)) :
    SameClaimed request (left.setJournal set journal) (right.setJournal set journal) := by
  refine ⟨?_, h.files⟩
  unfold Disk.setJournal
  rw [h.journals]

omit [DecidableEq Path] in
/-- A change of a journal that does not look at the files. -/
theorem SameClaimed.inJournal (h : SameClaimed request left right) {set : Nat}
    {change : Journal Path Content → Option (Journal Path Content)}
    (hleft : left.inJournal set change = some left') :
    ∃ right', right.inJournal set change = some right' ∧ SameClaimed request left' right' := by
  obtain ⟨journal, changed, hjournal, hchange, rfl⟩ := inJournal_eq_some.mp hleft
  refine ⟨right.setJournal set (some changed), ?_, h.setJournal set _⟩
  exact inJournal_eq_some.mpr ⟨journal, changed, by rw [h.journals]; exact hjournal, hchange, rfl⟩

theorem SameClaimed.apply (h : SameClaimed request left right)
    (hop : ∀ path, op.target = some path → request.Claims path)
    (hleft : op.apply policy left = some left') :
    ∃ right', op.apply policy right = some right' ∧ SameClaimed request left' right' := by
  cases op with
  | createJournal set =>
    simp only [FsOp.apply] at hleft
    split at hleft
    · rename_i hnone
      cases hleft
      refine ⟨right.setJournal set (some {}), ?_, h.setJournal set _⟩
      simp only [FsOp.apply, h.journals, hnone]
    · cases hleft
  | install set path =>
    simp only [FsOp.apply, Option.bind_eq_bind, Option.bind_eq_some_iff, Option.some.injEq] at hleft
    obtain ⟨journal, hjournal, content, hcontent, rfl⟩ := hleft
    refine ⟨_, ?_, (h.setJournal set _).setFile path _⟩
    simp only [FsOp.apply, h.journals, hjournal, Option.bind_eq_bind, Option.bind_some, hcontent]
  | restore set path =>
    simp only [FsOp.apply, Option.bind_eq_bind, Option.bind_eq_some_iff, Option.some.injEq] at hleft
    obtain ⟨journal, hjournal, content, hcontent, rfl⟩ := hleft
    refine ⟨_, ?_, (h.setJournal set _).setFile path _⟩
    simp only [FsOp.apply, h.journals, hjournal, Option.bind_eq_bind, Option.bind_some, hcontent]
  | removeStale set path =>
    cases hleft
    exact ⟨_, rfl, h.setFile path none⟩
  | removeInstalled set path =>
    cases hleft
    exact ⟨_, rfl, h.setFile path none⟩
  | retire set =>
    cases hleft
    exact ⟨_, rfl, h.setJournal set none⟩
  | backup set path =>
    have hfile := h.files path (hop path rfl)
    have hsame := h.inJournal hleft
    simp only [FsOp.apply, hfile]
    exact hsame
  | createDirectory | writeIdentity | stage | checkStaged | markReady | copyRestore
  | markRolledBack | markCommitted => exact h.inJournal hleft

theorem SameClaimed.torn (h : SameClaimed request left right)
    (hop : ∀ path, op.target = some path → request.Claims path)
    (htorn : Torn policy left op left') :
    ∃ right', Torn policy right op right' ∧ SameClaimed request left' right' := by
  cases htorn with
  | @writeIdentity set identity journal part hjournal =>
    refine ⟨_, .writeIdentity part ?_, h.setJournal set _⟩
    rw [h.journals]
    exact hjournal
  | @backup set path journal part hjournal hfile hvalid =>
    refine ⟨_, .backup part ?_ ?_ hvalid, h.setJournal set _⟩
    · rw [h.journals]
      exact hjournal
    · rw [h.files path (hop path rfl)]
      exact hfile
  | @copyRestore set path journal part hjournal =>
    refine ⟨_, .copyRestore part ?_, h.setJournal set _⟩
    rw [h.journals]
    exact hjournal

end Disks

omit [DecidableEq Path] in
theorem rollbackOps_of_journals {left right : Disk Path Content}
    (h : right.journals = left.journals) (order : List Path → List Path) (sets : Nat) :
    rollbackOps order sets right = rollbackOps order sets left := by
  unfold rollbackOps
  rw [h]

omit [DecidableEq Path] in
theorem recover_of_journals {left right : Disk Path Content}
    (h : right.journals = left.journals) (order : List Path → List Path) (policy : Policy Path)
    (sets : Nat) (identity : Bytes) :
    recover order policy sets identity right = recover order policy sets identity left := by
  unfold recover
  rw [h, rollbackOps_of_journals h]

theorem Step.agrees {left left' right : System Path Content} (hstep : Step request left left')
    (hnamed : Named request left.disk left.process.todo) (h : Agrees request left right) :
    ∃ right', Step request right right' ∧ Agrees request left' right' := by
  obtain ⟨disk, process, committed⟩ := right
  obtain ⟨hdisk, hprocess, hcommitted⟩ := h
  cases hstep with
  | prepare happly =>
    cases hprocess
    cases hcommitted
    obtain ⟨next, hnext, hsame⟩ := hdisk.apply (hnamed.todo _ List.mem_cons_self) happly
    exact ⟨_, .prepare hnext, hsame, rfl, rfl⟩
  | prepared =>
    cases hprocess
    cases hcommitted
    exact ⟨_, .prepared, hdisk, rfl, rfl⟩
  | failPrepare =>
    cases hprocess
    cases hcommitted
    exact ⟨_, .failPrepare, hdisk, rfl, rfl⟩
  | install happly =>
    cases hprocess
    cases hcommitted
    obtain ⟨next, hnext, hsame⟩ := hdisk.apply (hnamed.todo _ List.mem_cons_self) happly
    exact ⟨_, .install hnext, hsame, rfl, rfl⟩
  | failInstall order horder =>
    cases hprocess
    cases hcommitted
    refine ⟨_, .failInstall order horder, hdisk, ?_, rfl⟩
    exact congrArg Process.concluding (rollbackOps_of_journals hdisk.journals order _)
  | commit happly =>
    cases hprocess
    obtain ⟨next, hnext, hsame⟩ := hdisk.apply (fun _ htarget => by cases htarget) happly
    exact ⟨_, .commit hnext, hsame, rfl, rfl⟩
  | conclude happly =>
    cases hprocess
    cases hcommitted
    obtain ⟨next, hnext, hsame⟩ := hdisk.apply (hnamed.todo _ List.mem_cons_self) happly
    exact ⟨_, .conclude hnext, hsame, rfl, rfl⟩
  | tearPreparing htorn =>
    cases hprocess
    cases hcommitted
    obtain ⟨next, hnext, hsame⟩ := hdisk.torn (hnamed.todo _ List.mem_cons_self) htorn
    exact ⟨_, .tearPreparing hnext, hsame, rfl, rfl⟩
  | tearConcluding htorn =>
    cases hprocess
    cases hcommitted
    obtain ⟨next, hnext, hsame⟩ := hdisk.torn (hnamed.todo _ List.mem_cons_self) htorn
    exact ⟨_, .tearConcluding hnext, hsame, rfl, rfl⟩
  | stop =>
    cases hcommitted
    exact ⟨_, .stop, hdisk, rfl, rfl⟩
  | recover order horder hplan =>
    cases hprocess
    cases hcommitted
    rw [← recover_of_journals hdisk.journals] at hplan
    exact ⟨_, .recover order horder hplan, hdisk, rfl, rfl⟩

theorem Reachable.agrees {left right : Path → Option Content} {system : System Path Content}
    (hagree : ∀ path, request.Claims path → right path = left path)
    (h : Reachable request left system) :
    ∃ other, Reachable request right other ∧ Agrees request system other := by
  induction h with
  | refl => exact ⟨_, .refl, ⟨rfl, hagree⟩, rfl, rfl⟩
  | tail hrun hstep ih =>
    obtain ⟨other, hother, hsame⟩ := ih
    have hnamed := (Reachable.confined hrun).named
    obtain ⟨next, hnext, hsame'⟩ := hstep.agrees hnamed hsame
    exact ⟨next, hother.tail hnext, hsame'⟩

/-- Some run of the publication commits. -/
def CanCommit (request : Request Path Content) (initial : Path → Option Content) : Prop :=
  ∃ system, Reachable request initial system ∧ system.committed = true

theorem canCommit_congr {left right : Path → Option Content}
    (hagree : ∀ path, request.Claims path → right path = left path) :
    CanCommit request left ↔ CanCommit request right := by
  constructor
  · rintro ⟨system, hrun, hcommitted⟩
    obtain ⟨other, hother, hsame⟩ := hrun.agrees hagree
    exact ⟨other, hother, hsame.committed.trans hcommitted⟩
  · rintro ⟨system, hrun, hcommitted⟩
    obtain ⟨other, hother, hsame⟩ := hrun.agrees fun path hpath => (hagree path hpath).symm
    exact ⟨other, hother, hsame.committed.trans hcommitted⟩

end Agreement

end EwfImage.Publication
