import EwfImage.Publication.Frame

/-!
# When a publication commits

A publication whose staged segments are complete, and whose destinations are valid
and may be replaced, reaches its commit marker. With one destination that the
preparation refuses it never gets past the preparation, and no file changes.

The main results are `canCommit_of_allows` and `refused_of_refuses`. The first gives a run in
which nothing fails, so statements about commits are not empty; the second is about every run,
with any failures and crashes.
-/

namespace EwfImage.Publication

open Fallible Programs

variable {Path Content : Type} [DecidableEq Path] {request : Request Path Content}
  {initial : Path → Option Content} {disk disk' : Disk Path Content}
  {op : FsOp Path Content} {rest todo : List (FsOp Path Content)}

/-- `prepare` accepts `path` as a destination of `set`. -/
def Request.Allows (request : Request Path Content) (initial : Path → Option Content) (set : Nat)
    (path : Path) : Prop :=
  request.policy.validTarget set path = true ∧
    ((initial path).isSome → request.policy.allowReplace = true)

/-- Every segment of every set is staged once. -/
structure Request.Staged (request : Request Path Content) : Prop where
  sets : ∀ set path content, (set, path, content) ∈ request.staging → set < request.sets
  complete : ∀ set < request.sets, ∀ path ∈ request.written set,
    (request.stagedContent set path).isSome
  distinct : ∀ set < request.sets, (request.written set).Nodup

/-- A segment that has been staged, or is among the writes, is staged after them. -/
theorem stagedAfter_isSome_of_isSome (writes : List (Nat × Path × Content)) {set : Nat} {path : Path}
    {now : Option Content} (h : now.isSome) : (stagedAfter writes set path now).isSome := by
  induction writes generalizing now with
  | nil => exact h
  | cons write writes ih =>
    rw [stagedAfter, List.foldl_cons]
    refine ih ?_
    split
    · rfl
    · exact h

theorem stagedAfter_isSome {writes : List (Nat × Path × Content)} {set : Nat} {path : Path}
    {content : Content} (h : (set, path, content) ∈ writes) (now : Option Content) :
    (stagedAfter writes set path now).isSome := by
  induction writes generalizing now with
  | nil => cases h
  | cons write writes ih =>
    rcases List.mem_cons.mp h with rfl | h
    · rw [stagedAfter, List.foldl_cons, if_pos ⟨rfl, rfl⟩]
      exact stagedAfter_isSome_of_isSome writes rfl
    · exact ih h _

/-! ## Preparation -/

/-- The set whose journal an operation creates. -/
def FsOp.created : FsOp Path Content → Option Nat
  | .createJournal set => some set
  | _ => none

omit [DecidableEq Path] in
theorem created_program : (request.program.filterMap FsOp.created).Nodup := by
  have hfill : (request.fillOps ++ [FsOp.markReady]).filterMap FsOp.created = [] := by
    refine List.filterMap_eq_nil_iff.mpr fun op hop => ?_
    cases op with
    | createJournal set =>
      rcases List.mem_append.mp hop with hop | hop
      · exact absurd hop (createJournal_not_mem_fillOps request set)
      · cases List.mem_singleton.mp hop
    | _ => rfl
  have hcreate : ((List.range request.sets).map (FsOp.createJournal : Nat → FsOp Path Content)
      ).filterMap FsOp.created = List.range request.sets := by
    rw [List.filterMap_map]
    exact List.filterMap_some
  rw [program_eq, List.append_assoc, List.filterMap_append, hfill, hcreate, List.append_nil]
  exact List.nodup_range

/-- Behind the creations every journal of the request exists. -/
theorem Preparing.journal_isSome (h : Preparing request initial (op :: rest) disk)
    (hop : ∀ set, op ≠ .createJournal set) {set : Nat} (hset : set < request.sets) :
    ∃ journal, disk.journals set = some journal := by
  have hprogram := h.suffix
  rw [program_eq, List.append_assoc] at hprogram
  have hsuffix : op :: rest <:+ request.fillOps ++ [.markReady] := by
    refine cons_suffix_of_suffix_append hprogram fun hmem => ?_
    obtain ⟨found, _, heq⟩ := List.mem_map.mp hmem
    exact hop found heq.symm
  refine Option.isSome_iff_exists.mp (h.created set hset fun hmem => ?_)
  rcases List.mem_append.mp (hsuffix.subset hmem) with hfill | hmark
  · exact createJournal_not_mem_fillOps request set hfill
  · cases List.mem_singleton.mp hmark

/-- When a staged segment is checked all of them have been staged. -/
theorem Preparing.staged_of_check {set : Nat} {path : Path} {journal : Journal Path Content}
    (h : Preparing request initial (.checkStaged set path :: rest) disk)
    (hjournal : disk.journals set = some journal) :
    journal.staged path = request.stagedContent set path := by
  have hsuffix : .checkStaged set path :: rest <:+ request.prepareOps := by
    refine cons_suffix_of_suffix_append h.suffix ?_
    simp [Request.beginOps, Request.stageOps]
  have hquiet : remainingWrites (.checkStaged set path :: rest) = [] := by
    refine List.filterMap_eq_nil_iff.mpr fun op hop => ?_
    split
    · have hmem := hsuffix.subset hop
      simp [Request.prepareOps] at hmem
    · rfl
  have hstaged := h.staged set path
  rw [hquiet, hjournal] at hstaged
  exact hstaged

/-- The journals that are still to be created do not exist. -/
def Fresh (todo : List (FsOp Path Content)) (disk : Disk Path Content) : Prop :=
  ∀ set, .createJournal set ∈ todo → disk.journals set = none

theorem Fresh.step (h : Fresh (op :: rest) disk) (hsuffix : op :: rest <:+ request.program)
    (happly : op.apply request.policy disk = some disk') : Fresh rest disk' := by
  intro set hset
  have hnone := h set (List.mem_cons_of_mem _ hset)
  have hkeep : ∀ {other : Nat} {journal : Option (Journal Path Content)}, set ≠ other →
      (disk.setJournal other journal).journals set = none := by
    intro other journal hne
    rw [setJournal_journals_of_ne _ hne]
    exact hnone
  have hchange : ∀ {other : Nat} {change : Journal Path Content → Option (Journal Path Content)},
      disk.inJournal other change = some disk' → disk'.journals set = none := by
    intro other change hchange
    obtain ⟨journal, changed, hjournal, _, rfl⟩ := inJournal_eq_some.mp hchange
    refine hkeep ?_
    rintro rfl
    rw [hnone] at hjournal
    cases hjournal
  have hop : op ∈ request.program := hsuffix.subset List.mem_cons_self
  rw [program_eq, List.mem_append, List.mem_append, List.mem_map, mem_fillOps] at hop
  rcases hop with (⟨other, _, rfl⟩ | hfill) | hmark
  · have hne : set ≠ other := by
      rintro rfl
      exact key_ne_of_cons_suffix created_program hsuffix rfl _ hset rfl
    simp only [FsOp.apply] at happly
    split at happly
    · cases happly
      exact hkeep hne
    · cases happly
  · rcases hfill with ⟨_, _, ⟨_, _, rfl⟩ | rfl⟩ | ⟨_, _, _, _, rfl⟩ |
      ⟨_, _, ⟨_, _, rfl⟩ | ⟨_, _, rfl⟩⟩
    · exact hchange happly
    · exact hchange happly
    · exact hchange happly
    · exact hchange happly
    · exact hchange happly
  · cases List.mem_singleton.mp hmark
    exact hchange happly

/-- No operation of the preparation fails. -/
theorem Preparing.progress (hstaged : request.Staged)
    (hallows : ∀ set < request.sets, ∀ path ∈ request.destinations set,
      request.Allows initial set path)
    (h : Preparing request initial (op :: rest) disk) (hfresh : Fresh (op :: rest) disk) :
    ∃ next, op.apply request.policy disk = some next := by
  have hop : op ∈ request.program := h.suffix.subset List.mem_cons_self
  rw [program_eq, List.mem_append, List.mem_append, List.mem_map, mem_fillOps] at hop
  rcases hop with (⟨set, _, rfl⟩ | hfill) | hmark
  · refine ⟨disk.setJournal set (some {}), ?_⟩
    simp only [FsOp.apply, hfresh set List.mem_cons_self]
  · rcases hfill with ⟨set, hset, ⟨directory, _, rfl⟩ | rfl⟩ | ⟨set, path, content, hwrite, rfl⟩ |
      ⟨set, hset, ⟨path, hpath, rfl⟩ | ⟨path, hpath, rfl⟩⟩
    · obtain ⟨journal, hjournal⟩ := h.journal_isSome (by simp) hset
      exact ⟨_, inJournal_eq_some.mpr ⟨journal, _, hjournal, rfl, rfl⟩⟩
    · obtain ⟨journal, hjournal⟩ := h.journal_isSome (by simp) hset
      exact ⟨_, inJournal_eq_some.mpr ⟨journal, _, hjournal, rfl, rfl⟩⟩
    · obtain ⟨journal, hjournal⟩ := h.journal_isSome (by simp) (hstaged.sets _ _ _ hwrite)
      exact ⟨_, inJournal_eq_some.mpr ⟨journal, _, hjournal, rfl, rfl⟩⟩
    · obtain ⟨journal, hjournal⟩ := h.journal_isSome (by simp) hset
      have hsome := hstaged.complete set hset path hpath
      rw [← h.staged_of_check hjournal] at hsome
      exact ⟨_, inJournal_eq_some.mpr ⟨journal, journal, hjournal, if_pos hsome, rfl⟩⟩
    · obtain ⟨journal, hjournal⟩ := h.journal_isSome (by simp) hset
      obtain ⟨hvalid, hreplace⟩ := hallows set hset path hpath
      rw [← h.files] at hreplace
      cases hfile : disk.files path with
      | none =>
        refine ⟨_, inJournal_eq_some.mpr
          ⟨journal, { journal with absent := path :: journal.absent }, hjournal, ?_, rfl⟩⟩
        rw [if_pos hvalid, hfile]
      | some content =>
        refine ⟨_, inJournal_eq_some.mpr
          ⟨journal, journal.putBackup path content, hjournal, ?_, rfl⟩⟩
        rw [if_pos hvalid, hfile]
        exact if_pos (hreplace (by simp [hfile]))
  · cases List.mem_singleton.mp hmark
    obtain ⟨journal, hjournal⟩ := h.journal_isSome (by simp) request.sets_pos
    exact ⟨_, inJournal_eq_some.mpr ⟨journal, _, hjournal, rfl, rfl⟩⟩

/-! ## Installation -/

/-- The segment that an operation installs. -/
def FsOp.installs : FsOp Path Content → Option (Nat × Path)
  | .install set path => some (set, path)
  | _ => none

omit [DecidableEq Path] in
theorem installs_installOps (h : ∀ set < request.sets, (request.written set).Nodup) :
    (request.installOps.filterMap FsOp.installs).Nodup := by
  have hset : ∀ set, (request.installSetOps set).filterMap FsOp.installs =
      (request.written set).map (set, ·) := by
    intro set
    have hstale : ((request.stale set).map (FsOp.removeStale set : Path → FsOp Path Content)
        ).filterMap FsOp.installs = [] := by
      refine List.filterMap_eq_nil_iff.mpr fun op hop => ?_
      obtain ⟨path, _, rfl⟩ := List.mem_map.mp hop
      rfl
    rw [Request.installSetOps, List.filterMap_append, hstale, List.append_nil, List.filterMap_map,
      ← List.filterMap_eq_map]
    rfl
  rw [Request.installOps, List.filterMap_flatMap]
  simp only [hset]
  refine List.nodup_flatMap.mpr ⟨?_, ?_⟩
  · intro set hmem
    exact (h set (List.mem_range.mp hmem)).map fun a b heq => (Prod.mk.inj heq).2
  · refine List.nodup_range.imp ?_
    intro left right hne
    simp only [Function.onFun, List.disjoint_left, List.mem_map]
    rintro key ⟨_, _, rfl⟩ ⟨_, _, heq⟩
    exact hne (Prod.mk.inj heq).1.symm

/-- The segments that are still to be installed are staged, and the commit can be marked. -/
structure Installable (request : Request Path Content) (todo : List (FsOp Path Content))
    (disk : Disk Path Content) : Prop where
  suffix : todo <:+ request.installOps
  staged : ∀ set path, .install set path ∈ todo →
    ∃ journal, disk.journals set = some journal ∧ (journal.staged path).isSome
  primary : (disk.journals 0).isSome

theorem Installable.progress (hstaged : request.Staged)
    (h : Installable request (op :: rest) disk) :
    ∃ next, op.apply request.policy disk = some next ∧ Installable request rest next := by
  have hop : op ∈ request.installOps := h.suffix.subset List.mem_cons_self
  obtain ⟨set, hrange, hop⟩ := List.mem_flatMap.mp hop
  rcases mem_installSetOps.mp hop with ⟨path, hpath, rfl⟩ | ⟨path, hpath, rfl⟩
  · obtain ⟨journal, hjournal, hsome⟩ := h.staged set path List.mem_cons_self
    obtain ⟨content, hcontent⟩ := Option.isSome_iff_exists.mp hsome
    refine ⟨(disk.setJournal set (some { journal with
      staged := assign journal.staged path none })).setFile path (some content), ?_,
      tail_suffix h.suffix, ?_, ?_⟩
    · simp only [FsOp.apply, hjournal, Option.bind_eq_bind, Option.bind_some, hcontent]
    · intro other found hmem
      obtain ⟨old, hold, hfound⟩ := h.staged other found (List.mem_cons_of_mem _ hmem)
      rw [setFile_journals]
      by_cases heq : other = set
      · subst heq
        rw [hjournal] at hold
        cases hold
        have hne : found ≠ path := by
          rintro rfl
          exact key_ne_of_cons_suffix (installs_installOps hstaged.distinct) h.suffix rfl _ hmem rfl
        refine ⟨_, setJournal_journals_self _ _, ?_⟩
        simp only [assign_of_ne _ _ hne]
        exact hfound
      · rw [setJournal_journals_of_ne _ heq]
        exact ⟨old, hold, hfound⟩
    · rw [setFile_journals]
      by_cases heq : 0 = set
      · subst heq
        rw [setJournal_journals_self]
        rfl
      · rw [setJournal_journals_of_ne _ heq]
        exact h.primary
  · refine ⟨disk.setFile path none, rfl, tail_suffix h.suffix, ?_, h.primary⟩
    intro other found hmem
    exact h.staged other found (List.mem_cons_of_mem _ hmem)

theorem Preparing.installable (hstaged : request.Staged)
    (h : Preparing request initial [] disk) : Installable request request.installOps disk := by
  refine ⟨List.suffix_refl _, ?_, h.created 0 request.sets_pos (by simp)⟩
  intro set path hmem
  obtain ⟨owner, hrange, hop⟩ := List.mem_flatMap.mp hmem
  have hset : owner < request.sets := List.mem_range.mp hrange
  rcases mem_installSetOps.mp hop with ⟨found, hfound, heq⟩ | ⟨_, _, heq⟩
  · cases heq
    obtain ⟨journal, hjournal⟩ := Option.isSome_iff_exists.mp (h.created set hset (by simp))
    refine ⟨journal, hjournal, ?_⟩
    have hcontent := h.staged set path
    rw [hjournal] at hcontent
    have hsome := hstaged.complete set hset path hfound
    rw [← hcontent] at hsome
    exact hsome
  · cases heq

/-! ## Both ends -/

/-- A publication with complete staged segments and acceptable destinations can commit. -/
theorem canCommit_of_allows (hstaged : request.Staged)
    (hallows : ∀ set < request.sets, ∀ path ∈ request.destinations set,
      request.Allows initial set path) : CanCommit request initial := by
  have hstart : Preparing request initial request.program (request.start initial).disk ∧
      Fresh request.program (request.start initial).disk :=
    ⟨Preparing.start request initial, fun _ _ => rfl⟩
  have hstep : ∀ op rest disk, Preparing request initial (op :: rest) disk ∧
      Fresh (op :: rest) disk → ∃ next, op.apply request.policy disk = some next ∧
        Preparing request initial rest next ∧ Fresh rest next := by
    intro op rest disk ⟨hpreparing, hfresh⟩
    obtain ⟨next, hnext⟩ := hpreparing.progress hstaged hallows hfresh
    exact ⟨next, hnext, hpreparing.step hnext, hfresh.step hpreparing.suffix hnext⟩
  obtain ⟨prepared, hprepare, hprepared, -⟩ := execute_of_progress
    (I := fun todo disk => Preparing request initial todo disk ∧ Fresh todo disk) hstep hstart
  obtain ⟨installed, hinstall, hinstalled⟩ := execute_of_progress (I := Installable request)
    (fun _ _ _ h => h.progress hstaged) (hprepared.installable hstaged)
  obtain ⟨journal, hjournal⟩ := Option.isSome_iff_exists.mp hinstalled.primary
  have hmark : FsOp.markCommitted.apply request.policy installed =
      some (installed.setJournal 0 (some { journal with committed := true })) :=
    inJournal_eq_some.mpr ⟨journal, _, hjournal, rfl, rfl⟩
  have hreach := reachable_install hinstall ((reachable_prepare hprepare .refl).tail .prepared)
  exact ⟨_, hreach.tail (.commit hmark), rfl⟩

theorem reachable_of_committed {system : System Path Content}
    (h : Reachable request initial system) (hcommitted : system.committed = true) :
    ∃ disk committed, Reachable request initial ⟨disk, .installing [], committed⟩ := by
  induction h with
  | refl => cases hcommitted
  | @tail before after hrun hstep ih =>
    cases hstep with
    | @commit disk _ committed _ => exact ⟨disk, committed, hrun⟩
    | prepare | prepared | failPrepare | install | failInstall | conclude | tearPreparing
    | tearConcluding | stop | recover => exact ih hcommitted

/-- A stale file whose operation is no longer to come is gone. -/
def Swept (request : Request Path Content) (set : Nat) (path : Path)
    (system : System Path Content) : Prop :=
  match system.process with
  | .installing todo => todo <:+ request.installOps ∧
      (.removeStale set path ∉ todo → system.disk.files path = none)
  | _ => True

theorem Step.swept {set : Nat} {path : Path} {system system' : System Path Content}
    (hset : set < request.sets) (hpath : path ∈ request.stale set)
    (hwritten : ∀ other < request.sets, path ∉ request.written other)
    (hstep : Step request system system') (h : Swept request set path system) :
    Swept request set path system' := by
  cases hstep with
  | prepared =>
    refine ⟨List.suffix_refl _, fun hnot => absurd ?_ hnot⟩
    exact List.mem_flatMap.mpr ⟨set, List.mem_range.mpr hset,
      mem_installSetOps.mpr (.inr ⟨path, hpath, rfl⟩)⟩
  | @install disk disk' op todo committed happly =>
    obtain ⟨hsuffix, hgone⟩ := h
    refine ⟨tail_suffix hsuffix, fun hnot => ?_⟩
    obtain ⟨owner, hrange, hop⟩ := List.mem_flatMap.mp (hsuffix.subset List.mem_cons_self)
    rcases mem_installSetOps.mp hop with ⟨found, hfound, rfl⟩ | ⟨found, _, rfl⟩
    · have hother : (FsOp.install owner found : FsOp Path Content).target ≠ some path := by
        intro heq
        cases heq
        exact hwritten owner (List.mem_range.mp hrange) hfound
      rw [files_of_apply happly path hother]
      exact hgone (by simpa using hnot)
    · cases happly
      by_cases heq : path = found
      · rw [heq]
        exact setFile_files_self _ _
      · rw [setFile_files_of_ne _ heq]
        exact hgone (by simp [heq, hnot])
  | prepare | failPrepare | failInstall | commit | conclude | tearPreparing | tearConcluding
  | stop | recover => trivial

/-- A publication that can commit can remove each of its stale files. -/
theorem reachable_removed {set : Nat} {path : Path} (hset : set < request.sets)
    (hpath : path ∈ request.stale set)
    (hwritten : ∀ other < request.sets, path ∉ request.written other)
    (hcommit : CanCommit request initial) :
    ∃ system, Reachable request initial system ∧ system.disk.files path = none := by
  obtain ⟨system, hrun, hcommitted⟩ := hcommit
  obtain ⟨disk, committed, hinstalled⟩ := reachable_of_committed hrun hcommitted
  have hswept : ∀ system, Reachable request initial system → Swept request set path system := by
    intro system hrun
    induction hrun with
    | refl => trivial
    | tail _ hstep ih => exact hstep.swept hset hpath hwritten ih
  exact ⟨_, hinstalled, (hswept _ hinstalled).2 (by simp)⟩

/-! ## Publications that are refused -/

/-- The preparation stops at the destination `path` of `set`. -/
def Request.Refuses (request : Request Path Content) (initial : Path → Option Content) (set : Nat)
    (path : Path) : Prop :=
  set < request.sets ∧ path ∈ request.destinations set ∧ ¬ request.Allows initial set path

/-- A refused publication has not changed a file and is not ready to be installed. -/
structure Refused (request : Request Path Content) (initial : Path → Option Content) (set : Nat)
    (path : Path) (system : System Path Content) : Prop where
  files : system.disk.files = initial
  committed : system.committed = false
  notReady : ∀ primary, system.disk.journals 0 = some primary → primary.ready = false
  process : match system.process with
    | .idle => True
    | .preparing todo => Preparing request initial todo system.disk ∧ .backup set path ∈ todo
    | .installing _ => False
    | .concluding todo => ∀ op ∈ todo, ∃ other, op = .retire other

theorem backup_fails {set : Nat} {path : Path} (hrefuses : request.Refuses initial set path)
    (hfiles : disk.files = initial) : (FsOp.backup set path).apply request.policy disk ≠ some disk' := by
  intro happly
  obtain ⟨_, _, _, hchange, _⟩ := inJournal_eq_some.mp happly
  refine hrefuses.2.2 ?_
  split at hchange
  · rename_i hvalid
    refine ⟨hvalid, fun hsome => ?_⟩
    rw [← hfiles] at hsome
    obtain ⟨content, hcontent⟩ := Option.isSome_iff_exists.mp hsome
    rw [hcontent] at hchange
    simp only [Option.ite_none_right_eq_some] at hchange
    exact hchange.1
  · cases hchange

omit [DecidableEq Path] in
theorem retire_of_mem_cleanupOps {sets : Nat} (hop : op ∈ cleanupOps sets) :
    ∃ set, op = .retire set := by
  obtain ⟨set, _, rfl⟩ := List.mem_map.mp hop
  exact ⟨set, rfl⟩

omit [DecidableEq Path] in
/-- Journals that are not ready are only retired. -/
theorem plan_of_not_ready {order : List Path → List Path} {policy : Policy Path} {sets : Nat}
    {identity : Bytes} {found : Bool} {plan : List (FsOp Path Content)}
    (h : ∀ primary, disk.journals 0 = some primary → primary.ready = false)
    (hplan : recover order policy sets identity disk = .ok (found, plan)) :
    plan = [] ∨ plan = cleanupOps sets := by
  unfold recover at hplan
  split at hplan
  · simp only [bind_eq_ok, pure_eq_ok, Except.ok.injEq, Prod.mk.injEq] at hplan
    obtain ⟨_, _, _, rfl⟩ := hplan
    exact .inl rfl
  · rename_i primary hprimary
    simp only [bind_eq_ok, pure_eq_ok, Except.ok.injEq, Prod.mk.injEq] at hplan
    obtain ⟨_, _, _, rfl⟩ := hplan
    rw [if_pos (by simp [h primary hprimary])]
    exact .inr rfl

theorem Step.refused {set : Nat} {path : Path} {system system' : System Path Content}
    (hrefuses : request.Refuses initial set path) (hstep : Step request system system')
    (h : Refused request initial set path system) : Refused request initial set path system' := by
  obtain ⟨hfiles, hcommitted, hnotReady, hprocess⟩ := h
  cases hstep with
  | @prepare disk disk' op todo committed happly =>
    obtain ⟨hpreparing, hmem⟩ := hprocess
    have hnext := hpreparing.step happly
    have hrest : .backup set path ∈ todo := by
      rcases List.mem_cons.mp hmem with rfl | hmem
      · exact absurd happly (backup_fails hrefuses hfiles)
      · exact hmem
    obtain ⟨first, others, rfl⟩ := List.exists_cons_of_ne_nil (List.ne_nil_of_mem hrest)
    exact ⟨hnext.files, hcommitted, hnext.not_ready, hnext, hrest⟩
  | prepared => cases hprocess.2
  | failPrepare =>
    exact ⟨hfiles, hcommitted, hnotReady, fun op hop => retire_of_mem_cleanupOps hop⟩
  | install | failInstall | commit => exact hprocess.elim
  | conclude happly =>
    obtain ⟨other, rfl⟩ := hprocess _ List.mem_cons_self
    cases happly
    refine ⟨hfiles, hcommitted, ?_, fun op hop => hprocess op (List.mem_cons_of_mem _ hop)⟩
    intro primary hprimary
    rcases setJournal_journals_cases hprimary with ⟨_, heq⟩ | ⟨_, hold⟩
    · cases heq
    · exact hnotReady primary hold
  | tearPreparing htorn =>
    obtain ⟨hpreparing, hmem⟩ := hprocess
    have hnext := hpreparing.torn htorn
    exact ⟨hnext.files, hcommitted, hnext.not_ready, hnext, hmem⟩
  | tearConcluding htorn =>
    obtain ⟨other, rfl⟩ := hprocess _ List.mem_cons_self
    cases htorn
  | stop => exact ⟨hfiles, hcommitted, hnotReady, trivial⟩
  | @recover disk plan found committed order horder hplan =>
    refine ⟨hfiles, hcommitted, hnotReady, ?_⟩
    rcases plan_of_not_ready hnotReady hplan with rfl | rfl
    · exact fun op hop => by cases hop
    · exact fun op hop => retire_of_mem_cleanupOps hop

/-- A refused publication leaves every file alone in every run, and no run commits. -/
theorem refused_of_refuses {set : Nat} {path : Path} (hrefuses : request.Refuses initial set path)
    {system : System Path Content} (h : Reachable request initial system) :
    Refused request initial set path system := by
  induction h with
  | refl =>
    have hmem : .backup set path ∈ request.program := ?_
    · refine ⟨rfl, rfl, ?_, Preparing.start request initial, hmem⟩
      intro primary hprimary
      cases hprimary
    rw [program_eq]
    refine List.mem_append_left _ (List.mem_append_right _ ((mem_fillOps request).mpr ?_))
    exact .inr (.inr ⟨set, hrefuses.1, .inr ⟨path, hrefuses.2.1, rfl⟩⟩)
  | tail _ hstep ih => exact hstep.refused hrefuses ih

end EwfImage.Publication
