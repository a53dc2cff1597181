import EwfImage.Publication.Conclusion

/-!
# Installation

While the segments are installed the journals stay complete, and every operation that
is no longer to come has left its effect: a written segment holds its staged content, a
stale one is gone. The sets are installed in order, so the effect lasts as long as no
later operation names the same path; that is what `Request.KeepsInstalled` asks for.

`Installing` is the invariant over the operations that are left. The main results are
`Installing.step` and `Installing.entirelyNew`; the condition on the request is used in one
place, where an operation must not name what an earlier one installed.
-/

namespace EwfImage.Publication

open Programs

variable {Path Content : Type} [DecidableEq Path] {request : Request Path Content}
  {initial : Path → Option Content} {disk disk' : Disk Path Content}
  {op : FsOp Path Content} {rest todo : List (FsOp Path Content)}

/-- The state of an installation with the operations `todo` left. -/
structure Installing (request : Request Path Content) (initial : Path → Option Content)
    (todo : List (FsOp Path Content)) (disk : Disk Path Content) : Prop where
  suffix : todo <:+ request.installOps
  secured : Secured request initial disk
  staged : ∀ set journal path, disk.journals set = some journal →
    journal.staged path = none ∨ journal.staged path = request.stagedContent set path
  installed : ∀ set < request.sets, ∀ path ∈ request.written set, .install set path ∉ todo →
    (request.stagedContent set path).isSome ∧ disk.files path = request.stagedContent set path
  removed : ∀ set < request.sets, ∀ path ∈ request.stale set,
    (∀ other < request.sets, path ∉ request.written other) → .removeStale set path ∉ todo →
    disk.files path = none

/-! ## The order of the operations -/

omit [DecidableEq Path] in
theorem mem_installSetOps {set : Nat} : op ∈ request.installSetOps set ↔
    (∃ path ∈ request.written set, .install set path = op) ∨
      ∃ path ∈ request.stale set, .removeStale set path = op := by
  simp [Request.installSetOps]

omit [DecidableEq Path] in
/-- While an operation of one set is next, every operation of a later set is still to come. -/
theorem later_mem {set other : Nat} {laterOp : FsOp Path Content}
    (h : op :: rest <:+ request.installOps) (hop : op ∈ request.installSetOps set)
    (hlt : set < other) (hother : other < request.sets)
    (hlater : laterOp ∈ request.installSetOps other) : laterOp ∈ rest := by
  have hsplit : request.installOps =
      (List.range (set + 1)).flatMap request.installSetOps ++
        (List.range' (set + 1) (request.sets - (set + 1))).flatMap request.installSetOps := by
    rw [← List.flatMap_append, Request.installOps]
    congr 1
    have hadd : request.sets = set + 1 + (request.sets - (set + 1)) := by omega
    conv_lhs => rw [hadd]
    rw [List.range_add, List.range'_eq_map_range]
  rw [hsplit] at h
  have hbehind := suffix_of_cons_suffix_append h ?_
  · refine hbehind.subset (List.mem_flatMap.mpr ⟨other, ?_, hlater⟩)
    rw [List.mem_range'_1]
    omega
  · intro hin
    obtain ⟨found, hrange, hfound⟩ := List.mem_flatMap.mp hin
    rw [List.mem_range'_1] at hrange
    have heq : found = set := by
      rcases mem_installSetOps.mp hop with ⟨path, _, rfl⟩ | ⟨path, _, rfl⟩
      · rcases mem_installSetOps.mp hfound with ⟨_, _, heq⟩ | ⟨_, _, heq⟩
        · cases heq
          rfl
        · cases heq
      · rcases mem_installSetOps.mp hfound with ⟨_, _, heq⟩ | ⟨_, _, heq⟩
        · cases heq
        · cases heq
          rfl
    omega

omit [DecidableEq Path] in
theorem written_subset {set : Nat} {path : Path} (h : path ∈ request.written set) :
    path ∈ request.destinations set :=
  List.mem_of_mem_take h

omit [DecidableEq Path] in
theorem stale_subset {set : Nat} {path : Path} (h : path ∈ request.stale set) :
    path ∈ request.destinations set :=
  List.mem_of_mem_drop h

omit [DecidableEq Path] in
/-- An installed path is not named by the next operation. -/
theorem ne_of_installed {set other : Nat} {path found : Path} (hkeeps : request.KeepsInstalled)
    (h : op :: rest <:+ request.installOps) (hop : op ∈ request.installSetOps set)
    (hset : set < request.sets) (hpath : path ∈ request.destinations set)
    (hown : set = other → path ∈ request.stale set)
    (hother : other < request.sets) (hfound : found ∈ request.written other)
    (hdone : .install other found ∉ rest) : found ≠ path := by
  rintro rfl
  rcases Nat.lt_trichotomy set other with hlt | heq | hgt
  · refine hdone (later_mem h hop hlt hother ?_)
    exact mem_installSetOps.mpr (.inl ⟨found, hfound, rfl⟩)
  · exact hkeeps.own set hset found (heq ▸ hfound) (hown heq)
  · exact hkeeps.later other set hgt hset found hfound hpath

/-! ## One operation -/

theorem Installing.install {set : Nat} {path : Path} {content : Content}
    {journal : Journal Path Content} (hkeeps : request.KeepsInstalled)
    (h : Installing request initial (.install set path :: rest) disk)
    (hset : set < request.sets) (hpath : path ∈ request.written set)
    (hjournal : disk.journals set = some journal) (hcontent : journal.staged path = some content) :
    Installing request initial rest ((disk.setJournal set
      (some { journal with staged := assign journal.staged path none })).setFile path
        (some content)) := by
  have hstaged : request.stagedContent set path = some content := by
    rcases h.staged set journal path hjournal with hnone | heq
    · rw [hnone] at hcontent
      cases hcontent
    · rw [← heq, hcontent]
  have hop : FsOp.install set path ∈ request.installSetOps set :=
    mem_installSetOps.mpr (.inl ⟨path, hpath, rfl⟩)
  refine ⟨tail_suffix h.suffix, ?_, ?_, ?_, ?_⟩
  · refine Secured.setFile (h.secured.setJournal hjournal ?_) hset (written_subset hpath)
    exact ⟨rfl, rfl, rfl, rfl, rfl, rfl, rfl⟩
  · intro other found target hfound
    rw [setFile_journals] at hfound
    rcases setJournal_journals_cases hfound with ⟨rfl, heq⟩ | ⟨_, hold⟩
    · cases heq
      by_cases heq : target = path
      · left
        simp [heq]
      · simp only [assign_of_ne _ _ heq]
        exact h.staged other journal target hjournal
    · exact h.staged other found target hold
  · intro other hother found hfound hdone
    by_cases hsame : other = set ∧ found = path
    · obtain ⟨rfl, rfl⟩ := hsame
      rw [setFile_files_self, hstaged]
      exact ⟨rfl, rfl⟩
    · have hnot : .install other found ∉ FsOp.install set path :: rest := by
        intro hmem
        rcases List.mem_cons.mp hmem with heq | hmem
        · cases heq
          exact hsame ⟨rfl, rfl⟩
        · exact hdone hmem
      have hne : found ≠ path := by
        by_cases heq : other = set
        · exact fun hpath => hsame ⟨heq, hpath⟩
        · exact ne_of_installed hkeeps h.suffix hop hset (written_subset hpath)
            (fun hset => absurd hset.symm heq) hother hfound hdone
      rw [setFile_files_of_ne _ hne, setJournal_files]
      exact h.installed other hother found hfound hnot
  · intro other hother found hfound hwritten hdone
    have hne : found ≠ path := by
      rintro rfl
      exact hwritten set hset hpath
    rw [setFile_files_of_ne _ hne, setJournal_files]
    exact h.removed other hother found hfound hwritten (by simpa using hdone)

theorem Installing.removeStale {set : Nat} {path : Path} (hkeeps : request.KeepsInstalled)
    (h : Installing request initial (.removeStale set path :: rest) disk)
    (hset : set < request.sets) (hpath : path ∈ request.stale set) :
    Installing request initial rest (disk.setFile path none) := by
  have hop : FsOp.removeStale set path ∈ request.installSetOps set :=
    mem_installSetOps.mpr (.inr ⟨path, hpath, rfl⟩)
  refine ⟨tail_suffix h.suffix, h.secured.setFile hset (stale_subset hpath), h.staged, ?_, ?_⟩
  · intro other hother found hfound hdone
    have hne : found ≠ path := ne_of_installed hkeeps h.suffix hop hset (stale_subset hpath)
      (fun _ => hpath) hother hfound hdone
    rw [setFile_files_of_ne _ hne]
    exact h.installed other hother found hfound (by simpa using hdone)
  · intro other hother found hfound hwritten hdone
    by_cases heq : found = path
    · rw [heq, setFile_files_self]
    · rw [setFile_files_of_ne _ heq]
      exact h.removed other hother found hfound hwritten (by simp [heq, hdone])

theorem Installing.step (hkeeps : request.KeepsInstalled)
    (h : Installing request initial (op :: rest) disk)
    (happly : op.apply request.policy disk = some disk') : Installing request initial rest disk' := by
  have hop : op ∈ request.installOps := h.suffix.subset List.mem_cons_self
  obtain ⟨set, hrange, hop⟩ := List.mem_flatMap.mp hop
  have hset : set < request.sets := List.mem_range.mp hrange
  rcases mem_installSetOps.mp hop with ⟨path, hpath, rfl⟩ | ⟨path, hpath, rfl⟩
  · simp only [FsOp.apply, Option.bind_eq_bind, Option.bind_eq_some_iff, Option.some.injEq] at happly
    obtain ⟨journal, hjournal, content, hcontent, rfl⟩ := happly
    exact h.install hkeeps hset hpath hjournal hcontent
  · cases happly
    exact h.removeStale hkeeps hset hpath

/-! ## The two ends -/

theorem Secured.installing (h : Secured request initial disk)
    (hstaged : ∀ set journal path, disk.journals set = some journal →
      journal.staged path = request.stagedContent set path) :
    Installing request initial request.installOps disk := by
  have hinstall : ∀ set < request.sets, ∀ op ∈ request.installSetOps set,
      op ∈ request.installOps :=
    fun set hset op hop => List.mem_flatMap.mpr ⟨set, List.mem_range.mpr hset, hop⟩
  refine ⟨List.suffix_refl _, h, ?_, ?_, ?_⟩
  · intro set journal path hjournal
    exact .inr (hstaged set journal path hjournal)
  · intro set hset path hpath hnot
    exact absurd (hinstall set hset _ (mem_installSetOps.mpr (.inl ⟨path, hpath, rfl⟩))) hnot
  · intro set hset path hpath _ hnot
    exact absurd (hinstall set hset _ (mem_installSetOps.mpr (.inr ⟨path, hpath, rfl⟩))) hnot

/-- With nothing left the destinations are entirely new. -/
theorem Installing.entirelyNew (h : Installing request initial [] disk) :
    EntirelyNew request initial disk.files := by
  refine ⟨?_, ?_, h.secured.others⟩
  · intro set hset path hpath
    exact h.installed set hset path hpath (by simp)
  · intro set hset path hpath hwritten
    exact h.removed set hset path hpath hwritten (by simp)

theorem Installing.commit (h : Installing request initial [] disk)
    (happly : FsOp.markCommitted.apply request.policy disk = some disk') :
    Cleaning request initial true (cleanupOps request.sets) disk' := by
  obtain ⟨primary, decided, hprimary, hchange, rfl⟩ := inJournal_eq_some.mp happly
  cases hchange
  have houtcome : Outcome request initial true disk.files := by
    simpa [Outcome] using h.entirelyNew
  exact h.secured.decide hprimary rfl (.inl rfl) houtcome

end EwfImage.Publication
