import EwfImage.Aff4.CollectBudget

/-!
# The walk of a collection

Every turn of the loop keeps the budget ahead of the writer, and the report true to what the
writer has taken. What is pending has been discovered, so the loop ends.

The main results are `walks_collect` and `writes_collectOrPoison`: a collection that ends without
an error has kept the budget and the report, and one that fails leaves a poisoned writer. The
budget admits only so many entries, and every turn takes one of those that were discovered, so
the turns of the loop are enough.
-/

namespace EwfImage.Aff4.Writing

open Fallible Std Triples Word

/-! ## Children -/

section Children

variable {libraries : WriterLibraries} {w : Writer} {parent : Option String} {id : String}

theorem roots_withChild (w : Writer) (parent : Option String) (id : String) :
    (w.withChild parent id).roots = w.roots ++ (if parent = none then [id] else []) := by
  cases parent with
  | none => rfl
  | some parent =>
    unfold Writer.withChild
    dsimp only
    split
    · simp
    · simp

theorem foldersSize_withChild_le (w : Writer) (parent : Option String) (id : String) :
    foldersSize (w.withChild parent id).folders ≤
      foldersSize w.folders + if parent.isSome then childSize id else 0 := by
  cases parent with
  | none => exact Nat.le_refl _
  | some parent =>
    unfold Writer.withChild
    dsimp only
    split
    · next folder hfolder => exact foldersSize_child hfolder
    · exact Nat.le_add_right _ _

/-- What a child does not change. -/
structure SameButFolders (w w' : Writer) : Prop where
  members : w'.members = w.members
  options : w'.options = w.options
  metadata : w'.metadata = w.metadata
  archiveEntries : w'.archiveEntries = w.archiveEntries
  streams : w'.streams = w.streams
  separator : w'.pathSeparator = w.pathSeparator

theorem same_withChild (w : Writer) (parent : Option String) (id : String) :
    SameButFolders w (w.withChild parent id) := by
  cases parent with
  | none => exact ⟨rfl, rfl, rfl, rfl, rfl, rfl⟩
  | some parent =>
    unfold Writer.withChild
    dsimp only
    split
    · exact ⟨rfl, rfl, rfl, rfl, rfl, rfl⟩
    · exact ⟨rfl, rfl, rfl, rfl, rfl, rfl⟩

end Children

/-! ## Covered additions -/

section Additions

variable {σ : Type} {libraries : WriterLibraries} {limits : CollectionLimits} {env : Environment σ}
  {budget budget' : Budget} {w v u : Writer} {issues : List CollectionIssue} {id : String}
  {parent : Option String}

theorem Covers.discover (h : Covers libraries limits issues budget w) (discovered : Nat) :
    Covers libraries limits issues { budget with discovered } w :=
  ⟨h.offset, h.roots, h.metadata, h.metadataWithin, h.bytes, h.bytesWithin, h.entries⟩

theorem Covers.issue (h : Covers libraries limits issues budget w) {issue : CollectionIssue}
    (hcharge : budget.issue libraries limits issue = .ok budget') :
    Covers libraries limits (issues ++ [issue]) budget' w ∧
      budget'.discovered = budget.discovered := by
  have hcharges := charge_eq_ok hcharge
  have hm := hcharges.metadata
  have hcovered := h.metadata
  have hsize : issueSize libraries issue = (utf8Bytes (issueMetadata libraries issue)).length := rfl
  refine ⟨⟨hcharges.offset.trans h.offset, hcharges.roots.trans h.roots, ?_,
    hcharges.within h.metadataWithin, hcharges.bytes.trans h.bytes, hcharges.bytes ▸ h.bytesWithin,
    h.entries⟩, hcharges.discovered⟩
  rw [List.map_append, List.sum_append, List.map_singleton, List.sum_singleton]
  omega

/-- The budget covers what has been added once it has been charged for it. -/
theorem Covers.added (h : Covers libraries limits issues budget w) {n bytes : Nat}
    (hobserved : Observed libraries limits v n { budget with bytes } budget')
    (hseparator : v.pathSeparator = w.pathSeparator) (hroots : w.roots <+: v.roots)
    (hfolders : foldersSize v.folders ≤ foldersSize w.folders + n)
    (hbytes : bytes = (v.streams.map (·.size)).sum)
    (hwithin : bytes ≤ limits.reader.verificationBytes)
    (hentries : v.archiveEntries + 2 ≤ limits.reader.archiveEntries) :
    Covers libraries limits issues budget' v := by
  have hm := hobserved.metadata
  have hcovered := h.metadata
  have hoffset : ({ budget with bytes } : Budget).offset = w.metadata.length := h.offset
  have htake : v.roots.take budget.roots = w.roots := by
    rw [h.roots]
    exact (List.prefix_iff_eq_take.mp hroots).symm
  refine ⟨hobserved.offset, hobserved.roots, ?_, hobserved.within h.metadataWithin,
    hobserved.bytes.trans hbytes, hobserved.bytes ▸ hwithin, hentries⟩
  dsimp only at hm
  rw [htake, hseparator] at hm
  unfold Writer.recordsSize at hcovered ⊢
  rw [hseparator]
  dsimp only at hoffset
  omega

theorem Covers.folder (h : Covers libraries limits issues budget w) {properties : String}
    (hv : v = { w.withChild parent id with
      folders := (w.withChild parent id).folders.insert id { properties } })
    (hobserved : Observed libraries limits v (addedSize v id true parent) budget budget') :
    Covers libraries limits issues budget' v := by
  have hsame := same_withChild w parent id
  have hchild := foldersSize_withChild_le w parent id
  have hinsert := foldersSize_insert_le (w.withChild parent id).folders id { properties }
  have hgetD : v.folders.getD id ⟨"", []⟩ = { properties } := by
    rw [hv]
    exact TreeMap.getD_insert_self
  have hsize : addedSize v id true parent =
      recordSize (id, { properties }) + if parent.isSome then childSize id else 0 := by
    rw [addedSize, hgetD, recordSize_eq]
    rfl
  have hstreams : v.streams = w.streams := by rw [hv]; exact hsame.streams
  have hentries : v.archiveEntries = w.archiveEntries := by rw [hv]; exact hsame.archiveEntries
  refine h.added hobserved (by rw [hv]; exact hsame.separator) ?_ ?_
    (hstreams ▸ h.bytes) h.bytesWithin (hentries ▸ h.entries)
  · rw [hv]
    exact ⟨_, (roots_withChild w parent id).symm⟩
  · rw [hsize, hv]
    dsimp only
    omega

/-- What a file that is added does not change, and what it counts. -/
theorem Added.facts (hoptions : w.options.Valid) {size : Nat} {kind : Kind}
    (h : Added libraries size kind w id u) :
    ∃ stream : AcquiredStream, stream.size = size ∧ u.streams = w.streams ++ [stream] ∧
      u.archiveEntries = w.archiveEntries + kind.entries w.options size ∧ u.roots = w.roots ∧
      u.folders = w.folders ∧ u.pathSeparator = w.pathSeparator := by
  obtain ⟨addition, members, text, hmembers, hsize, hkind, -, rfl⟩ := h
  have hlength := Addition.length_members hoptions.chunkBytes hoptions.chunksPerBevy hmembers
  rw [hkind, hsize] at hlength
  exact ⟨addition.stream libraries, hsize, rfl, by rw [hlength], rfl, rfl, rfl⟩

theorem Covers.file (h : Covers libraries limits issues budget w) (hoptions : w.options.Valid)
    {size : Nat} {budget₁ : Budget} (hfile : budget.file limits w (some size) = .ok budget₁)
    (hadded : Added libraries size (w.fileKind size) w id u) (hv : v = u.withChild parent id)
    (hobserved : Observed libraries limits v (addedSize v id false parent) budget₁ budget') :
    Covers libraries limits issues budget' v := by
  obtain ⟨hentries, hbytes, rfl⟩ := file_eq_ok hfile
  obtain ⟨stream, hstream, hstreams, hcount, hroots, hfolders, hseparator⟩ :=
    hadded.facts hoptions
  rw [Option.getD_some] at hbytes hobserved
  have hsame := same_withChild u parent id
  have hchild := foldersSize_withChild_le u parent id
  have hsize : addedSize v id false parent = if parent.isSome then childSize id else 0 :=
    Nat.zero_add _
  refine h.added hobserved (by rw [hv, hsame.separator, hseparator]) ?_ ?_ ?_ hbytes ?_
  · rw [hv, roots_withChild, hroots]
    exact List.prefix_append _ _
  · rw [hsize, hv, ← hfolders]
    exact hchild
  · rw [hv, hsame.streams, hstreams, h.bytes, ← hstream]
    simp
  · rw [hv, hsame.archiveEntries, hcount]
    have hfile : w.fileEntries (some size) = (w.fileKind size).entries w.options size := rfl
    omega

end Additions

/-! ## Turns -/

section Turns

variable {σ : Type} {libraries : WriterLibraries} {limits : CollectionLimits} {env : Environment σ}
  {fs : FileSystem σ} {options : CollectionOptions} {start w : Writer} {walk : Walk} {taken active : Nat}

/-- A collection that has taken `taken` entries, of which `active` are in hand. -/
structure Collecting (libraries : WriterLibraries) (limits : CollectionLimits) (start : Writer)
    (taken active : Nat) (walk : Walk) (w : Writer) : Prop where
  covers : Covers libraries limits walk.report.issues walk.budget w
  grown : Grown libraries start w
  separator : w.pathSeparator = start.pathSeparator
  counted : walk.report.files + walk.report.folders + active ≤ taken
  accounted : taken + walk.pending.length ≤ walk.budget.discovered
  entries : walk.budget.discovered ≤ limits.entries
  discovered : walk.budget.discovered < u64Limit
  streams : ∃ streams, w.streams = start.streams ++ streams ∧
    streams.length = walk.report.files ∧ (streams.map (·.size)).sum = walk.report.bytes
  bytes : walk.report.bytes < u64Limit

theorem steps_ofIo {α : Type} {E : Writer → Prop} (hE : E w) {r : Except String α} :
    Steps E w (ofIo r : Write σ α) fun _ w' => w' = w := by
  cases r with
  | ok a => exact steps_pure rfl
  | error reason => exact steps_throw hE

theorem walks_recordIssue (h : Collecting libraries limits start taken active walk w) (path : Path)
    (reason : String) :
    Walks w (recordIssue libraries limits walk path reason : Write σ Walk)
      fun walk' w' => Collecting libraries limits start taken active walk' w' := by
  refine Steps.bind (Q := fun budget w' => w' = w ∧
      walk.budget.issue libraries limits ⟨path, reason⟩ = .ok budget)
    (steps_ofWriteResult trivial fun _ hissue => ⟨rfl, hissue⟩) fun budget w' ⟨hw', hissue⟩ => ?_
  subst hw'
  obtain ⟨hcovers, hdiscovered⟩ := h.covers.issue hissue
  refine steps_pure ⟨hcovers, h.grown, h.separator, h.counted, ?_, ?_, ?_, h.streams, h.bytes⟩
  · exact hdiscovered ▸ h.accounted
  · exact hdiscovered ▸ h.entries
  · exact hdiscovered ▸ h.discovered

theorem discover_eq_ok {budget budget' : Budget} {depth : Nat}
    (h : budget.discover limits depth = .ok budget') :
    budget' = { budget with discovered := budget.discovered + 1 } ∧
      budget.discovered + 1 ≤ limits.entries ∧ budget.discovered + 1 < u64Limit := by
  simp only [Budget.discover, bind_eq_ok, okOr_eq_ok, checkedAdd_eq_some, check_eq_ok, pure_eq_ok,
    Except.ok.injEq] at h
  obtain ⟨_, _, discovered, ⟨hsmall, rfl⟩, _, hle, rfl⟩ := h
  exact ⟨rfl, hle, hsmall⟩

/-- Every child of a directory is discovered. -/
theorem walks_readChildren (path : Path) (depth : Nat) (entries : List (Except String Bytes))
    (budget : Budget) (children : List Path) {pending : Nat}
    (haccounted : pending + children.length ≤ budget.discovered)
    (hentries : budget.discovered ≤ limits.entries) (hsmall : budget.discovered < u64Limit) :
    Walks w (readChildren fs limits path depth entries budget children) fun result w' => w' = w ∧
      ∃ discovered, result.1 = { budget with discovered } ∧ discovered ≤ limits.entries ∧
        discovered < u64Limit ∧ pending ≤ discovered ∧
        ∀ children', result.2 = .ok children' → pending + children'.length ≤ discovered := by
  induction entries generalizing budget children with
  | nil =>
    refine steps_pure ⟨rfl, budget.discovered, rfl, hentries, hsmall, by omega, ?_⟩
    rintro children' ⟨⟩
    exact haccounted
  | cons entry entries ih =>
    refine Steps.bind (steps_notify trivial) fun _ w' hw' => ?_
    subst hw'
    cases entry with
    | error reason =>
      refine steps_pure ⟨rfl, budget.discovered, rfl, hentries, hsmall, by omega, ?_⟩
      intro children' hchildren
      cases hchildren
    | ok name =>
      refine Steps.bind (Q := fun budget' v => v = w' ∧
          budget.discover limits (depth + 1) = .ok budget')
        (steps_ofWriteResult trivial fun _ hdiscover => ⟨rfl, hdiscover⟩)
        fun budget' v ⟨hv, hdiscover⟩ => ?_
      subst hv
      obtain ⟨rfl, hle, hlt⟩ := discover_eq_ok hdiscover
      refine (ih _ (children ++ [path ++ [name]]) ?_ hle hlt).imp fun result v h => h
      rw [List.length_append, List.length_singleton]
      dsimp only
      omega

theorem walks_openRegular (path : Path) :
    Walks w (openRegular fs path) fun _ w' => w' = w := by
  refine Steps.bind (Q := fun _ w' => w' = w) (steps_ask fun _ => rfl) fun answer w' hw' => ?_
  subst hw'
  refine Steps.bind (steps_ofIo trivial) fun file v hv => ?_
  subst hv
  refine Steps.bind (Q := fun _ v' => v' = v) (steps_ask fun _ => rfl) fun answer v' hv' => ?_
  subst hv'
  refine Steps.bind (steps_ofIo trivial) fun found u hu => ?_
  subst hu
  refine steps_ite (fun _ => ?_) fun _ => steps_pure rfl
  exact steps_throw_bind trivial

/-- A directory becomes a folder, and its children are pending. -/
theorem walks_collectDirectory (h : Collecting libraries limits start taken 1 walk w) (path : Path)
    (parent : Option String) (depth : Nat) (found : FileMetadata) :
    Walks w (collectDirectory libraries env fs options limits walk path parent depth found)
      fun walk' w' => Collecting libraries limits start taken 0 walk' w' := by
  refine Steps.bind (attempts_addFolder _).walks fun id v ⟨_, _, properties, _, hv⟩ => ?_
  have hgrown : Grown libraries w v := by
    rw [hv]
    exact (grown_withChild w parent id).trans
      (Grown.of_same rfl rfl rfl rfl rfl rfl rfl List.prefix_rfl)
  have hsame := same_withChild w parent id
  have hseparator : v.pathSeparator = w.pathSeparator := by rw [hv]; exact hsame.separator
  have hstreams : v.streams = w.streams := by rw [hv]; exact hsame.streams
  have hoffset : walk.budget.offset ≤ v.metadata.length :=
    h.covers.offset ▸ hgrown.metadata.length_le
  refine Steps.bind (walks_added hoffset id true parent) fun budget v' ⟨hv', hobserved⟩ => ?_
  subst hv'
  have hcovers := h.covers.folder hv hobserved
  have hdiscovered := hobserved.discovered
  have haccounted := h.accounted
  have hcounted := h.counted
  refine Steps.bind (Q := fun result u => u = v' ∧ ∃ discovered,
      result.1 = { budget with discovered } ∧ discovered ≤ limits.entries ∧
      discovered < u64Limit ∧
      taken + walk.pending.length ≤ discovered ∧
      ∀ children, result.2 = .ok children →
        taken + walk.pending.length + children.length ≤ discovered) ?_
      fun result u ⟨hu, discovered, hbudget, hle, hlt, hfound, hchildren⟩ => ?_
  · refine Steps.bind (Q := fun _ u => u = v') (steps_ask fun _ => rfl) fun answer u hu => ?_
    subst hu
    cases answer with
    | error reason =>
      refine steps_pure ⟨rfl, budget.discovered, rfl, hdiscovered ▸ h.entries,
        hdiscovered ▸ h.discovered, by omega, ?_⟩
      intro children hchildren
      cases hchildren
    | ok entries =>
      refine walks_readChildren path depth entries budget [] ?_ (hdiscovered ▸ h.entries)
        (hdiscovered ▸ h.discovered)
      rw [List.length_nil]
      omega
  · subst hu
    obtain ⟨budget', children⟩ := result
    dsimp only at hbudget
    subst hbudget
    have hnext : Collecting libraries limits start taken 0
        { walk with
          budget := { budget with discovered }
          report := { walk.report with folders := walk.report.folders + 1 } } u :=
      ⟨hcovers.discover discovered, h.grown.trans hgrown, hseparator.trans h.separator,
        by dsimp only; omega, hfound, hle, hlt, hstreams ▸ h.streams, h.bytes⟩
    cases children with
    | ok children =>
      refine steps_pure ⟨hnext.covers, hnext.grown, hnext.separator, hnext.counted, ?_, hle, hlt,
        hnext.streams, hnext.bytes⟩
      have hlength := hchildren children rfl
      dsimp only
      rw [List.length_append, List.length_map, List.length_mergeSort]
      omega
    | error reason =>
      refine steps_ite (fun _ => ?_) fun _ => ?_
      · exact walks_recordIssue hnext path reason
      · exact steps_throw trivial

theorem walks_collectFile (h : Collecting libraries limits start taken 1 walk w)
    (hoptions : start.options.Valid) (path : Path) (parent : Option String) (found : FileMetadata) :
    Walks w (collectFile libraries env fs limits walk path parent found)
      fun walk' w' => Collecting libraries limits start taken 0 walk' w' := by
  refine Steps.bind (walks_openRegular path) fun file v hv => ?_
  subst hv
  refine Steps.bind (Q := fun _ v' => v' = v) (steps_ask fun _ => rfl) fun answer v' hv' => ?_
  subst hv'
  refine Steps.bind (steps_ofIo trivial) fun before v hv => ?_
  subst hv
  refine steps_ite (fun _ => ?_) fun _ => ?_
  · exact steps_throw_bind trivial
  refine steps_writer_bind ?_
  refine Steps.bind (Q := fun budget u => u = v ∧
      walk.budget.file limits v (some before.len) = .ok budget)
    (steps_ofWriteResult trivial fun _ hfile => ⟨rfl, hfile⟩) fun budget v ⟨hv, hfile⟩ => ?_
  subst hv
  have hvalid : v.options.Valid := h.grown.options ▸ hoptions
  refine Steps.bind (attempts_addFileWithMetadata hvalid _).walks fun id u ⟨w', hadded, hu⟩ => ?_
  have hparent : (sourceMetadata path before parent).parent = parent := rfl
  rw [hparent] at hu
  have hgrown : Grown libraries v u := by
    rw [hu]
    exact hadded.grown.trans (grown_withChild w' parent id)
  obtain ⟨_, _, hbudget⟩ := file_eq_ok hfile
  have hoffset : budget.offset ≤ u.metadata.length := by
    rw [hbudget]
    exact h.covers.offset ▸ hgrown.metadata.length_le
  refine Steps.bind (walks_added hoffset id false parent) fun budget' v' ⟨hv', hobserved⟩ => ?_
  subst hv'
  have hcovers := h.covers.file hvalid hfile hadded hu hobserved
  have hdiscovered : budget'.discovered = walk.budget.discovered := by
    rw [hobserved.discovered, hbudget]
  obtain ⟨stream, hstream, hstreams, _, _, _, hseparator⟩ := hadded.facts hvalid
  have hsame := same_withChild w' parent id
  obtain ⟨streams, hstart, hfiles, hbytes⟩ := h.streams
  refine Steps.bind (Q := fun _ u => u = v') (steps_ask fun _ => rfl) fun answer u hu' => ?_
  subst hu'
  refine Steps.bind (steps_ofIo trivial) fun after v' hv' => ?_
  subst hv'
  refine steps_ite (fun _ => ?_) fun _ => ?_
  · exact steps_throw_bind trivial
  refine Steps.bind (Q := fun bytes u => u = v' ∧ bytes < u64Limit ∧
      bytes = walk.report.bytes + before.len) (steps_ofWriteResult trivial fun bytes hsum => ⟨rfl, ?_⟩)
    fun bytes u ⟨hu', hlt, hsum⟩ => ?_
  · rw [okOr_eq_ok, checkedAdd_eq_some] at hsum
    omega
  subst hu'
  have hcounted := h.counted
  refine steps_pure ⟨hcovers, h.grown.trans hgrown, ?_, ?_, hdiscovered ▸ h.accounted,
    hdiscovered ▸ h.entries,
    hdiscovered ▸ h.discovered, ⟨streams ++ [stream], ?_, ?_, ?_⟩, hlt⟩
  · rw [hu, hsame.separator, hseparator]
    exact h.separator
  · dsimp only
    omega
  · rw [hu, hsame.streams, hstreams, hstart, List.append_assoc]
  · rw [List.length_append, hfiles]
    rfl
  · rw [List.map_append, List.sum_append, hbytes, hsum, ← hstream]
    simp

theorem walks_collectEntry (h : Collecting libraries limits start taken 1 walk w)
    (hoptions : start.options.Valid) (root path : Path) (parent : Option String) (depth : Nat) :
    Walks w (collectEntry libraries env fs options limits root walk path parent depth)
      fun walk' w' => Collecting libraries limits start taken 0 walk' w' := by
  have hdone : Collecting libraries limits start taken 0 walk w :=
    ⟨h.covers, h.grown, h.separator, Nat.le_of_succ_le h.counted, h.accounted, h.entries,
      h.discovered, h.streams, h.bytes⟩
  refine Steps.bind (steps_notify trivial) fun _ v hv => ?_
  subst hv
  refine steps_ite (fun _ => ?_) fun _ => ?_
  · exact steps_throw_bind trivial
  refine steps_ite (fun _ => ?_) fun _ => ?_
  · exact walks_recordIssue hdone _ _
  refine Steps.bind (Q := fun _ v' => v' = v) (steps_ask fun _ => rfl) fun answer v' hv' => ?_
  subst hv'
  cases answer with
  | error reason =>
    refine steps_ite (fun _ => ?_) fun _ => ?_
    · exact walks_recordIssue hdone _ _
    · exact steps_throw trivial
  | ok found =>
    have hspecial : Walks v' (do
        let reason := "link/reparse point or special file not collected"
        if options.allowPartial then recordIssue libraries limits walk path reason
        else throw (.error (.unsupported s!"{libraries.display path}: {reason}")) : Write σ Walk)
        fun walk' w' => Collecting libraries limits start taken 0 walk' w' := by
      refine steps_ite (fun _ => ?_) fun _ => ?_
      · exact walks_recordIssue hdone _ _
      · exact steps_throw trivial
    dsimp only
    cases found.kind with
    | directory => exact walks_collectDirectory h path parent depth found
    | file => exact walks_collectFile h hoptions path parent found
    | symlink => exact hspecial
    | other => exact hspecial

/-- The loop ends when nothing is pending any more. -/
theorem walks_collectLoop (hoptions : start.options.Valid) (root : Path) (turns : Nat)
    (h : Collecting libraries limits start taken 0 walk w) (hturns : limits.entries < taken + turns) :
    Walks w (collectLoop libraries env fs options limits root turns walk)
      fun walk' w' => walk'.pending = [] ∧
        ∃ taken', Collecting libraries limits start taken' 0 walk' w' := by
  induction turns generalizing walk w taken with
  | zero =>
    have haccounted := h.accounted
    have hentries := h.entries
    omega
  | succ turns ih =>
    unfold collectLoop
    cases hpending : walk.pending with
    | nil => exact steps_pure ⟨hpending, taken, h⟩
    | cons entry pending =>
      obtain ⟨path, parent, depth⟩ := entry
      have hcounted := h.counted
      have haccounted := h.accounted
      rw [hpending, List.length_cons] at haccounted
      have hentry : Collecting libraries limits start (taken + 1) 1 { walk with pending } w :=
        ⟨h.covers, h.grown, h.separator, by dsimp only; omega, by dsimp only; omega, h.entries,
          h.discovered, h.streams, h.bytes⟩
      exact Steps.bind (walks_collectEntry hentry hoptions root path parent depth)
        fun walk' w' hwalk' => ih hwalk' (by omega)

end Turns

/-! ## Whole collections -/

section Collections

variable {σ : Type} {libraries : WriterLibraries} {limits : CollectionLimits} {env : Environment σ}
  {fs : FileSystem σ} {options : CollectionOptions} {w : Writer}

/-- The finished container is within the limits of a reader. -/
structure Fits (libraries : WriterLibraries) (limits : Limits) (w : Writer) : Prop where
  metadata : w.metadata.length + w.recordsSize libraries ≤ limits.metadataBytes
  bytes : (w.streams.map (·.size)).sum ≤ limits.verificationBytes
  entries : w.archiveEntries + 2 ≤ limits.archiveEntries

/-- The report counts what the writer has taken. -/
structure Reported (limits : CollectionLimits) (start : Writer) (report : CollectionReport)
    (w : Writer) : Prop where
  streams : ∃ streams, w.streams = start.streams ++ streams ∧
    streams.length = report.files ∧ (streams.map (·.size)).sum = report.bytes
  entries : report.files + report.folders ≤ limits.entries

/-- What a collection leaves when it succeeds. -/
structure Collected (libraries : WriterLibraries) (limits : CollectionLimits) (start : Writer)
    (report : CollectionReport) (w : Writer) : Prop where
  fits : Fits libraries limits.reader w
  grown : Grown libraries start w
  reported : Reported limits start report w

theorem walks_collect (hoptions : w.options.Valid) (root : Path) :
    Walks w (collect libraries env fs options limits root)
      fun walk w' => Collected libraries limits w walk.report w' := by
  refine Steps.bind walks_new fun budget v ⟨hv, hcovers, hzero⟩ => ?_
  subst hv
  refine Steps.bind (Q := fun budget' v' => v' = v ∧ budget.discover limits 0 = .ok budget')
    (steps_ofWriteResult trivial fun _ hdiscover => ⟨rfl, hdiscover⟩)
    fun budget' v' ⟨hv', hdiscover⟩ => ?_
  subst hv'
  obtain ⟨rfl, hentries, hsmall⟩ := discover_eq_ok hdiscover
  have hstart : Collecting libraries limits v' 0 0
      { budget := { budget with discovered := budget.discovered + 1 }
        pending := [(root, none, 0)] } v' :=
    ⟨hcovers.discover _, Grown.refl v', rfl, Nat.le_refl _, by rw [hzero]; exact Nat.le_refl _,
      hentries, hsmall, ⟨[], by simp, rfl, rfl⟩, Nat.two_pow_pos 64⟩
  refine Steps.bind (walks_collectLoop hoptions root _ hstart (by omega))
    fun walk u ⟨_, taken, hwalk⟩ => ?_
  refine Steps.bind (walks_taskMetadata _) fun text u' ⟨hu', task, htask, htext⟩ => ?_
  subst hu'
  refine Steps.bind steps_changed fun _ u hu => ?_
  have hcounted := hwalk.counted
  have haccounted := hwalk.accounted
  have hwithin := hwalk.entries
  have hdiscovered := hwalk.discovered
  have htaken := @length_taskMetadata_le libraries task htask walk.report.files walk.report.bytes
    (by omega) hwalk.bytes
  have hmetadata := hwalk.covers.metadata
  have hlimit := hwalk.covers.metadataWithin
  have hbytes := hwalk.covers.bytes
  have hverification := hwalk.covers.bytesWithin
  have hrecords : u.recordsSize libraries = u'.recordsSize libraries := by rw [hu]; rfl
  refine steps_pure ⟨⟨?_, ?_, ?_⟩, ?_, ⟨?_, by omega⟩⟩
  · rw [hrecords, hu, List.length_append]
    omega
  · rw [hu]
    dsimp only
    omega
  · rw [hu]
    exact hwalk.covers.entries
  · rw [hu]
    exact hwalk.grown.trans (grown_metadata u' text)
  · rw [hu]
    exact hwalk.streams

/-- A collection that fails poisons the writer. -/
theorem writes_collectOrPoison (hoptions : w.options.Valid) (root : Path) :
    Writes w (collectOrPoison libraries env fs options limits root)
      fun walk w' => Collected libraries limits w walk.report w' := by
  refine triple_tryCatch (walks_collect hoptions root) fun e => ?_
  refine Triple.of_state fun s _ => ?_
  have hpoison : Writes s.writer (do setPoisoned true; throw e : Write σ Walk)
      fun walk w' => Collected libraries limits w walk.report w' :=
    Steps.bind (steps_setPoisoned true) fun _ w' hw' => steps_throw (by rw [hw'])
  exact Triple.of_pre hpoison fun s' hs' => by rw [hs']

end Collections

end EwfImage.Aff4.Writing
