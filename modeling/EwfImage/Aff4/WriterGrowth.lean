import EwfImage.Aff4.WriterMembers

/-!
# Runs of a writer

An operation either succeeds, and then the writer has grown by whole additions, or it leaves a
poisoned writer or the one that it has found. So whatever a run of operations does, a container
that it publishes consists of whole members.

The main result is that every operation `Attempts` an addition, in this sense; `Aff4.WriterRuns`
puts the operations together. An addition is the list of the members and statements that it
leaves.
-/

namespace EwfImage.Aff4.Writing

open Fallible Triples Word

/-! ## Growth -/

section Growth

variable {libraries : WriterLibraries} {size : Nat} {kind : Kind} {id : String} {w v u : Writer}

/-- What `create` checks of the geometry. -/
structure WriteOptions.Valid (options : WriteOptions) : Prop where
  chunkBytes : 0 < options.chunkBytes
  chunksPerBevy : 0 < options.chunksPerBevy

/-- The writer has grown by whole additions. -/
structure Grown (libraries : WriterLibraries) (w w' : Writer) : Prop where
  whole : ∃ (additions : List Addition) (groups : List (List Member)),
    additions.mapM (·.members libraries w.options) = .ok groups ∧
      w'.members = w.members ++ groups.flatten ∧
      w'.archiveEntries = w.archiveEntries + groups.flatten.length ∧
      w'.streams = w.streams ++ additions.map (·.stream libraries)
  options : w'.options = w.options
  path : w'.path = w.path
  profile : w'.profile = w.profile
  volume : w'.volume = w.volume
  metadata : w.metadata <+: w'.metadata

theorem Grown.refl (w : Writer) : Grown libraries w w :=
  ⟨⟨[], [], rfl, by simp, rfl, by simp⟩, rfl, rfl, rfl, rfl, List.prefix_rfl⟩

theorem Grown.trans (h : Grown libraries w v) (h' : Grown libraries v u) : Grown libraries w u := by
  obtain ⟨additions, groups, hadditions, hmembers, hentries, hstreams⟩ := h.whole
  obtain ⟨additions', groups', hadditions', hmembers', hentries', hstreams'⟩ := h'.whole
  rw [h.options] at hadditions'
  refine ⟨⟨additions ++ additions', groups ++ groups',
    mapM_append_eq_ok.mpr ⟨groups, groups', hadditions, hadditions', rfl⟩, ?_, ?_, ?_⟩,
    h'.options.trans h.options, h'.path.trans h.path, h'.profile.trans h.profile,
    h'.volume.trans h.volume, h.metadata.trans h'.metadata⟩
  · rw [hmembers', hmembers, List.flatten_append, List.append_assoc]
  · rw [hentries', hentries, List.flatten_append, List.length_append, Nat.add_assoc]
  · rw [hstreams', hstreams, List.map_append, List.append_assoc]

/-- Growth without an addition. -/
theorem Grown.of_same (hmembers : v.members = w.members)
    (hentries : v.archiveEntries = w.archiveEntries) (hstreams : v.streams = w.streams)
    (hoptions : v.options = w.options) (hpath : v.path = w.path) (hprofile : v.profile = w.profile)
    (hvolume : v.volume = w.volume) (hmetadata : w.metadata <+: v.metadata) :
    Grown libraries w v :=
  ⟨⟨[], [], rfl, by simp [hmembers], by simp [hentries], by simp [hstreams]⟩, hoptions, hpath,
    hprofile, hvolume, hmetadata⟩

theorem Added.grown (h : Added libraries size kind w id v) : Grown libraries w v := by
  obtain ⟨addition, members, text, hmembers, -, -, -, rfl⟩ := h
  refine ⟨⟨[addition], [members], mapM_cons_eq_ok.mpr ⟨members, [], hmembers, rfl, rfl⟩, ?_, ?_,
    rfl⟩, rfl, rfl, rfl, rfl, List.prefix_append _ _⟩
  · simp
  · simp

theorem Added.healthy (h : Added libraries size kind w id v) : v.poisoned = false := by
  obtain ⟨addition, members, text, -, -, -, -, rfl⟩ := h
  rfl

theorem grown_withChild (w : Writer) (parent : Option String) (id : String) :
    Grown libraries w (w.withChild parent id) := by
  cases parent with
  | none => exact Grown.of_same rfl rfl rfl rfl rfl rfl rfl List.prefix_rfl
  | some parent =>
    unfold Writer.withChild
    dsimp only
    split
    · exact Grown.of_same rfl rfl rfl rfl rfl rfl rfl List.prefix_rfl
    · exact Grown.refl w

theorem grown_metadata (w : Writer) (text : Bytes) :
    Grown libraries w { w with metadata := w.metadata ++ text } :=
  Grown.of_same rfl rfl rfl rfl rfl rfl rfl (List.prefix_append _ _)

end Growth

/-! ## Operations -/

section Operations

variable {σ α β : Type} {libraries : WriterLibraries} {env : Environment σ} {source : Source σ}
  {size : Nat} {w : Writer}

/-- What fails leaves a poisoned writer, or the one that it has found. -/
abbrev Attempts (w : Writer) (x : Write σ α) (Q : α → Writer → Prop) : Prop :=
  Steps (fun w' => w'.poisoned = true ∨ w' = w) w x Q

theorem Writes.attempts {x : Write σ α} {Q : α → Writer → Prop} (h : Writes w x Q) :
    Attempts w x Q :=
  Steps.weaken h fun _ => .inl

theorem attempts_healthy :
    Attempts w (healthy : Write σ Unit) fun _ w' => w' = w ∧ w.poisoned = false := by
  refine steps_writer_bind ?_
  exact steps_refuse (.inr rfl) fun hc => ⟨rfl, by simpa using hc⟩

theorem attempts_healthy_bind {f : Unit → Write σ α} {Q : α → Writer → Prop}
    (h : Attempts w (f ()) Q) : Attempts w (healthy >>= f) Q := by
  refine Steps.bind attempts_healthy fun _ w' ⟨hw', _⟩ => ?_
  rw [hw']
  exact h

theorem attempts_identifier :
    Attempts w (identifier env) fun id w' => w' = w ∧ id.utf8ByteSize = 43 := by
  refine Steps.bind (Q := fun _ w' => w' = w) (steps_ask fun _ => rfl) fun uuid w' hw' => ?_
  refine steps_pure ⟨hw', ?_⟩
  rw [String.utf8ByteSize_append, uuid.length]
  rfl

theorem attempts_logicalParent (parent : Option String) :
    Attempts w (logicalParent parent : Write σ Unit) fun _ w' => w' = w ∧
      parent.all fun parent => w.folders.contains parent := by
  refine attempts_healthy_bind (steps_writer_bind ?_)
  refine steps_ite (fun _ => ?_) fun _ => ?_
  · exact steps_throw_bind (.inr rfl)
  · refine steps_refuse (.inr rfl) fun hc => ⟨rfl, ?_⟩
    cases parent with
    | none => rfl
    | some parent => simpa using hc

theorem attempts_addImage (hoptions : w.options.Valid) :
    Attempts w (addImage libraries env source size) (Added libraries size .image w) := by
  refine attempts_healthy_bind (steps_writer_bind ?_)
  refine steps_ite (fun _ => ?_) fun _ => ?_
  · exact steps_throw_bind (.inr rfl)
  · exact (writes_addChunked hoptions.chunkBytes hoptions.chunksPerBevy none "").attempts

theorem attempts_addImageWithSectorSize (hoptions : w.options.Valid) (sectorSize : Nat) :
    Attempts w (addImageWithSectorSize libraries env source size sectorSize)
      fun id w' => ∃ v text, Added libraries size .image w id v ∧
        w' = { v with metadata := v.metadata ++ text } := by
  refine attempts_healthy_bind ?_
  refine steps_ite (fun _ => ?_) fun _ => ?_
  · exact steps_throw_bind (.inr rfl)
  · refine Steps.bind (attempts_addImage hoptions) fun id v hv => ?_
    refine Steps.bind (steps_pushMetadata _) fun _ v' hv' => ?_
    exact steps_pure ⟨v, _, hv, hv'⟩

/-- Where a logical file of this size goes. -/
def Writer.fileKind (w : Writer) (size : Nat) : Kind :=
  if w.logicalZipThreshold < size then .file else .segment

theorem attempts_addFileImpl (hoptions : w.options.Valid) (path extraProperties : String) :
    Attempts w (addFileImpl libraries env source path size extraProperties)
      (Added libraries size (w.fileKind size) w) := by
  refine attempts_healthy_bind (steps_writer_bind ?_)
  refine steps_ite (fun _ => ?_) fun _ => ?_
  · exact steps_throw_bind (.inr rfl)
  · refine steps_ite (fun _ => ?_) fun _ => ?_
    · exact steps_throw_bind (.inr rfl)
    · unfold Writer.fileKind
      refine steps_ite (fun hlarge => ?_) fun hsmall => ?_
      · rw [if_pos hlarge]
        exact (writes_addChunked hoptions.chunkBytes hoptions.chunksPerBevy _ _).attempts
      · rw [if_neg hsmall]
        refine Writes.attempts (Steps.bind (steps_setPoisoned true) fun _ w₁ hw₁ => ?_)
        refine Steps.bind (Q := fun _ v => v = w₁) (steps_ask fun _ => rfl) fun uuid v hv => ?_
        rw [hv, hw₁]
        exact writes_addSegment libraries _ _ _ _ _ rfl

theorem attempts_addFileWithMetadata (hoptions : w.options.Valid) (metadata : LogicalMetadata) :
    Attempts w (addFileWithMetadata libraries env source metadata size) fun id w' =>
      ∃ v, Added libraries size (w.fileKind size) w id v ∧
        w' = v.withChild metadata.parent id := by
  refine Steps.bind (attempts_logicalParent _) fun _ w' ⟨hw', _⟩ => ?_
  subst hw'
  refine Steps.bind (Q := fun _ v => v = w') (steps_ofResult (.inr rfl) fun _ _ => rfl)
    fun properties v hv => ?_
  subst hv
  refine Steps.bind (attempts_addFileImpl hoptions _ _) fun id u hu => ?_
  exact Steps.bind steps_changed fun _ u' hu' => steps_pure ⟨u, hu, hu'⟩

theorem attempts_addFolder (metadata : LogicalMetadata) :
    Attempts w (addFolder libraries env metadata) fun id w' =>
      id.utf8ByteSize = 43 ∧ ∃ path properties,
        metadata.properties libraries = .ok (path, properties) ∧
        w' = { w.withChild metadata.parent id with
          folders := (w.withChild metadata.parent id).folders.insert id
            { properties := folderProperties libraries w.volume metadata path properties } } := by
  refine Steps.bind (attempts_logicalParent _) fun _ w' ⟨hw', _⟩ => ?_
  subst hw'
  refine Steps.bind (Q := fun found v => v = w' ∧ metadata.properties libraries = .ok found)
    (steps_ofResult (.inr rfl) fun _ hfound => ⟨rfl, hfound⟩) fun found v ⟨hv, hfound⟩ => ?_
  subst hv
  refine Steps.bind attempts_identifier fun id v' ⟨hv', hid⟩ => ?_
  subst hv'
  refine Steps.bind steps_changed fun _ u hu => steps_pure ?_
  exact ⟨hid, found.1, found.2, hfound, hu⟩

theorem attempts_addCaseMetadata (metadata : CaseMetadata) :
    Attempts w (addCaseMetadata libraries env metadata) fun _ w' =>
      ∃ text, w' = { w with metadata := w.metadata ++ text } := by
  refine attempts_healthy_bind ?_
  refine Steps.bind attempts_identifier fun id v ⟨hv, _⟩ => ?_
  subst hv
  refine steps_writer_bind ?_
  exact Steps.bind (steps_pushMetadata _) fun _ u hu => steps_pure ⟨_, hu⟩

theorem attempts_addSubstream (parent : String) (name : Bytes) (kind : SubstreamKind)
    (bytes : Bytes) :
    Attempts w (addSubstream libraries env parent name kind bytes) fun _ w' =>
      ∃ text, w' = { w with metadata := w.metadata ++ text } := by
  refine attempts_healthy_bind (steps_writer_bind ?_)
  refine steps_ite (fun _ => ?_) fun _ => ?_
  · exact steps_throw_bind (.inr rfl)
  · refine steps_ite (fun _ => ?_) fun _ => ?_
    · exact steps_throw_bind (.inr rfl)
    · refine Steps.bind attempts_identifier fun id v' ⟨hv', _⟩ => ?_
      subst hv'
      refine Steps.bind (steps_pushMetadata _) fun _ u hu => ?_
      refine Steps.bind (steps_pushMetadata _) fun _ u' hu' => steps_pure ?_
      rw [hu', hu]
      dsimp only
      rw [List.append_assoc]
      exact ⟨_, rfl⟩

theorem attempts_setPathSeparator (separator : Char) :
    Attempts w (setPathSeparator separator : Write σ Unit) fun _ w' =>
      w' = { w with pathSeparator := separator } := by
  refine attempts_healthy_bind ?_
  refine steps_ite (fun _ => ?_) fun _ => ?_
  · exact steps_throw_bind (.inr rfl)
  · exact steps_changed

theorem attempts_setLogicalZipThreshold (bytes : Nat) :
    Attempts w (setLogicalZipThreshold bytes : Write σ Unit) fun _ w' =>
      w' = { w with logicalZipThreshold := bytes } := by
  refine attempts_healthy_bind ?_
  refine steps_ite (fun _ => ?_) fun _ => ?_
  · exact steps_throw_bind (.inr rfl)
  · exact steps_changed

end Operations

end EwfImage.Aff4.Writing
