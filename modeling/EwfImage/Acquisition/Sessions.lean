import EwfImage.Acquisition.Faithful
import EwfImage.Writer.Coherence

/-!
# Acquisition sessions

A session is any number of acquisitions with one writer, each of which may complete,
be cancelled or fail. What the writer holds in between is traced to the read attempts,
and reading in batches or sector by sector leads to the same writer.

The main result is `session_provenance`. Its first part is about every sector of the media that
the writer holds after a session: the sector was in the writer before, is the slice of an answer
that `env.read` gave for its address and that is recorded as such, or was substituted and is
recorded as an error. For a source with a content the answers are slices of the content. Its
second part is that the loop with its bulk reads and the loop that reads sector by sector leave
one writer when both complete without substitution. The environment is arbitrary: seeks and
reads may fail or be short, and every callback may cancel.
-/

namespace EwfImage.Acquisition

open Fallible Word Pieces Triples Slice AcquisitionWriter

variable {σ : Type} {codec : Codec}

/-- The state behind a computation, whichever way it ends. -/
def after {α : Type} (operation : Acquire σ α) (s : State σ) : State σ :=
  match operation s with
  | .ok _ s' => s'
  | .error _ s' => s'

theorem after_of_triple {α : Type} {P R : State σ → Prop} {operation : Acquire σ α} {s : State σ}
    (h : Triple P operation (fun _ => R) fun _ => R) (hs : P s) : R (after operation s) := by
  have hrun := h s hs
  unfold after
  cases hend : operation s with
  | ok a s' =>
    rw [hend] at hrun
    exact hrun
  | error e s' =>
    rw [hend] at hrun
    exact hrun

/-- Acquisitions one after the other, each with its source and its options. -/
def session (codec : Codec) :
    List (Environment σ × AcquisitionReadOptions) → State σ → State σ
  | [], s => s
  | (env, options) :: calls, s => session codec calls (after (acquire codec env options) s)

/-- A writer that an acquisition can start with: it is consistent, it ends at a whole sector, and
its ranges of errors lie in order before that sector and count the substituted ones. -/
structure Opened (codec : Codec) (w : AcquisitionWriter) : Prop where
  consistent : Consistent codec w
  aligned : w.bytesPerSector ∣ w.offset
  ranges : Ranges w.errors (w.offset / w.bytesPerSector) w.substitutedSectors

/-- A new writer can start an acquisition. -/
theorem opened_new {acquisition : AcquisitionOptions} {options : WriteOptions}
    (h : acquisition.writerOptions = .ok options) :
    Opened codec (AcquisitionWriter.new options acquisition) := by
  simp only [AcquisitionOptions.writerOptions, bind_eq_ok, rejectIf_eq_ok, pure_eq_ok,
    Except.ok.injEq] at h
  obtain ⟨⟨chunkSize, _⟩, hgeometry, _, hrange, _, hvalid, rfl⟩ := h
  have hsound := sound_of_validateOptions hvalid
  simp only [not_or] at hrange
  obtain ⟨hsource, hsector, -, hsegment, -, -⟩ := hrange
  have hbytes : 0 < acquisition.bytesPerSector.toNat := hsound.bytesPerSector
  have hsectors : 0 < acquisition.sectorsPerChunk.toNat := hsound.sectorsPerChunk
  have hcompression : acquisition.compression ≠ .bzip2 := fun hbzip => by
    have hewf2 := hsound.bzip2 hbzip
    cases hewf2
  have hlaid : Laid (AcquisitionWriter.new
      { sectorsPerChunk := acquisition.sectorsPerChunk, bytesPerSector := acquisition.bytesPerSector,
        compression := acquisition.compression, mediaSize := some acquisition.sourceSize }
      acquisition).core :=
    ⟨hbytes, Nat.mul_pos hbytes hsectors, toNat_pos_of_ne_zero hsegment, Nat.dvd_mul_right _ _,
      Nat.dvd_of_mod_eq_zero (Decidable.of_not_not hsector), hcompression, rfl, Nat.zero_le _⟩
  refine ⟨⟨hlaid, rfl, hlaid.chunk_pos, .nil, fun _ => ?_, fun hdone => ?_⟩, Nat.dvd_zero _, ?_⟩
  · exact ⟨Nat.dvd_zero _, by simp [AcquisitionWriter.new, checkpointOffset], hlaid.segment_pos⟩
  · exact absurd hdone.symm hsource
  · exact ⟨fun _ hrange => (List.not_mem_nil hrange).elim, .nil,
      fun _ hrange => (List.not_mem_nil hrange).elim, rfl⟩

/-! ## Provenance -/

theorem Opened.provenance {w : AcquisitionWriter} (h : Opened codec w) :
    Provenance w.core w.core [] := by
  refine ⟨h.consistent.laid, ⟨rfl, rfl, rfl, rfl, rfl, rfl⟩, List.prefix_refl _, h.aligned, h.ranges, ?_⟩
  intro sector hge hle
  have hpos : 0 < w.core.bytesPerSector := h.consistent.laid.sector_pos
  rw [Nat.add_mul, Nat.one_mul] at hle
  omega

/-- What holds of the core and the attempts: the media is traced to the attempts, and what each of
them read is `Good`. -/
def Recorded (Good : Nat → Bytes → Prop) (start c : Core) (attempts : List (Nat × Bytes)) : Prop :=
  Provenance start c attempts ∧ ∀ offset bytes, (offset, bytes) ∈ attempts → Good offset bytes

theorem keeps_recorded (Good : Nat → Bytes → Prop) (start : Core) :
    Keeps True Good (Recorded Good start) := by
  refine ⟨fun h hgood => ⟨h.1.attempts_append, fun offset bytes hmem => ?_⟩, ?_, ?_⟩
  · rcases List.mem_append.mp hmem with hold | hnew
    · exact h.2 offset bytes hold
    · cases List.mem_singleton.mp hnew
      exact hgood
  · intro c attempts bytes behind _ _ h _ hattempt hdvd hfits
    have hattempt : (c.offset, [] ++ bytes ++ behind) ∈ attempts := hattempt
    exact ⟨h.1.acceptAttempt hattempt rfl hdvd hfits, h.2⟩
  · intro w w' attempts maximumRanges _ _ _ h hrecord hfits
    obtain ⟨hsame, hranges, hcovered, hkept⟩ := recordSubstitution_spec h.1.ranges hrecord
    have haccepted := h.1.acceptSubstitute hranges hcovered hkept hfits
    have hcore : w'.core.accept (List.replicate w.bytesPerSector 0) =
        { w.core.accept (List.replicate w.bytesPerSector 0) with
          errors := w'.errors, substitutedSectors := w'.substitutedSectors } := by
      rw [hsame]
      rfl
    rw [hcore]
    exact ⟨haccepted, h.2⟩

/-- The media is traced to the attempts, what these read is `Good`, and the writer is poisoned or
consistent. -/
def Traced (codec : Codec) (Good : Nat → Bytes → Prop) (start : Core) (s : State σ) : Prop :=
  Recorded Good start s.writer.core s.attempts ∧
    (s.writer.failed = true ∨ Consistent codec s.writer)

section Acquiring

variable {Good : Nat → Bytes → Prop} {start : Core} {env : Environment σ} {options : AcquisitionReadOptions}

theorem faults_any : Faults env True :=
  ⟨fun _ _ _ => trivial, fun _ _ _ _ => trivial, fun _ _ _ _ _ => trivial⟩

theorem traced_of_at {w : AcquisitionWriter} {attempts : List (Nat × Bytes)} {s : State σ}
    (hat : At w attempts s) (h : Recorded Good start w.core attempts)
    (hstate : w.failed = true ∨ Consistent codec w) : Traced codec Good start s := by
  obtain ⟨rfl, rfl⟩ := hat
  exact ⟨h, hstate⟩

/-- A poisoned writer refuses to go on. -/
theorem triple_ensureHealthy_poisoned {β : Type} {w : AcquisitionWriter}
    {attempts : List (Nat × Bytes)} {f : Unit → Acquire σ β} (hfailed : w.failed = true) :
    Triple (At w attempts) (ensureHealthy >>= f) (fun _ _ => False) fun _ => At w attempts := by
  refine Triple.bind (Q := fun _ _ => False) (triple_writer_bind ?_) fun _ => fun _ hs => hs.elim
  rw [if_pos hfailed]
  exact triple_throw fun _ hs => hs

/-- An operation that needs a healthy writer, from any traced state. -/
theorem triple_of_healthy {β : Type} {f : Unit → Acquire σ β} {Q : β → State σ → Prop}
    (h : ∀ w attempts, Consistent codec w → Recorded Good start w.core attempts →
      Triple (At w attempts) (ensureHealthy >>= f) Q fun _ => Traced codec Good start) :
    Triple (Traced codec Good start) (ensureHealthy >>= f) Q fun _ => Traced codec Good start := by
  refine Triple.of_state fun s hs => ?_
  obtain ⟨hprovenance, hstate⟩ := hs
  refine Triple.of_pre (P := At s.writer s.attempts) ?_ fun _ hs => hs ▸ ⟨rfl, rfl⟩
  rcases hstate with hfailed | hconsistent
  · exact (triple_ensureHealthy_poisoned hfailed).weaken (fun _ hs => hs)
      (fun _ _ hs => hs.elim) fun _ _ hs => traced_of_at hs hprovenance (.inl hfailed)
  · exact h _ _ hconsistent hprovenance

theorem triple_checkpoint_traced : Triple (Traced codec Good start) (checkpoint env)
    (fun _ => Traced codec Good start) fun _ => Traced codec Good start := by
  refine triple_of_healthy fun w attempts hconsistent hprovenance => ?_
  refine (triple_checkpoint faults_any hconsistent.healthy fun _ => .inl trivial).weaken
    (fun _ hs => hs) (fun _ _ hs => ?_) fun _ _ hs => ?_
  · refine traced_of_at hs ?_ (.inr hconsistent.checkpointed)
    rw [core_checkpointed]
    exact hprovenance
  · exact traced_of_at hs.2 hprovenance (.inl rfl)

theorem triple_writer_traced {β : Type} {f : AcquisitionWriter → Acquire σ β}
    {P : State σ → Prop} {Q : β → State σ → Prop} {E : EwfError → State σ → Prop}
    (h : ∀ w, Triple P (f w) Q E) : Triple P (writer >>= f) Q E :=
  fun s hs => h s.writer s hs

theorem triple_acquireLoop_traced {w : AcquisitionWriter} {attempts : List (Nat × Bytes)}
    (hreads : Reads env True Good start.sourceSize) (hconsistent : Consistent codec w)
    (hprovenance : Recorded Good start w.core attempts) :
    Triple (At w attempts) (acquireLoop codec env options) (fun _ => Traced codec Good start)
      fun _ => Traced codec Good start := by
  have hbetween : Between codec True options (Recorded Good start) w attempts :=
    ⟨hconsistent, .inl trivial, hprovenance.1.aligned, hprovenance⟩
  have hsize : w.sourceSize = start.sourceSize := hprovenance.1.geometry.2.2.1
  refine (triple_acquireLoop faults_any hreads (keeps_recorded Good start) hbetween
    (Nat.le_of_eq hsize) (.inl trivial)).weaken (fun _ hs => hs) ?_ ?_
  · rintro _ s ⟨v, more, hat, hv, -, -⟩
    exact traced_of_at hat hv.kept (.inr hv.consistent)
  · rintro _ s ⟨-, v, more, hat, -, hkept, hstate⟩
    exact traced_of_at hat hkept hstate

/-- An acquisition keeps the trace, whichever way it ends. -/
theorem triple_acquire_traced (hreads : Reads env True Good start.sourceSize) :
    Triple (Traced codec Good start) (acquire codec env options)
      (fun _ => Traced codec Good start) fun _ => Traced codec Good start := by
  refine triple_of_healthy fun w attempts hconsistent hprovenance => ?_
  have htraced : ∀ s : State σ, At w attempts s → Traced codec Good start s := fun s hs =>
    traced_of_at hs hprovenance (.inr hconsistent)
  refine triple_ensureHealthy_bind hconsistent.healthy (triple_writer_bind ?_)
  by_cases haccepts : w.acceptsOptions options = false
  · rw [if_pos haccepts]
    exact triple_throw htraced
  · rw [if_neg haccepts]
    refine triple_fromResult_bind (fun _ _ => ?_) fun _ s _ hs => htraced s hs
    refine triple_modifyProgress_bind ?_
    refine Triple.bind (Q := fun _ => Traced codec Good start) ?_ fun _ => ?_
    · refine triple_tryCatch (F := fun _ => Traced codec Good start) ?_ fun e => ?_
      · exact Triple.bind (triple_acquireLoop_traced hreads hconsistent hprovenance) fun _ =>
          triple_pure fun _ hs => hs
      · refine triple_ite (fun _ => triple_pure fun _ hs => hs) fun _ => ?_
        refine triple_writer_traced fun w' => Triple.bind (Q := fun _ => Traced codec Good start) ?_
          fun _ => triple_throw fun _ hs => hs
        refine triple_ite (fun _ => triple_pure fun _ hs => hs) fun _ => ?_
        exact Triple.bind triple_checkpoint_traced fun _ => triple_pure fun _ hs => hs
    · refine Triple.bind triple_checkpoint_traced fun _ => ?_
      refine Triple.bind (Q := fun _ => Traced codec Good start)
        (triple_writer_traced fun _ => fun _ hs => hs) fun _ => ?_
      exact Triple.bind (triple_get (Q := fun _ => Traced codec Good start) fun _ hs => hs) fun _ =>
        triple_pure fun _ hs => hs

theorem session_traced {calls : List (Environment σ × AcquisitionReadOptions)} {s : State σ}
    (hreads : ∀ call ∈ calls, Reads call.1 True Good start.sourceSize)
    (h : Traced codec Good start s) : Traced codec Good start (session codec calls s) := by
  induction calls generalizing s with
  | nil => exact h
  | cons call calls ih =>
    obtain ⟨env, options⟩ := call
    exact ih (fun later hlater => hreads later (List.mem_cons_of_mem _ hlater))
      (after_of_triple (triple_acquire_traced (hreads _ List.mem_cons_self)) h)

/-! ## Batches and sectors -/

/-- What has been accepted is the content unless a sector was substituted, and the writer is
poisoned or consistent. -/
def Unsubstituted (codec : Codec) (content : Bytes) (start : Core) (s : State σ) : Prop :=
  (s.writer.substitutedSectors = start.substitutedSectors → Follows content start s.writer.core) ∧
    (s.writer.failed = true ∨ Consistent codec s.writer)

theorem unsubstituted_of_reached {content : Bytes} {w : AcquisitionWriter} {size : Nat} {s : State σ}
    (h : Reached codec True options (fun c _ => start.substitutedSectors ≤ c.substitutedSectors ∧
      (c.substitutedSectors = start.substitutedSectors → Follows content start c)) w size s) :
    Unsubstituted codec content start s := by
  obtain ⟨v, more, ⟨rfl, -⟩, hv, -, -⟩ := h
  exact ⟨hv.kept.2, .inr hv.consistent⟩

theorem unsubstituted_of_stopped {content : Bytes} {s : State σ}
    (h : Stopped codec True (fun c _ => start.substitutedSectors ≤ c.substitutedSectors ∧
      (c.substitutedSectors = start.substitutedSectors → Follows content start c)) s) :
    Unsubstituted codec content start s := by
  obtain ⟨-, v, more, ⟨rfl, -⟩, -, hkept, hstate⟩ := h
  exact ⟨hkept.2, hstate⟩

variable {content : Bytes} {position : σ → Nat} {w : AcquisitionWriter}
  {attempts : List (Nat × Bytes)}

theorem Opened.between_unsubstituted (h : Opened codec w) :
    Between codec True options (fun c _ => w.core.substitutedSectors ≤ c.substitutedSectors ∧
      (c.substitutedSectors = w.core.substitutedSectors → Follows content w.core c)) w attempts :=
  ⟨h.consistent, .inl trivial, h.aligned, Nat.le_refl _, fun _ => .refl content w.core⟩

/-- The loop with its bulk reads. -/
theorem triple_acquireLoop_unsubstituted (h : Opened codec w)
    (hsource : Source env True content position) (hsize : content.length = w.sourceSize) :
    Triple (At w attempts) (acquireLoop codec env options)
      (fun _ => Unsubstituted codec content w.core) fun _ => Unsubstituted codec content w.core :=
  (triple_acquireLoop faults_any (reads_source hsource) (keeps_unsubstituted content w.core)
    h.between_unsubstituted (Nat.le_of_eq hsize.symm) (.inl trivial)).weaken (fun _ hs => hs)
    (fun _ _ hs => unsubstituted_of_reached hs) fun _ _ hs => unsubstituted_of_stopped hs

/-- Every sector of the rest of the source on its own. -/
theorem triple_acquireSectors_unsubstituted (h : Opened codec w)
    (hsource : Source env True content position) (hsize : content.length = w.sourceSize) :
    Triple (At w attempts)
      (acquireSectors codec env options (sectorSizes (w.sourceSize - w.offset) w.bytesPerSector))
      (fun _ => Unsubstituted codec content w.core) fun _ => Unsubstituted codec content w.core := by
  have hpos : 0 < w.bytesPerSector := h.consistent.laid.sector_pos
  have hle : w.offset ≤ w.sourceSize := h.consistent.laid.offset_le
  have hdvd : w.bytesPerSector ∣ w.sourceSize - w.offset :=
    Nat.dvd_sub h.consistent.laid.sector_dvd_source h.aligned
  have hsizes : sectorSizes (w.sourceSize - w.offset) w.bytesPerSector =
      List.replicate ((w.sourceSize - w.offset) / w.bytesPerSector) w.bytesPerSector := by
    unfold sectorSizes
    rw [map_length_pieces hpos (by rw [List.length_range]; exact hdvd), List.length_range]
  have hcount := Nat.div_mul_cancel hdvd
  rw [hsizes]
  exact (triple_acquireSectors faults_any (reads_source hsource) (keeps_unsubstituted content w.core)
    h.between_unsubstituted (by omega) (Nat.le_of_eq hsize.symm)).weaken (fun _ hs => hs)
    (fun _ _ hs => unsubstituted_of_reached hs) fun _ _ hs => unsubstituted_of_stopped hs

/-- Healthy writers that follow the same content as far as each other are the same. -/
theorem Unsubstituted.unique {s t : State σ} (hs : Unsubstituted codec content start s)
    (ht : Unsubstituted codec content start t)
    (hhealthy : s.writer.failed = false ∧ t.writer.failed = false)
    (hunsubstituted : s.writer.substitutedSectors = start.substitutedSectors ∧
      t.writer.substitutedSectors = start.substitutedSectors)
    (hoffset : t.writer.offset = s.writer.offset) :
    t.writer.media = s.writer.media ∧ t.writer.hashed = s.writer.hashed ∧
      t.writer.sequence = s.writer.sequence := by
  have hconsistent : Consistent codec s.writer :=
    hs.2.resolve_left fun hfailed => by rw [hhealthy.1] at hfailed; cases hfailed
  have hconsistent' : Consistent codec t.writer :=
    ht.2.resolve_left fun hfailed => by rw [hhealthy.2] at hfailed; cases hfailed
  have hcore : t.writer.core = s.writer.core :=
    (hs.1 hunsubstituted.1).unique (ht.1 hunsubstituted.2) hoffset
  obtain ⟨hhashed, -, hsequence⟩ := hconsistent.unique hconsistent' hcore
  exact ⟨congrArg Core.media hcore, hhashed, hsequence⟩

end Acquiring

theorem Opened.traced {w : AcquisitionWriter} (hopened : Opened codec w)
    {Good : Nat → Bytes → Prop} {calls : List (Environment σ × AcquisitionReadOptions)} {s : State σ}
    (hs : s.writer = w) (hattempts : s.attempts = [])
    (hreads : ∀ call ∈ calls, Reads call.1 True Good w.sourceSize) :
    Recorded Good w.core (session codec calls s).writer.core (session codec calls s).attempts := by
  have hnone : ∀ offset bytes, (offset, bytes) ∈ s.attempts → Good offset bytes := by
    intro offset bytes hmem
    rw [hattempts] at hmem
    cases hmem
  have hprovenance : Provenance w.core s.writer.core s.attempts := by
    rw [hattempts, hs]
    exact hopened.provenance
  exact (session_traced hreads ⟨⟨hprovenance, hnone⟩, .inr (hs ▸ hopened.consistent)⟩).1

/-- The sector of an attempt at a source with a content is a sector of the content. -/
theorem FromAttempt.content {c : Core} {attempts : List (Nat × Bytes)} {sector : Nat} {content : Bytes}
    (h : FromAttempt c attempts sector)
    (hwindows : ∀ offset bytes, (offset, bytes) ∈ attempts → Window content offset bytes) :
    slice c.media (sector * c.bytesPerSector) c.bytesPerSector =
      slice content (sector * c.bytesPerSector) c.bytesPerSector := by
  obtain ⟨offset, bytes, hmem, hge, hend, hslice⟩ := h
  have hwindow := hwindows offset bytes hmem
  unfold Window at hwindow
  rw [Nat.add_mul, Nat.one_mul] at hend
  rw [hslice, hwindow, slice_slice (by omega)]
  congr 1
  omega

/-- What a session adds to the writer `w`: sectors from one successful read attempt or zero inside
a recorded range, with the ranges in order below the offset and counting the substitutions; and
each attempt got its bytes from the source of a call, piece by piece behind one seek. -/
structure Explained (w : AcquisitionWriter)
    (calls : List (Environment σ × AcquisitionReadOptions)) (s : State σ) : Prop where
  provenance : Provenance w.core s.writer.core s.attempts
  attempted : ∀ offset bytes, (offset, bytes) ∈ s.attempts →
    ∃ call ∈ calls, Attempted call.1 offset bytes
  /-- From sources with a content, that is the sector of the content. -/
  content : ∀ content : Bytes, content.length = w.sourceSize →
    (∀ call ∈ calls, ∃ position, Source call.1 True content position) →
    ∀ sector, w.offset ≤ sector * w.bytesPerSector →
      (sector + 1) * w.bytesPerSector ≤ s.writer.offset →
      slice s.writer.media (sector * w.bytesPerSector) w.bytesPerSector =
          slice content (sector * w.bytesPerSector) w.bytesPerSector ∨
        Substituted s.writer.core sector

theorem session_explained {w : AcquisitionWriter} (hopened : Opened codec w)
    (calls : List (Environment σ × AcquisitionReadOptions)) {s : State σ} (hs : s.writer = w)
    (hattempts : s.attempts = []) : Explained w calls (session codec calls s) := by
  have hreads : ∀ call ∈ calls, Reads call.1 True
      (fun offset bytes => ∃ call ∈ calls, Attempted call.1 offset bytes) w.sourceSize :=
    fun call hcall => (reads_attempted w.sourceSize).mono fun _ _ hattempted =>
      ⟨call, hcall, hattempted⟩
  have hrecorded := hopened.traced hs hattempts hreads
  refine ⟨hrecorded.1, hrecorded.2, fun content hsize hsources sector hge hend => ?_⟩
  have hwindow : ∀ call ∈ calls, Reads call.1 True (Window content) w.sourceSize := by
    intro call hcall
    obtain ⟨position, hsource⟩ := hsources call hcall
    exact hsize ▸ reads_source hsource
  have hwindows := hopened.traced hs hattempts hwindow
  have hsector : (session codec calls s).writer.core.bytesPerSector = w.bytesPerSector :=
    hwindows.1.geometry.1
  rw [← hsector] at hge hend ⊢
  exact (hwindows.1.sectors sector hge hend).imp_left fun hfrom => hfrom.content hwindows.2

/-- From any writer that can start an acquisition, whatever the sources, callbacks and destinations
do: every sector that a session adds is explained by the source or by a recorded substitution, and
the loop with its bulk reads leaves the writer that reading sector by sector leaves. -/
theorem session_provenance {w : AcquisitionWriter} (hopened : Opened codec w) :
    (∀ (calls : List (Environment σ × AcquisitionReadOptions)) (s : State σ), s.writer = w →
      s.attempts = [] → Explained w calls (session codec calls s)) ∧
    ∀ (content : Bytes) (batched single : Environment σ) (batchedPosition singlePosition : σ → Nat)
      (options options' : AcquisitionReadOptions) (s t : State σ),
      content.length = w.sourceSize → Source batched True content batchedPosition →
      Source single True content singlePosition → s.writer = w → t.writer = w →
      let s' := after (acquireLoop codec batched options) s
      let t' := after (acquireSectors codec single options'
        (sectorSizes (w.sourceSize - w.offset) w.bytesPerSector)) t
      s'.writer.failed = false ∧ t'.writer.failed = false →
      s'.writer.substitutedSectors = w.substitutedSectors ∧
        t'.writer.substitutedSectors = w.substitutedSectors →
      t'.writer.offset = s'.writer.offset →
      t'.writer.media = s'.writer.media ∧ t'.writer.hashed = s'.writer.hashed ∧
        t'.writer.sequence = s'.writer.sequence := by
  refine ⟨fun calls s hs hattempts => session_explained hopened calls hs hattempts, ?_⟩
  intro content batched single batchedPosition singlePosition options options' s t hsize hbatched
    hsingle hs ht s' t' hhealthy hunsubstituted hoffset
  have hs' : Unsubstituted codec content w.core s' :=
    after_of_triple (triple_acquireLoop_unsubstituted hopened hbatched hsize) ⟨hs, rfl⟩
  have ht' : Unsubstituted codec content w.core t' :=
    after_of_triple (triple_acquireSectors_unsubstituted hopened hsingle hsize) ⟨ht, rfl⟩
  exact hs'.unique ht' hhealthy hunsubstituted hoffset

/-! ## A source in memory -/

/-- A source that delivers its content, with a callback and a destination that never fail. -/
def tape (content : Bytes) : Environment Nat where
  seek := fun offset _ => (.ok offset, offset)
  read := fun wanted position => (.ok (slice content position wanted), position + wanted)
  callback := fun _ position => (false, position)
  append := fun _ position => (none, position)
  install := fun _ _ position => (none, position)

theorem source_tape (faulty : Prop) (content : Bytes) : Source (tape content) faulty content id := by
  refine ⟨fun _ _ => ⟨fun hbreak => (Bool.false_ne_true hbreak).elim, rfl⟩,
    fun offset _ _ => ?_, ?_⟩
  · exact ⟨fun hne => absurd rfl hne, fun _ => rfl⟩
  · intro wanted world hwanted hle
    have hlength : (slice content world wanted).length = wanted := length_slice_of_le hle
    have hne : slice content world wanted ≠ [] := List.length_pos_iff.mp (by omega)
    have hread : checkRead wanted ((tape content).read wanted world).1 =
        .ok (slice content world wanted) := by
      change (if slice content world wanted = [] then _ else if _ then _ else _) = _
      rw [if_neg hne, if_pos (Nat.le_of_eq hlength)]
    rw [hread]
    refine ⟨?_, ?_⟩
    · rw [hlength]
      rfl
    · rw [hlength]
      rfl

/-- Two sectors of one byte, each its own chunk and segment. -/
def pairAcquisition : AcquisitionOptions where
  sourceSize := 2
  bytesPerSector := 1
  sectorsPerChunk := 1
  chunksPerSegment := 1
  compression := .none

def pairWriteOptions : WriteOptions where
  sectorsPerChunk := 1
  bytesPerSector := 1
  mediaSize := some 2

def pairState : State Nat where
  world := 0
  writer := .new pairWriteOptions pairAcquisition
  progress := (AcquisitionWriter.new pairWriteOptions pairAcquisition).sourceProgress

theorem session_provenance_pair :
    Explained pairState.writer [(tape [7, 9], {})]
        (session markerCodec [(tape [7, 9], {})] pairState) ∧
      (after (acquireSectors markerCodec (tape [7, 9]) {} [1, 1]) pairState).writer.sequence =
        (after (acquireLoop markerCodec (tape [7, 9]) {}) pairState).writer.sequence := by
  have hopened : Opened markerCodec (.new pairWriteOptions pairAcquisition) := opened_new rfl
  obtain ⟨hsession, hpaths⟩ := session_provenance (σ := Nat) hopened
  have hsource := source_tape True [7, 9]
  have hsame := hpaths [7, 9] (tape [7, 9]) (tape [7, 9]) id id {} {} pairState pairState rfl hsource
    hsource rfl rfl (by decide +kernel) (by decide +kernel) (by decide +kernel)
  exact ⟨hsession _ pairState rfl rfl, hsame.2.2⟩

end EwfImage.Acquisition
