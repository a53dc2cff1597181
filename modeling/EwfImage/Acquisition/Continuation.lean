import EwfImage.Acquisition.Sessions

/-!
# Continuing an acquisition

An acquisition of a healthy source completes, unless it starts inside a chunk that the
first bulk read does not fill up to its last sector: the bytes of that read are refused
as a batch.

The main result is `acquire_completes_iff`: from every writer at rest, a call without
cancellation on a source that can be read all the way completes, with the sectors of the source
in the writer, exactly when nothing is pending or at most one sector is missing to fill the
pending chunk or to reach the end. `triple_acquire_refused` is the other case, the refused
batch. The source is healthy in the sense of `Acquisition.Source`: every seek and read of it
succeeds, short reads included, and the destination takes what is written. Nothing is assumed of
the order of earlier calls.
-/

namespace EwfImage.Acquisition

open Fallible Word Pieces Triples Slice AcquisitionWriter

/-! ## Segment names -/

theorem isUpper_ofNat {code : Nat} (h : code < 91) (hge : 69 ≤ code) :
    code.isValidChar ∧ (Char.ofNat code).isUpper = true := by
  refine ⟨.inl (by omega), ?_⟩
  have hall : ∀ c < 91, 69 ≤ c → (Char.ofNat c).isUpper = true := by decide
  exact hall code h hge

theorem le_of_isUpper_ofNat {code : Nat} (hvalid : code.isValidChar)
    (h : (Char.ofNat code).isUpper = true) : code ≤ 90 := by
  unfold Char.isUpper at h
  simp only [ge_iff_le, decide_eq_true_eq] at h
  have hval : (Char.ofNat code).val.toNat = code := by
    unfold Char.ofNat
    rw [dif_pos hvalid]
    rfl
  have hle : (Char.ofNat code).val.toNat ≤ 90 := h.2
  omega

/-- The names of the segments before a named one. -/
theorem nameOk_of_le {index last : Nat} {name : String}
    (h : v1SegmentExtension 'E' last = .ok name) (hlast : last ≤ 2 * u32Limit) (hle : index ≤ last) :
    NameOk index := by
  have hcapital : ('E' : Char).toUpper.toNat = 69 := by decide
  by_cases hdigits : index ≤ 99
  · exact ⟨⟨_, if_pos hdigits⟩, by omega⟩
  · have hmod : (last - 100) / (26 * 26) % u32Limit = (last - 100) / (26 * 26) :=
      Nat.mod_eq_of_lt (by unfold u32Limit at *; omega)
    have hletter : 69 + (last - 100) / (26 * 26) ≤ 90 := by
      unfold v1SegmentExtension at h
      rw [if_neg (by omega)] at h
      obtain ⟨_, hfirst, h⟩ := bind_eq_ok.mp h
      obtain ⟨_, hsecond, -⟩ := bind_eq_ok.mp h
      rw [rejectIf_eq_ok, hcapital, hmod, not_or] at hfirst
      rw [rejectIf_eq_ok, hcapital, hmod] at hsecond
      exact le_of_isUpper_ofNat (Decidable.of_not_not hfirst.2) (by simpa using hsecond)
    have hindex : (index - 100) / (26 * 26) ≤ (last - 100) / (26 * 26) :=
      Nat.div_le_div_right (by omega)
    have hmodIndex : (index - 100) / (26 * 26) % u32Limit = (index - 100) / (26 * 26) :=
      Nat.mod_eq_of_lt (by unfold u32Limit at *; omega)
    obtain ⟨hvalid, hupper⟩ := isUpper_ofNat
      (by omega : 69 + (index - 100) / (26 * 26) < 91) (by omega)
    have hcode : ¬ (u32Limit ≤ 69 + (index - 100) / (26 * 26) ∨
        ¬ (69 + (index - 100) / (26 * 26)).isValidChar) := by
      rw [not_or]
      exact ⟨by unfold u32Limit; omega, not_not_intro hvalid⟩
    refine ⟨⟨(Char.ofNat (69 + (index - 100) / (26 * 26))).toString ++
      alphaSuffix ((index - 100) % (26 * 26)), ?_⟩, by omega⟩
    unfold v1SegmentExtension
    rw [if_neg hdigits]
    simp only [hcapital, hmodIndex]
    rw [rejectIf_neg _ hcode, rejectIf_neg _ (not_not_intro hupper)]
    rfl

/-! ## Healthy acquisitions -/

section Continuing

variable {σ : Type} {codec : Codec} {env : Environment σ} {options : AcquisitionReadOptions}
  {content : Bytes} {position : σ → Nat} {w : AcquisitionWriter} {attempts : List (Nat × Bytes)}

/-- A healthy writer between two calls, with the numbers that creation and sealing check. -/
structure Resting (codec : Codec) (w : AcquisitionWriter) : Prop where
  consistent : Consistent codec w
  aligned : w.bytesPerSector ∣ w.offset
  sealed_lt : w.sealed.length < 65536
  chunks_lt : divCeil w.sourceSize w.chunkSize < u32Limit

/-- The options are accepted, and the last segment that may be needed has a name. -/
def Admitted (options : AcquisitionReadOptions) (w : AcquisitionWriter) : Prop :=
  w.acceptsOptions options = true ∧
    ∃ name, v1SegmentExtension 'E' (w.finalSegment options) = .ok name

/-- The source delivers all of its content in whatever pieces it likes, the callback always
continues, and neither the scratch storage nor the sealing of a segment fails. -/
structure Healthy (env : Environment σ) (content : Bytes) (position : σ → Nat) : Prop where
  source : Source env False content position
  faults : Faults env False

theorem Admitted.interval (h : Admitted options w) (hconsistent : Consistent codec w) :
    0 < w.interval options ∧ w.chunkSize ∣ w.interval options := by
  have hchunk : 0 < w.chunkSize := hconsistent.laid.chunk_pos
  have hsegment : 0 < w.chunksPerSegment := hconsistent.laid.segment_pos
  have hmaximum : 0 < w.chunkSize * w.chunksPerSegment := Nat.mul_pos hchunk hsegment
  have haccepts := h.1
  unfold acceptsOptions at haccepts
  simp only [Bool.and_eq_true] at haccepts
  unfold AcquisitionWriter.interval
  cases hinterval : options.checkpointInterval with
  | none => simpa using hmaximum
  | some interval =>
    have hchecked := haccepts.2
    rw [hinterval] at hchecked
    simp only [Option.all_some, ne_eq, decide_not, Bool.and_eq_true, Bool.not_eq_eq_eq_not,
      Bool.not_true, decide_eq_false_iff_not, decide_eq_true_eq] at hchecked
    simp only [Option.getD_some]
    refine ⟨by omega, ?_⟩
    rcases Nat.le_total interval (w.chunkSize * w.chunksPerSegment) with hle | hge
    · rw [Nat.min_eq_left hle]
      exact Nat.dvd_of_mod_eq_zero hchecked.2
    · rw [Nat.min_eq_right hge]
      exact Nat.dvd_mul_right ..

theorem Resting.affordable (h : Resting codec w) (hadmitted : Admitted options w) :
    w.Affordable options := by
  obtain ⟨hpos, hdvd⟩ := hadmitted.interval h.consistent
  obtain ⟨name, hname⟩ := hadmitted.2
  refine ⟨hpos, hdvd, fun index hindex => nameOk_of_le hname ?_ hindex⟩
  have hchunk : 0 < w.chunkSize := h.consistent.laid.chunk_pos
  have hsealed := h.sealed_lt
  have hchunks := h.chunks_lt
  have hle : w.chunkSize ≤ w.interval options := Nat.le_of_dvd hpos hdvd
  have hcount : divCeil (w.sourceSize - w.checkpointOffset) (w.interval options) ≤
      divCeil w.sourceSize w.chunkSize := by
    by_contra hgt
    have hupper := divCeil_mul_lt (n := w.sourceSize - w.checkpointOffset) hpos
    have hlower := divCeil_mul_ge (n := w.sourceSize) hchunk
    have hmul : (divCeil w.sourceSize w.chunkSize + 1) * w.interval options ≤
        divCeil (w.sourceSize - w.checkpointOffset) (w.interval options) * w.interval options :=
      Nat.mul_le_mul_right _ (Nat.lt_of_not_le hgt)
    have hwide : divCeil w.sourceSize w.chunkSize * w.chunkSize ≤
        divCeil w.sourceSize w.chunkSize * w.interval options := Nat.mul_le_mul_left _ hle
    rw [Nat.add_mul, Nat.one_mul] at hmul
    omega
  unfold finalSegment u32Limit at *
  omega

/-- The bytes that are missing from the pending chunk, or from the source, are at most a sector. -/
def StartsReady (w : AcquisitionWriter) : Prop :=
  w.pending = [] ∨
    min (w.chunkSize - w.pending.length) (w.sourceSize - w.offset) ≤ w.bytesPerSector

theorem startsReady_iff (w : AcquisitionWriter) : StartsReady w ↔ w.Ready := by
  have hbulk := (automaticBulkReadBytes_spec w.chunkSize).2
  unfold StartsReady Ready
  refine or_congr_right' fun hpending => ?_
  have hroom : w.chunkSize - w.pending.length ≤ automaticBulkReadBytes w.chunkSize := by omega
  simp only [readSize, if_neg hpending, Nat.min_eq_left hroom]

/-- The acquisition completes with the accepted media and the rest of the source, every chunk of
which is sealed. -/
def Completes (codec : Codec) (env : Environment σ) (options : AcquisitionReadOptions)
    (content : Bytes) (s : State σ) : Prop :=
  ∃ outcome s', acquire codec env options s = .ok outcome s' ∧ outcome.status = .complete ∧
    s'.writer.offset = s.writer.sourceSize ∧
    s'.writer.media = s.writer.media ++ content.drop s.writer.offset ∧
    Consistent codec s'.writer

theorem triple_acquire_complete (hhealthy : Healthy env content position)
    (hsize : content.length = w.sourceSize) (h : Resting codec w) (hadmitted : Admitted options w)
    (hready : w.Ready) :
    Triple (At w attempts) (acquire codec env options)
      (fun outcome s => outcome.status = .complete ∧ s.writer.offset = w.sourceSize ∧
        s.writer.media = w.media ++ content.drop w.offset ∧ Consistent codec s.writer)
      fun _ _ => False := by
  have hle : w.offset ≤ w.sourceSize := h.consistent.laid.offset_le
  have hbetween : Between codec False options (fun c _ => Follows content w.core c) w attempts :=
    ⟨h.consistent, .inr (h.affordable hadmitted), h.aligned, .refl content w.core⟩
  have hloop := triple_acquireLoop hhealthy.faults (reads_source hhealthy.source)
    (keeps_content content w.core) hbetween (Nat.le_of_eq hsize.symm) (.inr hready)
  have haccepts := hadmitted.1
  obtain ⟨name, hname⟩ := hadmitted.2
  refine triple_ensureHealthy_bind h.consistent.healthy (triple_writer_bind ?_)
  rw [if_neg (by rw [haccepts]; exact Bool.noConfusion)]
  rw [hname]
  refine triple_fromResult_bind (fun _ _ => ?_) fun _ _ herror _ => by cases herror
  refine triple_modifyProgress_bind ?_
  refine Triple.bind (Q := fun status s => status = .complete ∧ ∃ w' attempts', At w' attempts' s ∧
    w'.offset = w.sourceSize ∧ w'.sourceSize = w.sourceSize ∧
    w'.media = w.media ++ content.drop w.offset ∧
    Consistent codec w') ?_ fun status => ?_
  · refine triple_tryCatch (F := fun _ _ => False) ?_ fun e => fun _ hs => hs.elim
    refine Triple.bind (hloop.weaken (fun _ hs => hs) (fun _ _ hs => hs) fun _ _ hs => hs.1)
      fun _ => triple_pure ?_
    rintro s ⟨w', attempts', hat, hfinal, hsame, hoffset⟩
    have hend : w'.offset = w.sourceSize := by omega
    have hmedia : w'.media = w.media ++ slice content w.offset (w'.offset - w.offset) :=
      congrArg Core.media hfinal.kept.core
    refine ⟨rfl, w', attempts', hat, hend, hsame.sourceSize, ?_, hfinal.consistent⟩
    rw [hmedia, hend, ← hsize]
    congr 1
    exact List.take_of_length_le (by rw [List.length_drop])
  · refine Triple.of_state ?_
    rintro s₀ ⟨rfl, w', attempts', hat, hend, hsource, hmedia, hconsistent⟩
    refine Triple.of_pre (P := At w' attempts') ?_ fun _ hs => hs ▸ hat
    have hchunks : w'.chunks = [] := (hconsistent.finished (hend.trans hsource.symm)).2.1
    have hsame : w'.checkpointed = w' := if_neg (not_not_intro hchunks)
    have hcheckpoint : Triple (At w' attempts') (checkpoint env)
        (fun _ => At w'.checkpointed attempts') fun _ s => False ∧ At w'.poison attempts' s :=
      triple_checkpoint hhealthy.faults hconsistent.healthy fun hne => absurd hchunks hne
    rw [hsame] at hcheckpoint
    refine Triple.bind (hcheckpoint.weaken (fun _ hs => hs) (fun _ _ hs => hs) fun _ _ hs => hs.1)
      fun _ => Triple.bind (Q := fun _ => At w' attempts') ?_ fun _ => ?_
    · exact triple_writer_bind fun _ hs => hs
    · intro s hs
      obtain ⟨rfl, -⟩ := hs
      exact ⟨rfl, hend, hmedia, hconsistent⟩

/-- A bulk read of a writer inside a chunk is refused, and the acquisition with it. -/
theorem triple_acquire_refused (hhealthy : Healthy env content position)
    (hsize : content.length = w.sourceSize) (h : Resting codec w) (hready : ¬ w.Ready) :
    Triple (At w attempts) (acquire codec env options) (fun _ _ => False) fun _ _ => True := by
  have hpending : w.pending ≠ [] := fun hnil => hready (.inl hnil)
  have hlong : w.bytesPerSector < w.readSize := Nat.lt_of_not_le fun hle => hready (.inr hle)
  have hle : w.offset ≤ w.sourceSize := h.consistent.laid.offset_le
  have hopen : w.offset < w.sourceSize := by
    refine Nat.lt_of_le_of_ne hle fun hdone => hpending (h.consistent.finished hdone).1
  have hread := (h.consistent.readSize hopen h.aligned).le
  obtain ⟨fuel, hfuel⟩ : ∃ k, w.sourceSize - w.offset = k + 1 :=
    ⟨w.sourceSize - w.offset - 1, by omega⟩
  have hturn : Triple (At w attempts) (acquireTurn codec env options) (fun _ _ => False)
      fun e _ => e = .malformed "invalid healthy acquisition batch" := by
    refine triple_writer_bind (Triple.bind ((triple_bulkRead (reads_source hhealthy.source)
      (by omega)).weaken (fun _ hs => hs) (fun _ _ hs => hs) fun _ _ hs => hs.1.elim) fun bulk => ?_)
    cases bulk with
    | some bytes =>
      exact (triple_appendHealthyBatch_pending h.consistent.healthy hpending).weaken
        (fun s hs => hs.2.2) (fun _ _ hs => hs) fun _ _ hs => hs.1
    | none =>
      intro s hs
      rcases hs.1 with hfalse | hshort
      · exact hfalse.elim
      · omega
  have hloop : Triple (At w attempts) (acquireLoop codec env options) (fun _ _ => False)
      fun e _ => e = .malformed "invalid healthy acquisition batch" := by
    refine Triple.bind ((triple_notify hhealthy.faults).weaken (fun _ hs => hs) (fun _ _ hs => hs)
      fun _ _ hs => hs.1.elim) fun _ => triple_writer_bind ?_
    rw [hfuel, acquireTurns]
    refine triple_writer_bind ?_
    rw [if_pos hopen]
    exact Triple.bind hturn fun _ => fun _ hs => hs.elim
  refine triple_ensureHealthy_bind h.consistent.healthy (triple_writer_bind ?_)
  refine triple_ite (fun _ => triple_throw fun _ _ => trivial) fun _ => ?_
  refine triple_fromResult_bind (fun _ _ => ?_) fun _ _ _ _ => trivial
  refine triple_modifyProgress_bind (Triple.bind (Q := fun _ _ => False) ?_ fun _ => fun _ hs => hs.elim)
  refine triple_tryCatch (Triple.bind hloop fun _ => fun _ hs => hs.elim) fun e => ?_
  refine Triple.of_fact (fun he => ?_) fun s hs => hs
  subst he
  rw [if_neg (by decide)]
  refine triple_writer_traced fun w' => Triple.bind (Q := fun _ _ => True) ?_ fun _ =>
    triple_throw fun _ _ => trivial
  intro s _
  split <;> trivial

end Continuing

/-- A healthy acquisition completes exactly when nothing is pending, or what is missing from the
pending chunk or the source is at most a sector. This is about any writer that is at rest and any
options that it admits; completing means that the rest of the declared content is behind what the
writer had, and that every chunk is sealed. -/
theorem acquire_completes_iff {σ : Type} {codec : Codec} {env : Environment σ}
    {options : AcquisitionReadOptions} {content : Bytes} {position : σ → Nat} {s : State σ}
    (hhealthy : Healthy env content position) (hsize : content.length = s.writer.sourceSize)
    (h : Resting codec s.writer) (hadmitted : Admitted options s.writer) :
    Completes codec env options content s ↔ StartsReady s.writer := by
  rw [startsReady_iff]
  refine ⟨?_, fun hready => ?_⟩
  · rintro ⟨outcome, s', hrun, -⟩
    by_contra hready
    exact (triple_acquire_refused hhealthy hsize h hready).ok ⟨rfl, rfl⟩ hrun
  · have hresult := triple_acquire_complete hhealthy hsize h hadmitted hready s ⟨rfl, rfl⟩
    cases hrun : acquire codec env options s with
    | ok outcome s' =>
      rw [hrun] at hresult
      exact ⟨outcome, s', hrun, hresult⟩
    | error e s' =>
      rw [hrun] at hresult
      exact hresult.elim

theorem healthy_tape (content : Bytes) : Healthy (tape content) content id := by
  refine ⟨source_tape False content, fun _ _ hbreak => Bool.false_ne_true hbreak, ?_, ?_⟩
  · intro encoded world e hfailure
    cases hfailure
  · intro index segment world e hfailure
    cases hfailure

/-- Three sectors of one byte in one chunk. -/
def tripleAcquisition : AcquisitionOptions where
  sourceSize := 3
  bytesPerSector := 1
  sectorsPerChunk := 3
  chunksPerSegment := 1
  compression := .none

def tripleWriteOptions : WriteOptions where
  sectorsPerChunk := 3
  bytesPerSector := 1
  mediaSize := some 3

def tripleState : State Nat where
  world := 0
  writer := .new tripleWriteOptions tripleAcquisition
  progress := (AcquisitionWriter.new tripleWriteOptions tripleAcquisition).sourceProgress

/-- A source whose bulk reads fail, with a callback that cancels behind the first sector. -/
def interrupted (content : Bytes) : Environment Nat :=
  { tape content with
    read := fun wanted position =>
      if wanted = 1 then (.ok (slice content position 1), position + 1) else (.error .other, position)
    callback := fun progress position => (progress.bytesWritten = 1, position) }

/-- The state behind the cancelled call: one sector of the chunk is pending. -/
def cancelledState : State Nat := session markerCodec [(interrupted [7, 8, 9], {})] tripleState

theorem resting_of_traced {codec : Codec} {Good : Nat → Bytes → Prop} {start : Core} {s : State Nat}
    (h : Traced codec Good start s) (hhealthy : s.writer.failed = false)
    (hsealed : s.writer.sealed.length < 65536)
    (hchunks : divCeil s.writer.sourceSize s.writer.chunkSize < u32Limit) : Resting codec s.writer :=
  ⟨h.2.resolve_left fun hfailed => Bool.false_ne_true (hhealthy ▸ hfailed), h.1.1.aligned, hsealed,
    hchunks⟩

theorem resting_cancelledState : Resting markerCodec cancelledState.writer := by
  have hopened : Opened markerCodec (.new tripleWriteOptions tripleAcquisition) := opened_new rfl
  have hprovenance : Provenance tripleState.writer.core tripleState.writer.core [] :=
    hopened.provenance
  have htraced : Traced markerCodec (fun _ _ => True) tripleState.writer.core cancelledState :=
    session_traced (fun call _ => (reads_attempted _).mono fun _ _ _ => trivial)
      ⟨⟨hprovenance, fun _ _ _ => trivial⟩, .inr hopened.consistent⟩
  exact resting_of_traced htraced (by decide +kernel) (by decide +kernel) (by decide +kernel)

theorem admitted_cancelledState : Admitted {} cancelledState.writer := by
  refine ⟨by decide +kernel, "E01", ?_⟩
  have hfinal : cancelledState.writer.finalSegment {} = 1 := by decide +kernel
  rw [hfinal]
  rfl

/-- A call that goes on with a chunk of which one sector of three is pending. -/
theorem acquire_completes_iff_triple :
    cancelledState.writer.pending = [7] ∧
      (Completes markerCodec (tape [7, 8, 9]) {} [7, 8, 9] cancelledState ↔
        StartsReady cancelledState.writer) := by
  have hsize : ([7, 8, 9] : Bytes).length = cancelledState.writer.sourceSize := by decide +kernel
  exact ⟨by decide +kernel, acquire_completes_iff (healthy_tape [7, 8, 9]) hsize
    resting_cancelledState admitted_cancelledState⟩

/-- Not every acquisition of a healthy source completes: a cancelled call can leave a pending
sector, in front of which the next bulk read is refused. -/
theorem not_completes_of_any_position :
    ¬ ∀ s : State Nat, Resting markerCodec s.writer → Admitted {} s.writer →
      s.writer.sourceSize = 3 → Completes markerCodec (tape [7, 8, 9]) {} [7, 8, 9] s := by
  intro hall
  obtain ⟨outcome, s', hrun, -⟩ := hall cancelledState resting_cancelledState
    admitted_cancelledState (by decide +kernel)
  have hrefused : (match acquire markerCodec (tape [7, 8, 9]) {} cancelledState with
    | .ok _ _ => false
    | .error e _ => e = .malformed "invalid healthy acquisition batch") = true := by
    decide +kernel
  rw [hrun] at hrefused
  exact Bool.false_ne_true hrefused

end EwfImage.Acquisition
