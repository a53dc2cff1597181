import EwfImage.Acquisition.Loop

/-!
# The turns of the acquisition loop

One turn accepts a bulk read as a batch, or its sectors one by one. The loop is
described for any property of the core and the recorded attempts that accepting the
bytes of an attempt and recording a substitution keep, and for any kind of source.

The main result is `triple_acquireLoop`, by induction on the media that is left: with any
property that one turn keeps, the loop ends with it, whether it completes, is cancelled or
fails. The properties that are put in are those of `Provenance` and `Faithful`.
-/

namespace EwfImage.Acquisition

open Fallible Word Pieces Triples AcquisitionWriter

/-- A property of the core and the recorded attempts that the loop keeps. -/
structure Keeps (faulty : Prop) (Good : Nat → Bytes → Prop)
    (I : Core → List (Nat × Bytes) → Prop) : Prop where
  attempt : ∀ {c attempts offset bytes}, I c attempts → Good offset bytes →
    I c (attempts ++ [(offset, bytes)])
  accept : ∀ {c attempts bytes behind}, Laid c → c.bytesPerSector ∣ c.offset → I c attempts →
    Good c.offset (bytes ++ behind) → (c.offset, bytes ++ behind) ∈ attempts →
    c.bytesPerSector ∣ bytes.length → c.offset + bytes.length ≤ c.sourceSize →
    I (c.accept bytes) attempts
  substitute : ∀ {w w' : AcquisitionWriter} {attempts maximumRanges}, faulty → Laid w.core →
    w.bytesPerSector ∣ w.offset → I w.core attempts →
    w.recordSubstitution maximumRanges = .ok w' → w.offset + w.bytesPerSector ≤ w.sourceSize →
    I (w'.core.accept (List.replicate w.bytesPerSector 0)) attempts

namespace AcquisitionWriter

variable {codec : Codec} {w w' : AcquisitionWriter} {options : AcquisitionReadOptions}
  {faulty : Prop}

/-- The writer stands where a chunk starts, or at the end of the source. -/
def AtBoundary (w : AcquisitionWriter) : Prop :=
  w.chunkSize ∣ w.offset ∨ w.offset = w.sourceSize

/-- A bulk read of the next turn can be accepted as a batch. -/
def Ready (w : AcquisitionWriter) : Prop := w.pending = [] ∨ w.readSize ≤ w.bytesPerSector

/-- The settings of two writers agree. -/
structure SameGeometry (w w' : AcquisitionWriter) : Prop where
  bytesPerSector : w'.bytesPerSector = w.bytesPerSector
  sourceSize : w'.sourceSize = w.sourceSize
  chunkSize : w'.chunkSize = w.chunkSize

theorem SameGeometry.refl (w : AcquisitionWriter) : SameGeometry w w := ⟨rfl, rfl, rfl⟩

theorem SameGeometry.trans {v : AcquisitionWriter} (h : SameGeometry w v) (h' : SameGeometry v w') :
    SameGeometry w w' :=
  ⟨h'.bytesPerSector.trans h.bytesPerSector, h'.sourceSize.trans h.sourceSize,
    h'.chunkSize.trans h.chunkSize⟩

theorem SameGeometry.of_core {bytes : Bytes} (h : w'.core = w.core.accept bytes) :
    SameGeometry w w' :=
  ⟨congrArg Core.bytesPerSector h, congrArg Core.sourceSize h, congrArg Core.chunkSize h⟩

theorem Consistent.ready (h : Consistent codec w) (hboundary : w.AtBoundary) : w.Ready :=
  .inl (h.pending_eq_nil hboundary)

theorem le_sub_of_dvd {size m n : Nat} (hm : size ∣ m) (hn : size ∣ n) (hlt : m < n) :
    m + size ≤ n := by
  have hle : size ≤ n - m := Nat.le_of_dvd (by omega) (Nat.dvd_sub hn hm)
  omega

theorem Consistent.sector_dvd_pending (h : Consistent codec w) (hopen : w.offset < w.sourceSize)
    (haligned : w.bytesPerSector ∣ w.offset) : w.bytesPerSector ∣ w.pending.length := by
  have hlength := h.hashed_length
  have hhashed : w.bytesPerSector ∣ w.hashed.length :=
    Nat.dvd_trans h.laid.sector_dvd_chunk (h.chunk_dvd_hashed hopen)
  rw [← hlength] at haligned
  exact (Nat.dvd_add_right hhashed).mp haligned

/-- A sector fits into the pending chunk. -/
theorem Consistent.fits_sector {bytes : Bytes} (h : Consistent codec w) (hopen : w.offset < w.sourceSize)
    (haligned : w.bytesPerSector ∣ w.offset) (hlength : bytes.length = w.bytesPerSector) :
    w.Fits bytes := by
  have hsector : 0 < w.bytesPerSector := h.laid.sector_pos
  have hpending := le_sub_of_dvd (h.sector_dvd_pending hopen haligned) h.laid.sector_dvd_chunk
    h.pending_lt
  have hpending : w.pending.length + w.bytesPerSector ≤ w.chunkSize := hpending
  have hsource := le_sub_of_dvd haligned h.laid.sector_dvd_source hopen
  have hsource : w.offset + w.bytesPerSector ≤ w.sourceSize := hsource
  refine ⟨List.length_pos_iff.mp (by omega), by omega, by omega⟩

theorem automaticBulkReadBytes_spec (chunkSize : Nat) :
    chunkSize ∣ automaticBulkReadBytes chunkSize ∧ chunkSize ≤ automaticBulkReadBytes chunkSize := by
  unfold automaticBulkReadBytes
  refine ⟨Nat.dvd_mul_left .., ?_⟩
  calc chunkSize = 1 * chunkSize := (Nat.one_mul _).symm
    _ ≤ max (256 * 1024 / chunkSize) 1 * chunkSize := Nat.mul_le_mul_right _ (Nat.le_max_right _ _)

/-- A turn reads at least a sector, and ends at a boundary. -/
structure ReadSize (w : AcquisitionWriter) : Prop where
  pos : 0 < w.readSize
  le : w.readSize ≤ w.sourceSize - w.offset
  aligned : w.bytesPerSector ∣ w.readSize
  whole : w.pending = [] → w.chunkSize ∣ w.readSize ∨ w.offset + w.readSize = w.sourceSize
  boundary : w.chunkSize ∣ w.offset + w.readSize ∨ w.offset + w.readSize = w.sourceSize

theorem Consistent.readSize (h : Consistent codec w) (hopen : w.offset < w.sourceSize)
    (haligned : w.bytesPerSector ∣ w.offset) : ReadSize w := by
  have hchunk : 0 < w.chunkSize := h.laid.chunk_pos
  have hdvd : w.bytesPerSector ∣ w.chunkSize := h.laid.sector_dvd_chunk
  have hsource : w.bytesPerSector ∣ w.sourceSize := h.laid.sector_dvd_source
  obtain ⟨hbulk, hbulkLe⟩ := automaticBulkReadBytes_spec w.chunkSize
  have hrest : w.bytesPerSector ∣ w.sourceSize - w.offset := Nat.dvd_sub hsource haligned
  have hlength := h.hashed_length
  have hhashed := h.chunk_dvd_hashed hopen
  have hpendingLt := h.pending_lt
  by_cases hpending : w.pending = []
  · have hsize : w.readSize = min (automaticBulkReadBytes w.chunkSize) (w.sourceSize - w.offset) := by
      simp only [AcquisitionWriter.readSize, if_pos hpending, Nat.min_self]
    rw [hpending, List.length_nil, Nat.add_zero] at hlength
    rw [hlength] at hhashed
    rcases Nat.le_total (automaticBulkReadBytes w.chunkSize) (w.sourceSize - w.offset) with hle | hge
    · rw [Nat.min_eq_left hle] at hsize
      refine ⟨by omega, by omega, ?_, fun _ => .inl ?_, .inl ?_⟩
      · rw [hsize]
        exact Nat.dvd_trans hdvd hbulk
      · rw [hsize]
        exact hbulk
      · rw [hsize]
        exact Nat.dvd_add hhashed hbulk
    · rw [Nat.min_eq_right hge] at hsize
      refine ⟨by omega, by omega, ?_, fun _ => .inr (by omega), .inr (by omega)⟩
      rw [hsize]
      exact hrest
  · have hsize : w.readSize = min (w.chunkSize - w.pending.length) (w.sourceSize - w.offset) := by
      simp only [AcquisitionWriter.readSize, if_neg hpending]
      rw [Nat.min_eq_left (by omega : w.chunkSize - w.pending.length ≤ _)]
    have hroom : w.bytesPerSector ∣ w.chunkSize - w.pending.length :=
      Nat.dvd_sub hdvd (h.sector_dvd_pending hopen haligned)
    rcases Nat.le_total (w.chunkSize - w.pending.length) (w.sourceSize - w.offset) with hle | hge
    · rw [Nat.min_eq_left hle] at hsize
      refine ⟨by omega, by omega, hsize ▸ hroom, fun hnil => absurd hnil hpending, .inl ?_⟩
      have hsum : w.offset + w.readSize = w.hashed.length + w.chunkSize := by omega
      rw [hsum]
      exact Nat.dvd_add hhashed (Nat.dvd_refl _)
    · rw [Nat.min_eq_right hge] at hsize
      exact ⟨by omega, by omega, hsize ▸ hrest, fun hnil => absurd hnil hpending, .inr (by omega)⟩

/-- A record of a substitution changes the ranges and their count only. -/
theorem recordSubstitution_eq {maximumRanges : Nat} (h : w.recordSubstitution maximumRanges = .ok w') :
    w' = { w with errors := w'.errors, substitutedSectors := w.substitutedSectors + 1 } := by
  obtain ⟨_, _, h⟩ := bind_eq_ok.mp h
  split at h
  · split at h
    · cases h
      rfl
    · obtain ⟨_, _, hw'⟩ := bind_eq_ok.mp h
      cases hw'
      rfl
  · obtain ⟨_, _, hw'⟩ := bind_eq_ok.mp h
    cases hw'
    rfl

theorem Consistent.recorded {maximumRanges : Nat} (h : Consistent codec w)
    (hrecord : w.recordSubstitution maximumRanges = .ok w') : Consistent codec w' := by
  rw [recordSubstitution_eq hrecord]
  obtain ⟨⟨hsector, hchunk, hsegment, hsc, hss, hcompression, hmedia, hle⟩, hhealthy, hpending,
    hsequence, hunsealed, hfinished⟩ := h
  exact ⟨⟨hsector, hchunk, hsegment, hsc, hss, hcompression, hmedia, hle⟩, hhealthy, hpending,
    hsequence, hunsealed, hfinished⟩

end AcquisitionWriter

section Turns

variable {σ : Type} {codec : Codec} {env : Environment σ} {options : AcquisitionReadOptions}
  {faulty : Prop} {Good : Nat → Bytes → Prop} {limit : Nat}
  {I : Core → List (Nat × Bytes) → Prop} {w : AcquisitionWriter} {attempts : List (Nat × Bytes)}

/-- The writer between two turns. -/
structure Between (codec : Codec) (faulty : Prop) (options : AcquisitionReadOptions)
    (I : Core → List (Nat × Bytes) → Prop) (w : AcquisitionWriter)
    (attempts : List (Nat × Bytes)) : Prop where
  consistent : Consistent codec w
  budget : w.Budget faulty options
  aligned : w.bytesPerSector ∣ w.offset
  kept : I w.core attempts

/-- The loop stands `size` bytes behind `w`. -/
def Reached (codec : Codec) (faulty : Prop) (options : AcquisitionReadOptions)
    (I : Core → List (Nat × Bytes) → Prop) (w : AcquisitionWriter) (size : Nat)
    (s : State σ) : Prop :=
  ∃ w' attempts, At w' attempts s ∧ Between codec faulty options I w' attempts ∧
    SameGeometry w w' ∧ w'.offset = w.offset + size

/-- A fault behind whole sectors. -/
def Stopped (codec : Codec) (faulty : Prop) (I : Core → List (Nat × Bytes) → Prop)
    (s : State σ) : Prop :=
  faulty ∧ ∃ w attempts, At w attempts s ∧ w.bytesPerSector ∣ w.offset ∧ I w.core attempts ∧
    (w.failed = true ∨ Consistent codec w)

theorem Between.stopped (h : Between codec faulty options I w attempts) {s : State σ}
    (hs : faulty ∧ At w attempts s) : Stopped codec faulty I s :=
  ⟨hs.1, w, attempts, hs.2, h.aligned, h.kept, .inr h.consistent⟩

/-- The sector that is accepted next, read or replaced. -/
def SectorRead (codec : Codec) (faulty : Prop) (options : AcquisitionReadOptions)
    (I : Core → List (Nat × Bytes) → Prop) (w : AcquisitionWriter) (sector : Bytes)
    (s : State σ) : Prop :=
  sector.length = w.bytesPerSector ∧ ∃ w' attempts, At w' attempts s ∧ Consistent codec w' ∧
    w'.Budget faulty options ∧ SameGeometry w w' ∧ w'.offset = w.offset ∧
    I (w'.core.accept sector) attempts

theorem triple_acquireSector (hfaults : Faults env faulty) (hreads : Reads env faulty Good limit)
    (hkeeps : Keeps faulty Good I) (h : Between codec faulty options I w attempts)
    (hopen : w.offset < w.sourceSize) (hlimit : w.sourceSize ≤ limit) :
    Triple (At w attempts) (acquireSector codec env options w.bytesPerSector)
      (fun _ => Reached codec faulty options I w w.bytesPerSector)
      fun _ => Stopped codec faulty I := by
  have hsector : w.offset + w.bytesPerSector ≤ w.sourceSize :=
    le_sub_of_dvd h.aligned h.consistent.laid.sector_dvd_source hopen
  refine Triple.bind ((triple_attemptSector hreads (by omega) options.retries false).weaken
    (fun _ hs => hs) (fun _ _ hs => hs) fun _ _ hs => h.stopped hs) fun result => ?_
  refine Triple.bind (Q := SectorRead codec faulty options I w) ?_ fun sector => ?_
  · cases result with
    | ok bytes =>
      refine triple_pure fun s hs => ?_
      obtain ⟨⟨hlength, hgood⟩, hat⟩ := hs
      refine ⟨hlength, w, _, hat, h.consistent, h.budget, .refl w, rfl, ?_⟩
      have hkept := hkeeps.attempt h.kept hgood
      have hgood' : Good w.offset (bytes ++ []) := (List.append_nil bytes).symm ▸ hgood
      refine hkeeps.accept h.consistent.laid h.aligned hkept hgood' ?_ ?_ ?_
      · rw [List.append_nil]
        exact List.mem_append_right _ List.mem_cons_self
      · rw [hlength]
        exact Nat.dvd_refl _
      · rw [hlength]
        exact hsector
    | error kind =>
      refine triple_ite (fun _ => triple_throw fun _ hs => h.stopped hs) fun _ => ?_
      refine Triple.of_fact (p := faulty) (fun hfaulty => ?_) fun s hs => hs.1
      refine Triple.of_pre (P := At w attempts) (triple_writer_bind ?_) fun _ hs => hs.2
      refine triple_fromResult_bind (fun recorded hrecord => ?_) fun e s _ hs => h.stopped ⟨hfaulty, hs⟩
      refine triple_modifyWriter_bind (triple_pure fun s hs => ?_)
      have hsame := recordSubstitution_eq hrecord
      have hkept := hkeeps.substitute hfaulty h.consistent.laid h.aligned h.kept hrecord hsector
      refine ⟨List.length_replicate, recorded, attempts, hs, h.consistent.recorded hrecord,
        .inl hfaulty, ?_, by rw [hsame], hkept⟩
      rw [hsame]
      exact ⟨rfl, rfl, rfl⟩
  · refine Triple.of_state fun s₀ hs₀ => ?_
    obtain ⟨hlength, w', attempts', hat, hconsistent, hbudget, hsame, hoffset, hkept⟩ := hs₀
    have haligned : w'.bytesPerSector ∣ w'.offset := by
      rw [hsame.bytesPerSector, hoffset]
      exact h.aligned
    have hfits : w'.Fits sector := by
      refine hconsistent.fits_sector ?_ haligned (hlength.trans hsame.bytesPerSector.symm)
      rw [hoffset, hsame.sourceSize]
      exact hopen
    have hafter : w.bytesPerSector ∣ w.offset + sector.length := by
      rw [hlength]
      exact Nat.dvd_add h.aligned (Nat.dvd_refl _)
    refine Triple.weaken (P := At w' attempts') (triple_writeSector hfaults hconsistent hbudget hfits)
      (fun s hs => hs ▸ hat) ?_ ?_
    · rintro _ s ⟨v, hv, hvconsistent, hvbudget, hvcore⟩
      have hvsame : SameGeometry w v := hsame.trans (.of_core hvcore)
      have hvoffset : v.offset = w.offset + sector.length := by
        rw [← hoffset]
        exact congrArg Core.offset hvcore
      refine ⟨v, attempts', hv, ⟨hvconsistent, hvbudget, ?_, hvcore ▸ hkept⟩, hvsame, ?_⟩
      · rw [hvsame.bytesPerSector, hvoffset]
        exact hafter
      · rw [hvoffset, hlength]
    · rintro _ s ⟨hfaulty, v, hv, hvcore, hstate⟩
      have hvsame : SameGeometry w v := hsame.trans (.of_core hvcore)
      have hvoffset : v.offset = w.offset + sector.length := by
        rw [← hoffset]
        exact congrArg Core.offset hvcore
      refine ⟨hfaulty, v, attempts', hv, ?_, hvcore ▸ hkept, hstate⟩
      rw [hvsame.bytesPerSector, hvoffset]
      exact hafter

theorem triple_acquireSectors (hfaults : Faults env faulty) (hreads : Reads env faulty Good limit)
    (hkeeps : Keeps faulty Good I) {count : Nat} (h : Between codec faulty options I w attempts)
    (hsource : w.offset + count * w.bytesPerSector ≤ w.sourceSize) (hlimit : w.sourceSize ≤ limit) :
    Triple (At w attempts)
      (acquireSectors codec env options (List.replicate count w.bytesPerSector))
      (fun _ => Reached codec faulty options I w (count * w.bytesPerSector))
      fun _ => Stopped codec faulty I := by
  induction count generalizing w attempts with
  | zero =>
    exact triple_pure fun s hs => ⟨w, attempts, hs, h, .refl w, by rw [Nat.zero_mul, Nat.add_zero]⟩
  | succ count ih =>
    have hpos : 0 < w.bytesPerSector := h.consistent.laid.sector_pos
    rw [Nat.add_mul, Nat.one_mul] at hsource
    refine Triple.bind (triple_acquireSector hfaults hreads hkeeps h (by omega) hlimit)
      fun _ => Triple.of_state ?_
    rintro s₀ ⟨w', attempts', hat, hbetween, hsame, hoffset⟩
    have hrest := ih hbetween (by rw [hoffset, hsame.bytesPerSector, hsame.sourceSize]; omega)
      (by rw [hsame.sourceSize]; exact hlimit)
    rw [hsame.bytesPerSector] at hrest
    refine hrest.weaken (fun s hs => hs ▸ hat) ?_ fun _ _ hs => hs
    rintro _ s ⟨v, more, hv, hvbetween, hvsame, hvoffset⟩
    refine ⟨v, more, hv, hvbetween, hsame.trans hvsame, ?_⟩
    rw [hvoffset, hoffset, Nat.add_mul, Nat.one_mul]
    omega

/-- A batch of a writer at a chunk boundary. -/
theorem triple_appendHealthyBatch (hfaults : Faults env faulty) {bytes : Bytes}
    (h : Consistent codec w) (hbudget : w.Budget faulty options) (hpending : w.pending = [])
    (hne : bytes ≠ []) (hsource : bytes.length ≤ w.sourceSize - w.offset)
    (hwhole : w.chunkSize ∣ bytes.length ∨ w.offset + bytes.length = w.sourceSize) :
    Triple (At w attempts) (appendHealthyBatch codec env options bytes)
      (fun _ => Advanced codec faulty options w bytes attempts)
      fun _ => HaltedWithin codec faulty w bytes attempts := by
  obtain ⟨encoded, hmap, hencoded⟩ : ∃ encoded,
      (pieces w.chunkSize bytes).mapM (w.encode codec) = .ok encoded ∧
        List.Forall₂ (fun chunk encoded => w.encode codec chunk = .ok encoded)
          (pieces w.chunkSize bytes) encoded := exists_mapM_encode h.laid.compression _
  have hlength := h.hashed_length
  rw [hpending, List.length_nil, Nat.add_zero] at hlength
  have hpos : 0 < bytes.length := List.length_pos_iff.mpr hne
  have hboundary : w.chunkSize ∣ w.offset ∨ w.offset = w.sourceSize :=
    .inl (hlength ▸ h.chunk_dvd_hashed (by omega))
  have haccepted : ¬ (w.pending ≠ [] ∨ bytes = [] ∨ w.sourceSize - w.offset < bytes.length) := by
    rintro (hne' | hnil | hlt)
    · exact hne' hpending
    · exact hne hnil
    · omega
  refine triple_ensureHealthy_bind h.healthy (triple_writer_bind ?_)
  rw [if_neg haccepted]
  refine Triple.bind (Q := fun found s => found = encoded ∧ At w attempts s) ?_ fun found => ?_
  · rw [hmap]
    exact fun s hs => ⟨rfl, hs⟩
  · refine Triple.of_fact (p := found = encoded) (fun hfound => ?_) fun s hs => hs.1
    rw [hfound]
    exact (triple_storeBatch hfaults h hbudget hboundary hsource hwhole hencoded).of_pre
      fun _ hs => hs.2

/-- A batch that does not start at a chunk boundary is refused. -/
theorem triple_appendHealthyBatch_pending {bytes : Bytes} (hhealthy : w.failed = false)
    (hpending : w.pending ≠ []) :
    Triple (At w attempts) (appendHealthyBatch codec env options bytes) (fun _ _ => False)
      fun e s => e = .malformed "invalid healthy acquisition batch" ∧ At w attempts s := by
  refine triple_ensureHealthy_bind hhealthy (triple_writer_bind ?_)
  rw [if_pos (.inl hpending)]
  exact triple_throw fun s hs => ⟨rfl, hs⟩

/-- The bytes of a bulk read are accepted. -/
theorem triple_acquireBatch (hfaults : Faults env faulty) (hkeeps : Keeps faulty Good I)
    {bytes : Bytes} (h : Between codec faulty options I w attempts)
    (hopen : w.offset < w.sourceSize) (hpending : w.pending = [])
    (hlength : bytes.length = w.readSize) (hgood : Good w.offset bytes) :
    Triple (At w (attempts ++ [(w.offset, bytes)])) (appendHealthyBatch codec env options bytes)
      (fun _ => Reached codec faulty options I w w.readSize) fun _ => Stopped codec faulty I := by
  obtain ⟨hpos, hle, hsectors, hwhole, -⟩ := h.consistent.readSize hopen h.aligned
  have hdvd : w.bytesPerSector ∣ w.chunkSize := h.consistent.laid.sector_dvd_chunk
  have haccept : ∀ done, done <+: bytes → w.bytesPerSector ∣ done.length →
      I (w.core.accept done) (attempts ++ [(w.offset, bytes)]) := by
    rintro done ⟨behind, rfl⟩ hdone
    refine hkeeps.accept h.consistent.laid h.aligned (hkeeps.attempt h.kept hgood) hgood
      (List.mem_append_right _ List.mem_cons_self) hdone ?_
    rw [List.length_append] at hlength
    change w.offset + done.length ≤ w.sourceSize
    omega
  have hstands : ∀ {done : Bytes} {v : AcquisitionWriter}, v.core = w.core.accept done →
      w.bytesPerSector ∣ done.length → v.bytesPerSector ∣ v.offset := by
    intro done v hcore hdone
    have hoffset : v.offset = w.offset + done.length := congrArg Core.offset hcore
    rw [(SameGeometry.of_core hcore).bytesPerSector, hoffset]
    exact Nat.dvd_add h.aligned hdone
  refine (triple_appendHealthyBatch hfaults h.consistent h.budget hpending
    (List.length_pos_iff.mp (by omega)) (by omega) (hlength ▸ hwhole hpending)).weaken
    (fun _ hs => hs) ?_ ?_
  · rintro _ s ⟨v, hv, hconsistent, hbudget, hcore⟩
    have hall : w.bytesPerSector ∣ bytes.length := hlength ▸ hsectors
    refine ⟨v, _, hv, ⟨hconsistent, hbudget, hstands hcore hall, ?_⟩, .of_core hcore, ?_⟩
    · rw [hcore]
      exact haccept bytes (List.prefix_refl _) hall
    · rw [← hlength]
      exact congrArg Core.offset hcore
  · rintro _ s ⟨done, hpart, hdone, hfaulty, v, hv, hcore, hstate⟩
    have hdoneDvd : w.bytesPerSector ∣ done.length := by
      rcases hdone with hchunks | rfl
      · exact Nat.dvd_trans hdvd hchunks
      · exact hlength ▸ hsectors
    refine ⟨hfaulty, v, _, hv, hstands hcore hdoneDvd, ?_, hstate⟩
    rw [hcore]
    exact haccept done hpart hdoneDvd

/-- One turn ends at a chunk boundary. -/
theorem triple_acquireTurn (hfaults : Faults env faulty) (hreads : Reads env faulty Good limit)
    (hkeeps : Keeps faulty Good I) (h : Between codec faulty options I w attempts)
    (hopen : w.offset < w.sourceSize) (hlimit : w.sourceSize ≤ limit) (hready : faulty ∨ w.Ready) :
    Triple (At w attempts) (acquireTurn codec env options)
      (fun _ => Reached codec faulty options I w w.readSize) fun _ => Stopped codec faulty I := by
  have hsize := h.consistent.readSize hopen h.aligned
  have hle := hsize.le
  refine triple_writer_bind (Triple.bind ((triple_bulkRead hreads
    (by omega)).weaken (fun _ hs => hs) (fun _ _ hs => hs) fun _ _ hs => h.stopped hs) fun bulk => ?_)
  cases bulk with
  | some bytes =>
    refine Triple.of_fact (p := (bytes.length = w.readSize ∧ Good w.offset bytes) ∧
      w.bytesPerSector < w.readSize) ?_ fun s hs => ⟨hs.1, hs.2.1⟩
    rintro ⟨⟨hlength, hgood⟩, hlong⟩
    by_cases hpending : w.pending = []
    · exact (triple_acquireBatch hfaults hkeeps h hopen hpending hlength hgood).of_pre
        fun s hs => hs.2.2
    · have hfaulty : faulty := by
        refine hready.resolve_right fun hready => ?_
        rcases hready with hnil | hshort
        · exact hpending hnil
        · omega
      refine (triple_appendHealthyBatch_pending h.consistent.healthy hpending).weaken
        (fun s hs => hs.2.2) (fun _ _ hs => hs.elim) fun _ s hs => ?_
      exact ⟨hfaulty, w, _, hs.2, h.aligned, hkeeps.attempt h.kept hgood, .inr h.consistent⟩
  | none =>
    have hsector : 0 < w.bytesPerSector := h.consistent.laid.sector_pos
    have hsizes : sectorSizes w.readSize w.bytesPerSector =
        List.replicate (w.readSize / w.bytesPerSector) w.bytesPerSector := by
      unfold sectorSizes
      rw [map_length_pieces hsector (by rw [List.length_range]; exact hsize.aligned),
        List.length_range]
    have hcount : w.readSize / w.bytesPerSector * w.bytesPerSector = w.readSize :=
      Nat.div_mul_cancel hsize.aligned
    have hsectors : Triple (At w attempts)
        (acquireSectors codec env options
          (List.replicate (w.readSize / w.bytesPerSector) w.bytesPerSector))
        (fun _ => Reached codec faulty options I w (w.readSize / w.bytesPerSector * w.bytesPerSector))
        fun _ => Stopped codec faulty I :=
      triple_acquireSectors hfaults hreads hkeeps h (by omega) hlimit
    rw [hcount] at hsectors
    dsimp only
    rw [hsizes]
    exact hsectors.of_pre fun s hs => hs.2

theorem Reached.ready {size : Nat} {s : State σ} (h : Reached codec faulty options I w size s)
    (hboundary : w.chunkSize ∣ w.offset + size ∨ w.offset + size = w.sourceSize) :
    ∃ w' attempts, At w' attempts s ∧ Between codec faulty options I w' attempts ∧
      SameGeometry w w' ∧ w'.offset = w.offset + size ∧ w'.Ready := by
  obtain ⟨w', attempts, hat, hbetween, hsame, hoffset⟩ := h
  refine ⟨w', attempts, hat, hbetween, hsame, hoffset, hbetween.consistent.ready ?_⟩
  unfold AtBoundary
  rw [hoffset, hsame.chunkSize, hsame.sourceSize]
  exact hboundary

/-- The turns reach the end of the source. -/
theorem triple_acquireTurns (hfaults : Faults env faulty) (hreads : Reads env faulty Good limit)
    (hkeeps : Keeps faulty Good I) {fuel : Nat} (h : Between codec faulty options I w attempts)
    (hlimit : w.sourceSize ≤ limit) (hready : faulty ∨ w.Ready)
    (hfuel : w.sourceSize - w.offset ≤ fuel) :
    Triple (At w attempts) (acquireTurns codec env options fuel)
      (fun _ => Reached codec faulty options I w (w.sourceSize - w.offset))
      fun _ => Stopped codec faulty I := by
  induction fuel generalizing w attempts with
  | zero =>
    exact triple_pure fun s hs => ⟨w, attempts, hs, h, .refl w, by omega⟩
  | succ fuel ih =>
    refine triple_writer_bind ?_
    by_cases hopen : w.offset < w.sourceSize
    · rw [if_pos hopen]
      have hsize := h.consistent.readSize hopen h.aligned
      have hpos := hsize.pos
      have hle := hsize.le
      refine Triple.bind (triple_acquireTurn hfaults hreads hkeeps h hopen hlimit hready)
        fun _ => Triple.of_state fun s₀ hs₀ => ?_
      obtain ⟨w', attempts', hat, hbetween, hsame, hoffset, hready'⟩ := hs₀.ready hsize.boundary
      have hsource := hsame.sourceSize
      refine (ih hbetween (by omega) (.inr hready') (by omega)).weaken (fun s hs => hs ▸ hat) ?_
        fun _ _ hs => hs
      rintro _ s ⟨v, more, hv, hvbetween, hvsame, hvoffset⟩
      exact ⟨v, more, hv, hvbetween, hsame.trans hvsame, by omega⟩
    · rw [if_neg hopen]
      exact triple_pure fun s hs => ⟨w, attempts, hs, h, .refl w, by omega⟩

theorem triple_acquireLoop (hfaults : Faults env faulty) (hreads : Reads env faulty Good limit)
    (hkeeps : Keeps faulty Good I) (h : Between codec faulty options I w attempts)
    (hlimit : w.sourceSize ≤ limit) (hready : faulty ∨ w.Ready) :
    Triple (At w attempts) (acquireLoop codec env options)
      (fun _ => Reached codec faulty options I w (w.sourceSize - w.offset))
      fun _ => Stopped codec faulty I := by
  refine Triple.bind ((triple_notify hfaults).weaken (fun _ hs => hs) (fun _ _ hs => hs)
    fun _ _ hs => h.stopped hs) fun _ => triple_writer_bind ?_
  exact triple_acquireTurns hfaults hreads hkeeps h hlimit hready (Nat.le_refl _)

end Turns

end EwfImage.Acquisition
