import EwfImage.Acquisition.Effects

/-!
# Consistent writers

Between two operations the chunks of a healthy writer, sealed or not, are the encoded
pieces of the hashed media, and the pending bytes are what is left of the accepted
media. The state of the writer is therefore a function of the accepted media, however
they have been written.

The main results are `Consistent.acceptChunk_eq`, what accepting a chunk makes of a consistent
writer, and `Consistent.unique`: two consistent writers over the same media are the same. The
encoder is a parameter, and the same one for both.
-/

namespace EwfImage.Acquisition

open Fallible Word Pieces

namespace AcquisitionWriter

/-- The geometry of a writer and the length of its media. -/
structure Laid (c : Core) : Prop where
  sector_pos : 0 < c.bytesPerSector
  chunk_pos : 0 < c.chunkSize
  segment_pos : 0 < c.chunksPerSegment
  sector_dvd_chunk : c.bytesPerSector ∣ c.chunkSize
  sector_dvd_source : c.bytesPerSector ∣ c.sourceSize
  compression : c.compression ≠ .bzip2
  media_length : c.media.length = c.offset
  offset_le : c.offset ≤ c.sourceSize

/-- What holds between two operations of a healthy writer. -/
structure Consistent (codec : Codec) (w : AcquisitionWriter) : Prop where
  laid : Laid w.core
  healthy : w.failed = false
  pending_lt : w.pending.length < w.chunkSize
  sequence : List.Forall₂ (fun chunk encoded => w.encode codec chunk = .ok encoded)
    (pieces w.chunkSize w.hashed) w.sequence
  unsealed : w.offset < w.sourceSize → w.chunkSize ∣ w.checkpointOffset ∧
    w.checkpointOffset + w.chunks.length * w.chunkSize = w.hashed.length ∧
    w.chunks.length < w.chunksPerSegment
  finished : w.offset = w.sourceSize →
    w.pending = [] ∧ w.chunks = [] ∧ w.checkpointOffset = w.sourceSize

variable {codec : Codec} {w w' : AcquisitionWriter}

/-- Without bzip2 every chunk has an encoding. -/
theorem exists_encode (h : w.compression ≠ .bzip2) (chunk : Bytes) :
    ∃ encoded, w.encode codec chunk = .ok encoded := by
  unfold encode encodeChunk
  cases hcompression : w.compression with
  | none => exact ⟨_, rfl⟩
  | zlib =>
    simp only [Bool.false_eq_true, if_false, Bool.false_and]
    split
    · exact ⟨_, rfl⟩
    · exact ⟨_, rfl⟩
  | bzip2 => exact absurd hcompression h

namespace Consistent

theorem hashed_length (h : Consistent codec w) : w.hashed.length + w.pending.length = w.offset := by
  have hmedia := h.laid.media_length
  simpa [core, media] using hmedia

theorem chunk_dvd_hashed (h : Consistent codec w) (hopen : w.offset < w.sourceSize) :
    w.chunkSize ∣ w.hashed.length := by
  obtain ⟨hdvd, hlength, -⟩ := h.unsealed hopen
  rw [← hlength]
  exact Nat.dvd_add hdvd (Nat.dvd_mul_left ..)

/-- Unsealed chunks lie behind the checkpoint. -/
theorem checkpoint_lt (h : Consistent codec w) (hchunks : w.chunks ≠ []) :
    w.checkpointOffset < w.sourceSize := by
  have hle := h.laid.offset_le
  have hhashed := h.hashed_length
  rcases Nat.lt_or_ge w.offset w.sourceSize with hopen | hge
  · obtain ⟨-, hlength, -⟩ := h.unsealed hopen
    have hpos : 0 < w.chunks.length * w.chunkSize :=
      Nat.mul_pos (List.length_pos_iff.mpr hchunks) h.laid.chunk_pos
    omega
  · exact absurd (h.finished (Nat.le_antisymm hle hge)).2.1 hchunks

end Consistent

/-! ## Sealing -/

theorem sequence_withSeal (finalSegment : Bool) : (w.withSeal finalSegment).sequence = w.sequence := by
  simp [sequence, withSeal, nextSeal]

theorem checkpointOffset_withSeal (finalSegment : Bool) :
    (w.withSeal finalSegment).checkpointOffset = w.offset - w.pending.length := by
  simp [checkpointOffset, withSeal, nextSeal]

theorem Consistent.checkpointed (h : Consistent codec w) : Consistent codec w.checkpointed := by
  unfold AcquisitionWriter.checkpointed
  split
  · rename_i hchunks
    have hlength := h.hashed_length
    refine ⟨h.laid, h.healthy, h.pending_lt, ?_, ?_, ?_⟩
    · rw [sequence_withSeal]
      exact h.sequence
    · intro hopen
      have hstop : w.offset - w.pending.length = w.hashed.length := by omega
      rw [checkpointOffset_withSeal, hstop]
      exact ⟨h.chunk_dvd_hashed hopen, by simp [withSeal], h.laid.segment_pos⟩
    · intro hdone
      exact absurd (h.finished hdone).2.1 hchunks
  · exact h

theorem Consistent.afterWrite (h : Consistent codec w) (options : AcquisitionReadOptions) :
    Consistent codec (w.afterWrite options) := by
  unfold AcquisitionWriter.afterWrite
  split
  · exact h.checkpointed
  · exact h

/-! ## Storing a chunk -/

/-- The writer with one more chunk hashed and nothing pending. -/
def hashing (w : AcquisitionWriter) (chunk : Bytes) : AcquisitionWriter :=
  { w with
    hashed := w.hashed ++ chunk
    pending := []
    offset := w.hashed.length + chunk.length }

/-- Storing the next chunk of the media, which is short only at the end of the source. -/
theorem Consistent.stored {chunk : Bytes} {encoded : EncodedChunk} (h : Consistent codec w)
    (hopen : w.offset < w.sourceSize) (hne : chunk ≠ []) (hle : chunk.length ≤ w.chunkSize)
    (hsource : w.hashed.length + chunk.length ≤ w.sourceSize)
    (hwhole : chunk.length = w.chunkSize ∨ w.hashed.length + chunk.length = w.sourceSize)
    (hencode : w.encode codec chunk = .ok encoded) :
    Consistent codec ((w.hashing chunk).store encoded).sealedIfFull := by
  obtain ⟨hdvd, hlength, hcount⟩ := h.unsealed hopen
  have hpieces : pieces w.chunkSize (w.hashed ++ chunk) = pieces w.chunkSize w.hashed ++ [chunk] := by
    have hpos : 0 < w.chunkSize := h.laid.chunk_pos
    rw [pieces_append hpos (h.chunk_dvd_hashed hopen), pieces_of_length_le hne hle]
  have hsequence : ((w.hashing chunk).store encoded).sequence = w.sequence ++ [encoded] := by
    simp [AcquisitionWriter.sequence, hashing, store]
  have hforall : List.Forall₂ (fun chunk encoded => w.encode codec chunk = .ok encoded)
      (pieces w.chunkSize (w.hashed ++ chunk)) ((w.hashing chunk).store encoded).sequence := by
    rw [hpieces, hsequence]
    exact List.rel_append h.sequence (.cons hencode .nil)
  have hlaid : Laid ((w.hashing chunk).store encoded).core := by
    refine ⟨h.laid.sector_pos, h.laid.chunk_pos, h.laid.segment_pos, h.laid.sector_dvd_chunk,
      h.laid.sector_dvd_source, h.laid.compression, ?_, hsource⟩
    simp [core, media, hashing, store]
  unfold sealedIfFull
  by_cases hfull : ((w.hashing chunk).store encoded).IsFull
  · rw [if_pos hfull]
    refine ⟨hlaid, h.healthy, h.laid.chunk_pos, ?_, ?_, ?_⟩
    · rw [sequence_withSeal]
      exact hforall
    · intro hopen'
      have hchunk : chunk.length = w.chunkSize := by
        refine hwhole.resolve_right fun hend => ?_
        have hoffset : (w.hashing chunk).offset < w.sourceSize := hopen'
        simp only [hashing, hend, Nat.lt_irrefl] at hoffset
      rw [checkpointOffset_withSeal]
      refine ⟨?_, ?_, h.laid.segment_pos⟩
      · simp only [hashing, store, List.length_nil, Nat.sub_zero, hchunk]
        exact Nat.dvd_add (h.chunk_dvd_hashed hopen) (Nat.dvd_refl _)
      · simp [hashing, store, withSeal]
    · intro hdone
      rw [checkpointOffset_withSeal]
      exact ⟨rfl, rfl, hdone⟩
  · rw [if_neg hfull]
    unfold IsFull at hfull
    rw [not_or] at hfull
    obtain ⟨hnot, hoffset⟩ := hfull
    refine ⟨hlaid, h.healthy, h.laid.chunk_pos, hforall, ?_, fun hdone => absurd hdone hoffset⟩
    intro _
    have hchunk : chunk.length = w.chunkSize := hwhole.resolve_right hoffset
    refine ⟨hdvd, ?_, ?_⟩
    · change w.checkpointOffset + (w.chunks ++ [encoded]).length * w.chunkSize =
        (w.hashed ++ chunk).length
      rw [List.length_append, List.length_append, List.length_singleton, Nat.add_mul, hchunk]
      omega
    · change (w.chunks ++ [encoded]).length < w.chunksPerSegment
      have hnot' : (w.chunks ++ [encoded]).length ≠ w.chunksPerSegment := hnot
      rw [List.length_append, List.length_singleton] at hnot' ⊢
      omega

/-- Written bytes are accepted behind the media. -/
theorem Wrote.core {bytes : Bytes} (h : w.Wrote codec bytes w') :
    w'.core = (w.accept bytes).core := by
  unfold Wrote at h
  split at h
  · obtain ⟨encoded, -, rfl⟩ := h
    simp
  · rw [h]

/-- Written bytes complete the pending chunk or wait in it. -/
theorem Consistent.wrote_cases {bytes : Bytes} (h : Consistent codec w) (hfits : w.Fits bytes)
    (hwrote : w.Wrote codec bytes w') :
    (w' = w.accept bytes ∧ w.pending.length + bytes.length < w.chunkSize ∧
      w.offset + bytes.length < w.sourceSize) ∨
    ∃ encoded, w.encode codec (w.pending ++ bytes) = .ok encoded ∧
      w' = ((w.hashing (w.pending ++ bytes)).store encoded).sealedIfFull ∧
      ((w.pending ++ bytes).length = w.chunkSize ∨
        w.hashed.length + (w.pending ++ bytes).length = w.sourceSize) := by
  have hlength := h.hashed_length
  have hle : w.offset ≤ w.sourceSize := h.laid.offset_le
  have hpending := h.pending_lt
  have hchunkFit := hfits.chunk
  have hsourceFit := hfits.source
  unfold Wrote at hwrote
  split at hwrote
  · rename_i hcomplete
    obtain ⟨encoded, hencode, rfl⟩ := hwrote
    have hcomplete : (w.pending ++ bytes).length = w.chunkSize ∨
        w.offset + bytes.length = w.sourceSize := hcomplete
    have hflushed : (w.accept bytes).flushed = w.hashing (w.pending ++ bytes) := by
      unfold flushed accept hashing
      simp only [List.length_append]
      congr 1
      omega
    refine .inr ⟨encoded, hencode, by rw [hflushed], hcomplete.imp_right fun hend => ?_⟩
    rw [List.length_append]
    omega
  · rename_i hcomplete
    have hnot : ¬ ((w.pending ++ bytes).length = w.chunkSize ∨
        w.offset + bytes.length = w.sourceSize) := hcomplete
    rw [List.length_append, not_or] at hnot
    exact .inl ⟨hwrote, by omega, by omega⟩

theorem Fits.open_ {bytes : Bytes} (hfits : w.Fits bytes) : w.offset < w.sourceSize := by
  have hpos : 0 < bytes.length := List.length_pos_iff.mpr hfits.ne_nil
  have hsource := hfits.source
  omega

/-- The chunk that written bytes complete. -/
theorem Consistent.completed_fits {bytes : Bytes} (h : Consistent codec w) (hfits : w.Fits bytes) :
    w.pending ++ bytes ≠ [] ∧ (w.pending ++ bytes).length ≤ w.chunkSize ∧
      w.hashed.length + (w.pending ++ bytes).length ≤ w.sourceSize := by
  have hlength := h.hashed_length
  have hpending := h.pending_lt
  have hchunkFit := hfits.chunk
  have hsourceFit := hfits.source
  have hopen := hfits.open_
  rw [List.length_append]
  exact ⟨by simp [hfits.ne_nil], by omega, by omega⟩

theorem Consistent.wrote {bytes : Bytes} (h : Consistent codec w) (hfits : w.Fits bytes)
    (hwrote : w.Wrote codec bytes w') : Consistent codec w' := by
  rcases h.wrote_cases hfits hwrote with ⟨rfl, hpending, hoffset⟩ | ⟨encoded, hencode, rfl, hwhole⟩
  · have hlaid : Laid (w.accept bytes).core := by
      refine ⟨h.laid.sector_pos, h.laid.chunk_pos, h.laid.segment_pos, h.laid.sector_dvd_chunk,
        h.laid.sector_dvd_source, h.laid.compression, ?_, Nat.le_of_lt hoffset⟩
      have hmedia := h.laid.media_length
      rw [core_accept]
      simp only [Core.accept, List.length_append, hmedia]
    refine ⟨hlaid, h.healthy, ?_, h.sequence, fun _ => h.unsealed hfits.open_,
      fun hdone => absurd hdone (Nat.ne_of_lt hoffset)⟩
    change (w.pending ++ bytes).length < w.chunkSize
    rw [List.length_append]
    exact hpending
  · obtain ⟨hne, hle, hsource⟩ := h.completed_fits hfits
    exact h.stored hfits.open_ hne hle hsource hwhole hencode

/-- A chunk of a batch is stored as a written one. -/
theorem Consistent.acceptChunk_eq {chunk : Bytes} (h : Consistent codec w) (hpending : w.pending = []) :
    w.acceptChunk chunk = w.hashing chunk ∧ w.hashed.length = w.offset := by
  have hlength := h.hashed_length
  rw [hpending, List.length_nil, Nat.add_zero] at hlength
  refine ⟨?_, hlength⟩
  unfold acceptChunk hashing
  rw [hpending, hlength]

/-! ## Writers with the same media -/

/-- The hashed bytes, the pending bytes and the chunk sequence of a consistent writer are determined
by its geometry and the accepted media. -/
theorem Consistent.unique {v : AcquisitionWriter} (h : Consistent codec w) (hv : Consistent codec v)
    (hcore : v.core = w.core) : v.hashed = w.hashed ∧ v.pending = w.pending ∧
      v.sequence = w.sequence := by
  have hmedia : v.hashed ++ v.pending = w.hashed ++ w.pending := congrArg Core.media hcore
  have hoffset : v.offset = w.offset := congrArg Core.offset hcore
  have hsource : v.sourceSize = w.sourceSize := congrArg Core.sourceSize hcore
  have hchunk : v.chunkSize = w.chunkSize := congrArg Core.chunkSize hcore
  have hhashed : v.hashed.length = w.hashed.length := by
    have hw := h.hashed_length
    have hv' := hv.hashed_length
    rcases Nat.lt_or_ge w.offset w.sourceSize with hopen | hge
    · obtain ⟨a, ha⟩ := h.chunk_dvd_hashed hopen
      obtain ⟨b, hb⟩ := hv.chunk_dvd_hashed (by omega)
      have hwlt := h.pending_lt
      have hvlt := hv.pending_lt
      rw [hchunk] at hb hvlt
      have hab : a = b := by
        rcases Nat.lt_trichotomy a b with hlt | heq | hgt
        · have hmul : w.chunkSize * (a + 1) ≤ w.chunkSize * b := Nat.mul_le_mul_left _ hlt
          rw [Nat.mul_add] at hmul
          omega
        · exact heq
        · have hmul : w.chunkSize * (b + 1) ≤ w.chunkSize * a := Nat.mul_le_mul_left _ hgt
          rw [Nat.mul_add] at hmul
          omega
      rw [ha, hb, hab]
    · have hle : w.offset ≤ w.sourceSize := h.laid.offset_le
      have hwnil := (h.finished (by omega)).1
      have hvnil := (hv.finished (by omega)).1
      rw [hwnil] at hw
      rw [hvnil] at hv'
      simp only [List.length_nil, Nat.add_zero] at hw hv'
      omega
  obtain ⟨hsame, hpending⟩ := List.append_inj hmedia hhashed
  refine ⟨hsame, hpending, ?_⟩
  have hcompression : v.compression = w.compression := congrArg Core.compression hcore
  have hvalues : v.compressionValues = w.compressionValues := congrArg Core.compressionValues hcore
  have hencode : v.encode codec = w.encode codec := by
    funext chunk
    unfold encode
    rw [hchunk, hcompression, hvalues]
  have hvsequence := hv.sequence
  rw [hchunk, hsame] at hvsequence
  have hwsequence := h.sequence
  simp only [hencode] at hvsequence
  clear hencode
  generalize pieces w.chunkSize w.hashed = chunks at hvsequence hwsequence
  generalize v.sequence = left at hvsequence
  generalize w.sequence = right at hwsequence
  induction hvsequence generalizing right with
  | nil =>
    cases hwsequence
    rfl
  | cons hhead _ ih =>
    cases hwsequence with
    | cons hhead' htail =>
      rw [hhead] at hhead'
      cases hhead'
      rw [ih _ htail]

end AcquisitionWriter

end EwfImage.Acquisition
