import EwfImage.Acquisition.Consistent

/-!
# The budget of segment names

Every segment but the last one holds at least an interval of media, so the number of
the last segment is known before anything is read. Sealing never raises it, and an
acquisition whose last segment has a name never runs out of names.

`Affordable` is kept by everything an acquisition does, and `Budget.sealsWithin` turns it into
the fact that a seal finds a name. The interval of media in a segment is fixed when the writer
is opened; the count of names is that of `Numbering`.
-/

namespace EwfImage.Acquisition

open Fallible Word

theorem divCeil_pos {n : Nat} (size : Nat) (hn : 0 < n) : 0 < divCeil n size := by
  unfold divCeil
  split
  · rename_i hmod
    rcases Nat.eq_zero_or_pos size with hzero | hpos
    · rw [hzero, Nat.mod_zero] at hmod
      omega
    · exact Nat.div_pos (Nat.le_of_dvd hn (Nat.dvd_of_mod_eq_zero hmod)) hpos
  · exact Nat.succ_pos _

/-- A whole block, or everything, is taken away. -/
theorem divCeil_sub {n size : Nat} (taken : Nat) (hsize : 0 < size) (hn : 0 < n) (hle : taken ≤ n)
    (h : size ≤ taken ∨ taken = n) : divCeil (n - taken) size + 1 ≤ divCeil n size := by
  rcases h with h | rfl
  · have hrest := divCeil_mul_lt (n := n - taken) hsize
    have hall := divCeil_mul_ge (n := n) hsize
    by_contra hlt
    have hmul : divCeil n size * size ≤ divCeil (n - taken) size * size :=
      Nat.mul_le_mul_right _ (by omega)
    omega
  · have hpos := divCeil_pos size hn
    have hzero : divCeil (taken - taken) size = 0 := by simp [divCeil]
    omega

namespace AcquisitionWriter

variable {codec : Codec} {w w' : AcquisitionWriter} {options : AcquisitionReadOptions}
  {faulty : Prop}

/-- The segments that the acquisition can still need have names. -/
structure Affordable (w : AcquisitionWriter) (options : AcquisitionReadOptions) : Prop where
  interval_pos : 0 < w.interval options
  interval_dvd : w.chunkSize ∣ w.interval options
  names : ∀ index ≤ w.finalSegment options, NameOk index

theorem Affordable.of_le (h : w.Affordable options) (hinterval : w'.interval options = w.interval options)
    (hchunk : w'.chunkSize = w.chunkSize)
    (hle : w'.finalSegment options ≤ w.finalSegment options) : w'.Affordable options := by
  refine ⟨?_, ?_, fun index hindex => h.names index (hindex.trans hle)⟩
  · rw [hinterval]
    exact h.interval_pos
  · rw [hinterval, hchunk]
    exact h.interval_dvd

/-- The next segment has a name while media is unsealed. -/
theorem Affordable.nameOk (h : w.Affordable options) (hopen : w.checkpointOffset < w.sourceSize) :
    NameOk (w.sealed.length + 1) := by
  refine h.names _ ?_
  have hpos : 0 < divCeil (w.sourceSize - w.checkpointOffset) (w.interval options) :=
    divCeil_pos _ (by omega)
  unfold finalSegment
  omega

/-- A segment of an interval, or the last one, is sealed. -/
theorem Affordable.withSeal (h : w.Affordable options) (finalSegment : Bool)
    (hopen : w.checkpointOffset < w.sourceSize) (hstop : w.offset - w.pending.length ≤ w.sourceSize)
    (hlong : w.checkpointOffset + w.interval options ≤ w.offset - w.pending.length ∨
      w.offset - w.pending.length = w.sourceSize) :
    (w.withSeal finalSegment).Affordable options := by
  refine h.of_le rfl rfl ?_
  have hinterval := h.interval_pos
  unfold AcquisitionWriter.finalSegment
  rw [checkpointOffset_withSeal]
  have hsub := divCeil_sub (n := w.sourceSize - w.checkpointOffset)
    (w.offset - w.pending.length - w.checkpointOffset) hinterval (by omega) (by omega) (by omega)
  have hrest : w.sourceSize - w.checkpointOffset - (w.offset - w.pending.length - w.checkpointOffset) =
      w.sourceSize - (w.offset - w.pending.length) := by omega
  rw [hrest] at hsub
  change (w.sealed ++ [_]).length + divCeil (w.sourceSize - (w.offset - w.pending.length))
    (w.interval options) ≤ _
  rw [List.length_append, List.length_singleton]
  omega

/-- A stored chunk is sealed with a full segment or at the end of the source. -/
theorem Consistent.affordable_stored {chunk : Bytes} {encoded : EncodedChunk} (h : Consistent codec w)
    (haffordable : w.Affordable options) (hopen : w.offset < w.sourceSize)
    (hsource : w.hashed.length + chunk.length ≤ w.sourceSize)
    (hwhole : chunk.length = w.chunkSize ∨ w.hashed.length + chunk.length = w.sourceSize) :
    ((w.hashing chunk).store encoded).sealedIfFull.Affordable options := by
  have hstored : ((w.hashing chunk).store encoded).Affordable options :=
    haffordable.of_le rfl rfl (Nat.le_refl _)
  unfold sealedIfFull
  split
  · rename_i hfull
    obtain ⟨-, hlength, -⟩ := h.unsealed hopen
    have hhashed := h.hashed_length
    have hstop : ((w.hashing chunk).store encoded).offset -
        ((w.hashing chunk).store encoded).pending.length = w.hashed.length + chunk.length := rfl
    have hinterval : w.interval options ≤ w.chunkSize * w.chunksPerSegment := Nat.min_le_right _ _
    refine hstored.withSeal _ ?_ (hstop ▸ hsource) ?_
    · change w.checkpointOffset < w.sourceSize
      omega
    · rw [hstop]
      change w.checkpointOffset + w.interval options ≤ _ ∨ _ = w.sourceSize
      rcases hwhole with hchunk | hend
      · rcases hfull with hcount | hend
        · have hcount : (w.chunks ++ [encoded]).length = w.chunksPerSegment := hcount
          rw [List.length_append, List.length_singleton] at hcount
          rw [← hcount, Nat.mul_comm, Nat.add_mul] at hinterval
          exact .inl (by omega)
        · exact .inr hend
      · exact .inr hend
  · exact hstored

/-- A checkpoint that is due seals an interval. -/
theorem Consistent.affordable_afterWrite (h : Consistent codec w) (haffordable : w.Affordable options) :
    (w.afterWrite options).Affordable options := by
  unfold AcquisitionWriter.afterWrite
  split
  · rename_i hdue
    unfold AcquisitionWriter.checkpointed
    split
    · rename_i hchunks
      have hopen := h.checkpoint_lt hchunks
      have hle : w.offset ≤ w.sourceSize := h.laid.offset_le
      have hhashed := h.hashed_length
      have hpending := h.pending_lt
      have hoffset : w.offset < w.sourceSize := by
        refine Nat.lt_of_le_of_ne hle fun hdone => hchunks (h.finished hdone).2.1
      obtain ⟨hdvd, hlength, -⟩ := h.unsealed hoffset
      refine haffordable.withSeal _ hopen (by omega) (.inl ?_)
      obtain ⟨interval, hinterval, hdue⟩ : ∃ interval, options.checkpointInterval = some interval ∧
          interval ≤ w.offset - w.checkpointOffset := by simpa [Option.any_eq_true] using hdue
      have hle : w.interval options ≤ interval := by
        unfold AcquisitionWriter.interval
        rw [hinterval]
        exact Nat.min_le_left _ _
      obtain ⟨count, hcount⟩ := haffordable.interval_dvd
      -- The interval is a number of chunks, so the pending bytes do not count.
      have hbound : w.chunkSize * count < w.chunkSize * (w.chunks.length + 1) := by
        rw [Nat.mul_add, Nat.mul_one, Nat.mul_comm w.chunkSize w.chunks.length]
        omega
      have hcounts : count ≤ w.chunks.length := Nat.lt_succ_iff.mp (Nat.lt_of_mul_lt_mul_left hbound)
      have hmul : w.chunkSize * count ≤ w.chunks.length * w.chunkSize := by
        rw [Nat.mul_comm w.chunks.length]
        exact Nat.mul_le_mul_left _ hcounts
      omega
    · exact haffordable
  · exact haffordable

/-- Either the environment may fail, or the segment names suffice. -/
def Budget (faulty : Prop) (options : AcquisitionReadOptions) (w : AcquisitionWriter) : Prop :=
  faulty ∨ w.Affordable options

theorem Budget.sealsWithin (h : w.Budget faulty options) (hopen : w.checkpointOffset < w.sourceSize) :
    w.SealsWithin faulty :=
  h.imp_right fun haffordable => haffordable.nameOk hopen

theorem Consistent.checkpoint_lt_of_open (h : Consistent codec w) (hopen : w.offset < w.sourceSize) :
    w.checkpointOffset < w.sourceSize := by
  obtain ⟨-, hlength, -⟩ := h.unsealed hopen
  have hhashed := h.hashed_length
  omega

theorem Consistent.budget_wrote {bytes : Bytes} (h : Consistent codec w) (hbudget : w.Budget faulty options)
    (hfits : w.Fits bytes) (hwrote : w.Wrote codec bytes w') : w'.Budget faulty options := by
  refine hbudget.imp_right fun haffordable => ?_
  rcases h.wrote_cases hfits hwrote with ⟨rfl, -, -⟩ | ⟨encoded, -, rfl, hwhole⟩
  · exact haffordable.of_le rfl rfl (Nat.le_refl _)
  · obtain ⟨-, -, hsource⟩ := h.completed_fits hfits
    exact h.affordable_stored haffordable hfits.open_ hsource hwhole

end AcquisitionWriter

end EwfImage.Acquisition
