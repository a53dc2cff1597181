import EwfImage.Acquisition.Consistent
import EwfImage.Lib.Slice

/-!
# The provenance of acquired sectors

Every sector that an acquisition adds is a sector of the bytes of one successful read
attempt, or a sector of zeros inside a recorded error range. The invariant is about
the core of the writer and the recorded attempts, so it also holds where a failure of
the destination or a cancellation stops the loop.

`Provenance` is the invariant, `acceptAttempt` and `acceptSubstitute` the two ways to add a
sector. An attempt is recorded with the address and the bytes that the read gave, so the
invariant speaks about what the source answered and not about what the loop made of it.
-/

namespace EwfImage.Acquisition

open Fallible Word Pieces Triples Slice

/-! ## Error ranges -/

/-- Ranges in order, apart from each other and below `stop`, with `total` sectors. -/
structure Ranges (errors : List AcquisitionError) (stop total : Nat) : Prop where
  nonempty : ∀ range ∈ errors, 0 < range.sectorCount
  sorted : errors.Pairwise fun left right =>
    left.firstSector + left.sectorCount ≤ right.firstSector
  bounded : ∀ range ∈ errors, range.firstSector + range.sectorCount ≤ stop
  total : (errors.map (·.sectorCount)).sum = total

/-- Some range holds the sector. -/
def Covered (errors : List AcquisitionError) (sector : Nat) : Prop :=
  ∃ range ∈ errors, range.firstSector ≤ sector ∧ sector < range.firstSector + range.sectorCount

theorem Ranges.mono {errors : List AcquisitionError} {stop stop' total : Nat}
    (h : Ranges errors stop total) (hle : stop ≤ stop') : Ranges errors stop' total :=
  ⟨h.nonempty, h.sorted, fun range hrange => (h.bounded range hrange).trans hle, h.total⟩

/-- A new range at the end. -/
theorem Ranges.push {errors : List AcquisitionError} {stop total : Nat}
    (h : Ranges errors stop total) : Ranges (errors ++ [⟨stop, 1⟩]) (stop + 1) (total + 1) := by
  refine ⟨?_, ?_, ?_, ?_⟩
  · intro range hrange
    rcases List.mem_append.mp hrange with hrange | hrange
    · exact h.nonempty range hrange
    · rw [List.mem_singleton.mp hrange]
      exact Nat.one_pos
  · refine List.pairwise_append.mpr ⟨h.sorted, List.pairwise_singleton _ _, ?_⟩
    intro range hrange last hlast
    rw [List.mem_singleton.mp hlast]
    exact h.bounded range hrange
  · intro range hrange
    rcases List.mem_append.mp hrange with hrange | hrange
    · exact (h.bounded range hrange).trans (Nat.le_succ _)
    · rw [List.mem_singleton.mp hrange]
  · simp [h.total]

/-- The last range, which ends at `stop`, grows by a sector. -/
theorem Ranges.grow {errors : List AcquisitionError} {last : AcquisitionError} {stop total : Nat}
    (h : Ranges (errors ++ [last]) stop total) (hlast : last.firstSector + last.sectorCount = stop) :
    Ranges (errors ++ [⟨last.firstSector, last.sectorCount + 1⟩]) (stop + 1) (total + 1) := by
  obtain ⟨hsorted, -, hbetween⟩ := List.pairwise_append.mp h.sorted
  refine ⟨?_, ?_, ?_, ?_⟩
  · intro range hrange
    rcases List.mem_append.mp hrange with hrange | hrange
    · exact h.nonempty range (List.mem_append_left _ hrange)
    · rw [List.mem_singleton.mp hrange]
      exact Nat.succ_pos _
  · refine List.pairwise_append.mpr ⟨hsorted, List.pairwise_singleton _ _, ?_⟩
    intro range hrange found hfound
    rw [List.mem_singleton.mp hfound]
    exact hbetween range hrange last List.mem_cons_self
  · intro range hrange
    rcases List.mem_append.mp hrange with hrange | hrange
    · exact (h.bounded range (List.mem_append_left _ hrange)).trans (Nat.le_succ _)
    · rw [List.mem_singleton.mp hrange]
      dsimp only
      omega
  · have htotal := h.total
    simp only [List.map_append, List.map_cons, List.map_nil, List.sum_append, List.sum_cons,
      List.sum_nil] at htotal ⊢
    omega

/-- A recorded substitution covers the sector at the offset and changes nothing but the ranges. -/
theorem recordSubstitution_spec {w w' : AcquisitionWriter} {maximumRanges : Nat}
    (hranges : Ranges w.errors (w.offset / w.bytesPerSector) w.substitutedSectors)
    (h : w.recordSubstitution maximumRanges = .ok w') :
    w' = { w with errors := w'.errors, substitutedSectors := w'.substitutedSectors } ∧
      Ranges w'.errors (w.offset / w.bytesPerSector + 1) w'.substitutedSectors ∧
      Covered w'.errors (w.offset / w.bytesPerSector) ∧
      ∀ sector, Covered w.errors sector → Covered w'.errors sector := by
  obtain ⟨_, _, h⟩ := bind_eq_ok.mp h
  have hpushed : ∀ {v : AcquisitionWriter}, v = { w with
        errors := w.errors ++ [⟨w.offset / w.bytesPerSector, 1⟩]
        substitutedSectors := w.substitutedSectors + 1 } →
      v = { w with errors := v.errors, substitutedSectors := v.substitutedSectors } ∧
      Ranges v.errors (w.offset / w.bytesPerSector + 1) v.substitutedSectors ∧
      Covered v.errors (w.offset / w.bytesPerSector) ∧
      ∀ sector, Covered w.errors sector → Covered v.errors sector := by
    rintro v rfl
    refine ⟨rfl, hranges.push, ⟨_, List.mem_append_right _ List.mem_cons_self, ?_⟩, ?_⟩
    · exact ⟨Nat.le_refl _, Nat.lt_succ_self _⟩
    · rintro sector ⟨range, hrange, hcovers⟩
      exact ⟨range, List.mem_append_left _ hrange, hcovers⟩
  split at h
  · rename_i last hlast
    split at h
    · rename_i hadjacent
      cases h
      obtain ⟨before, hbefore⟩ := List.getLast?_eq_some_iff.mp hlast
      have hdrop : w.errors.dropLast = before := by rw [hbefore, List.dropLast_concat]
      rw [hbefore] at hranges
      refine ⟨rfl, ?_, ?_, ?_⟩
      · simp only [hdrop]
        exact hranges.grow hadjacent.1
      · refine ⟨_, List.mem_append_right _ List.mem_cons_self, ?_⟩
        dsimp only
        omega
      · rintro sector ⟨range, hrange, hcovers⟩
        rw [hbefore] at hrange
        simp only [hdrop]
        rcases List.mem_append.mp hrange with hrange | hrange
        · exact ⟨range, List.mem_append_left _ hrange, hcovers⟩
        · rw [List.mem_singleton.mp hrange] at hcovers
          refine ⟨_, List.mem_append_right _ List.mem_cons_self, ?_⟩
          dsimp only
          omega
    · obtain ⟨_, _, hw'⟩ := bind_eq_ok.mp h
      exact hpushed (Except.ok.inj hw').symm
  · obtain ⟨_, _, hw'⟩ := bind_eq_ok.mp h
    exact hpushed (Except.ok.inj hw').symm

/-! ## Sectors -/

open AcquisitionWriter in
/-- The sector is in the bytes of a successful attempt. -/
def FromAttempt (c : Core) (attempts : List (Nat × Bytes)) (sector : Nat) : Prop :=
  ∃ offset bytes, (offset, bytes) ∈ attempts ∧ offset ≤ sector * c.bytesPerSector ∧
    (sector + 1) * c.bytesPerSector ≤ offset + bytes.length ∧
    slice c.media (sector * c.bytesPerSector) c.bytesPerSector =
      slice bytes (sector * c.bytesPerSector - offset) c.bytesPerSector

open AcquisitionWriter in
/-- The sector is zero and in a recorded range. -/
def Substituted (c : Core) (sector : Nat) : Prop :=
  slice c.media (sector * c.bytesPerSector) c.bytesPerSector = List.replicate c.bytesPerSector 0 ∧
    Covered c.errors sector

open AcquisitionWriter in
/-- What an acquisition that started at `start` has added, and where from. -/
structure Provenance (start c : Core) (attempts : List (Nat × Bytes)) : Prop where
  laid : Laid c
  geometry : c.bytesPerSector = start.bytesPerSector ∧ c.chunkSize = start.chunkSize ∧
    c.sourceSize = start.sourceSize ∧ c.chunksPerSegment = start.chunksPerSegment ∧
    c.compression = start.compression ∧ c.compressionValues = start.compressionValues
  prefixed : start.media <+: c.media
  aligned : c.bytesPerSector ∣ c.offset
  ranges : Ranges c.errors (c.offset / c.bytesPerSector) c.substitutedSectors
  sectors : ∀ sector, start.offset ≤ sector * c.bytesPerSector →
    (sector + 1) * c.bytesPerSector ≤ c.offset →
    FromAttempt c attempts sector ∨ Substituted c sector

namespace Provenance

open AcquisitionWriter

variable {start c : Core} {attempts more : List (Nat × Bytes)} {bytes : Bytes}

theorem attempts_append (h : Provenance start c attempts) :
    Provenance start c (attempts ++ more) := by
  refine ⟨h.laid, h.geometry, h.prefixed, h.aligned, h.ranges, fun sector hge hle => ?_⟩
  rcases h.sectors sector hge hle with ⟨offset, found, hmem, hfound⟩ | hzero
  · exact .inl ⟨offset, found, List.mem_append_left _ hmem, hfound⟩
  · exact .inr hzero

/-- Whole sectors are accepted, and each of them has a source. -/
theorem accept {errors : List AcquisitionError} {total : Nat} (h : Provenance start c attempts)
    (hdvd : c.bytesPerSector ∣ bytes.length) (hfits : c.offset + bytes.length ≤ c.sourceSize)
    (hranges : Ranges errors ((c.offset + bytes.length) / c.bytesPerSector) total)
    (hkept : ∀ sector, Covered c.errors sector → Covered errors sector)
    (hsectors : ∀ sector, c.offset ≤ sector * c.bytesPerSector →
      (sector + 1) * c.bytesPerSector ≤ c.offset + bytes.length →
      FromAttempt { c.accept bytes with errors := errors, substitutedSectors := total } attempts sector ∨
        Substituted { c.accept bytes with errors := errors, substitutedSectors := total } sector) :
    Provenance start { c.accept bytes with errors := errors, substitutedSectors := total }
      attempts := by
  obtain ⟨⟨hsector, hchunk, hsegment, hsc, hss, hcompression, hmedia, hle⟩, hgeometry, hpart,
    haligned, hranges', hold⟩ := h
  refine ⟨⟨hsector, hchunk, hsegment, hsc, hss, hcompression, ?_, hfits⟩, hgeometry,
    hpart.trans (List.prefix_append _ _), Nat.dvd_add haligned hdvd, hranges, ?_⟩
  · simp only [Core.accept, List.length_append, hmedia]
  · intro sector hge hend
    have hend : (sector + 1) * c.bytesPerSector ≤ c.offset + bytes.length := hend
    have hge : start.offset ≤ sector * c.bytesPerSector := hge
    rcases Nat.lt_or_ge (sector * c.bytesPerSector) c.offset with hlt | hnew
    · obtain ⟨count, hcount⟩ := haligned
      have hbefore : (sector + 1) * c.bytesPerSector ≤ c.offset := by
        rw [hcount, Nat.mul_comm] at hlt ⊢
        exact Nat.mul_le_mul_left _ (Nat.lt_of_mul_lt_mul_left hlt)
      have hslice : slice (c.media ++ bytes) (sector * c.bytesPerSector) c.bytesPerSector =
          slice c.media (sector * c.bytesPerSector) c.bytesPerSector := by
        refine slice_append_left ?_
        rw [hmedia]
        rw [Nat.add_mul] at hbefore
        omega
      rcases hold sector hge hbefore with ⟨offset, found, hmem, hle', hend', hsame⟩ | ⟨hzero, hcovered⟩
      · exact .inl ⟨offset, found, hmem, hle', hend', hslice.trans hsame⟩
      · exact .inr ⟨hslice.trans hzero, hkept sector hcovered⟩
    · exact hsectors sector hnew hend

/-- A part of the bytes of an attempt is accepted. -/
theorem acceptAttempt {offset : Nat} {before behind : Bytes} (h : Provenance start c attempts)
    (hattempt : (offset, before ++ bytes ++ behind) ∈ attempts)
    (hoffset : offset + before.length = c.offset) (hdvd : c.bytesPerSector ∣ bytes.length)
    (hfits : c.offset + bytes.length ≤ c.sourceSize) :
    Provenance start (c.accept bytes) attempts := by
  have hmono : Ranges c.errors ((c.offset + bytes.length) / c.bytesPerSector)
      c.substitutedSectors := h.ranges.mono (Nat.div_le_div_right (Nat.le_add_right _ _))
  refine h.accept hdvd hfits hmono (fun _ hcovered => hcovered) fun sector hge hend => .inl ?_
  have hmedia := h.laid.media_length
  rw [Nat.add_mul, Nat.one_mul] at hend
  refine ⟨offset, _, hattempt, ?_, ?_, ?_⟩
  · change offset ≤ sector * c.bytesPerSector
    omega
  · change (sector + 1) * c.bytesPerSector ≤ _
    rw [Nat.add_mul, Nat.one_mul, List.length_append, List.length_append]
    omega
  · change slice (c.media ++ bytes) (sector * c.bytesPerSector) c.bytesPerSector =
      slice (before ++ bytes ++ behind) (sector * c.bytesPerSector - offset) c.bytesPerSector
    rw [slice_append_right (by omega), List.append_assoc, slice_append_right (by omega),
      slice_append_left (by omega)]
    congr 1
    omega

/-- A sector of zeros is accepted behind its record. -/
theorem acceptSubstitute {errors : List AcquisitionError} {total : Nat}
    (h : Provenance start c attempts)
    (hranges : Ranges errors (c.offset / c.bytesPerSector + 1) total)
    (hcovered : Covered errors (c.offset / c.bytesPerSector))
    (hkept : ∀ sector, Covered c.errors sector → Covered errors sector)
    (hfits : c.offset + c.bytesPerSector ≤ c.sourceSize) :
    Provenance start { c.accept (List.replicate c.bytesPerSector 0) with
      errors := errors, substitutedSectors := total } attempts := by
  have hpos := h.laid.sector_pos
  have hmedia := h.laid.media_length
  obtain ⟨count, hcount⟩ := h.aligned
  have hdiv : c.offset / c.bytesPerSector = count := by
    rw [hcount, Nat.mul_div_cancel_left _ hpos]
  refine h.accept ?_ ?_ ?_ hkept fun sector hge hend => .inr ?_
  · rw [List.length_replicate]
  · rw [List.length_replicate]
    exact hfits
  · rw [List.length_replicate, Nat.add_div_right _ hpos]
    exact hranges
  · rw [List.length_replicate, Nat.add_mul, Nat.one_mul] at hend
    have hsector : sector * c.bytesPerSector = c.offset := by omega
    have hsame : sector = count := by
      rw [hcount, Nat.mul_comm] at hsector
      exact Nat.eq_of_mul_eq_mul_left hpos hsector
    refine ⟨?_, hsame ▸ hdiv ▸ hcovered⟩
    change slice (c.media ++ _) (sector * c.bytesPerSector) c.bytesPerSector =
      List.replicate c.bytesPerSector 0
    rw [hsector, slice_append_right (by omega), hmedia, Nat.sub_self]
    simp [slice]

end Provenance

end EwfImage.Acquisition
