import EwfImage.Image.Geometry
import EwfImage.Writer.Coherence
import EwfImage.Writer.Ewf1Segment

/-!
# The geometry of a writer

The chunk size of a writer belongs to its options through every operation (`Fitted`), and
preparation makes of it the geometry of the image: the sectors make up the media size, and the
stored chunks are as many as the size asks for (`Fitted.prepareWrite`). The volume section of EWF1
holds these numbers at their places, and they are parsed back from it (`parse_volumeData`).

The numbers are those of the options: sectors of any size up to the width of their fields. That
the volume section is parsed back holds for every format with such a section, the short one of
SMART images included.
-/

namespace EwfImage

open Fallible Ewf1 LittleEndian Runs Slice Word

/-! ## The geometry of a writer -/

/-- The chunk size belongs to the options, whatever was written and copied before. -/
structure Fitted (w : EwfWriter) : Prop where
  sectorsPerChunk : 0 < w.options.sectorsPerChunk.toNat
  bytesPerSector : 0 < w.options.bytesPerSector.toNat
  chunkSize : w.chunkSize = w.options.sectorsPerChunk.toNat * w.options.bytesPerSector.toNat
  capacity : w.chunkCapacity = w.chunkSize

namespace Fitted

variable {w w' : EwfWriter} {options : WriteOptions}

theorem of_geometry {size : Nat × Nat} (hsound : options.Sound)
    (h : writerChunkGeometry options.sectorsPerChunk options.bytesPerSector = .ok size)
    (hoptions : w'.options.sectorsPerChunk = options.sectorsPerChunk ∧
      w'.options.bytesPerSector = options.bytesPerSector)
    (hsize : w'.chunkSize = size.1 ∧ w'.chunkCapacity = size.2) : Fitted w' := by
  have hgeometry := writerChunkGeometry_eq_ok h
  subst hgeometry
  obtain ⟨hspc, hbps⟩ := hoptions
  obtain ⟨hchunk, hcapacity⟩ := hsize
  refine ⟨?_, ?_, ?_, ?_⟩
  · rw [hspc]
    exact hsound.sectorsPerChunk
  · rw [hbps]
    exact hsound.bytesPerSector
  · rw [hchunk, hspc, hbps]
  · rw [hchunk, hcapacity]

theorem of_create (h : EwfWriter.create options = .ok w) : Fitted w := by
  simp only [EwfWriter.create, bind_eq_ok, pure_eq_ok, Except.ok.injEq] at h
  obtain ⟨_, hvalid, size, hgeometry, rfl⟩ := h
  exact of_geometry (sound_of_validateOptions hvalid) hgeometry ⟨rfl, rfl⟩ ⟨rfl, rfl⟩

/-- An operation that leaves the geometry alone. -/
theorem of_same (h : Fitted w)
    (hoptions : w'.options.sectorsPerChunk = w.options.sectorsPerChunk ∧
      w'.options.bytesPerSector = w.options.bytesPerSector)
    (hsize : w'.chunkSize = w.chunkSize ∧ w'.chunkCapacity = w.chunkCapacity) : Fitted w' := by
  obtain ⟨hspc, hbps⟩ := hoptions
  obtain ⟨hchunk, hcapacity⟩ := hsize
  refine ⟨?_, ?_, ?_, ?_⟩
  · rw [hspc]
    exact h.sectorsPerChunk
  · rw [hbps]
    exact h.bytesPerSector
  · rw [hchunk, hspc, hbps]
    exact h.chunkSize
  · rw [hcapacity, hchunk]
    exact h.capacity

theorem writeToCurrent (h : Fitted w) {data : Bytes} (hw : w.writeToCurrent data = .ok w') :
    Fitted w' := by
  simp only [EwfWriter.writeToCurrent, bind_eq_ok, pure_eq_ok, Except.ok.injEq] at hw
  obtain ⟨_, _, _, _, _, _, rfl⟩ := hw
  exact h.of_same ⟨rfl, rfl⟩ ⟨rfl, rfl⟩

theorem moved (h : Fitted w) (offset : Nat) : Fitted { w with currentOffset := offset } :=
  h.of_same ⟨rfl, rfl⟩ ⟨rfl, rfl⟩

theorem remembered (h : Fitted w) (chunk : EncodedDataChunk) (offset decodedLen : Nat) :
    Fitted (w.rememberEncodedDataChunkAt chunk offset decodedLen) := by
  unfold EwfWriter.rememberEncodedDataChunkAt
  split
  · exact h
  · exact h.of_same ⟨rfl, rfl⟩ ⟨rfl, rfl⟩

theorem setGeometry {label : String} (hw : w.setGeometry label options = .ok w') : Fitted w' := by
  simp only [EwfWriter.setGeometry, bind_eq_ok, pure_eq_ok, Except.ok.injEq] at hw
  obtain ⟨_, _, size, hgeometry, _, hvalid, rfl⟩ := hw
  exact of_geometry (sound_of_validateOptions hvalid) hgeometry ⟨rfl, rfl⟩ ⟨rfl, rfl⟩

theorem apply (h : Fitted w) {codec : Codec} {op : WriterOp} (hw : WriterStep codec w op w') :
    Fitted w' := by
  unfold WriterStep EwfWriter.apply at hw
  cases op with
  | writeAll data =>
    simp only [EwfWriter.writeAll, bind_eq_ok] at hw
    obtain ⟨_, _, hw⟩ := hw
    exact h.writeToCurrent hw
  | writeAt data offset =>
    simp only [EwfWriter.writeAtOffset, bind_eq_ok] at hw
    obtain ⟨_, _, hw⟩ := hw
    exact (h.moved offset).writeToCurrent hw
  | writeDataChunk chunk =>
    simp only [EwfWriter.writeDataChunk, bind_eq_ok] at hw
    obtain ⟨_, _, _, _, hw⟩ := hw
    exact h.writeToCurrent hw
  | writeDataChunkAt chunk offset =>
    simp only [EwfWriter.writeDataChunkAt, EwfWriter.writeAtOffset, bind_eq_ok] at hw
    obtain ⟨_, _, _, _, _, _, hw⟩ := hw
    exact (h.moved offset).writeToCurrent hw
  | writeEncodedDataChunk chunk =>
    simp only [EwfWriter.writeEncodedDataChunk, bind_eq_ok, pure_eq_ok, Except.ok.injEq] at hw
    obtain ⟨_, _, data, _, written, hw, rfl⟩ := hw
    exact (h.writeToCurrent hw).remembered _ _ _
  | writeEncodedDataChunkAt chunk offset =>
    simp only [EwfWriter.writeEncodedDataChunkAt, bind_eq_ok, pure_eq_ok, Except.ok.injEq] at hw
    obtain ⟨_, _, data, _, written, hw, rfl⟩ := hw
    exact ((h.moved offset).writeToCurrent hw).remembered _ _ _
  | seek position =>
    simp only [EwfWriter.seekPosition, bind_eq_ok, pure_eq_ok, Except.ok.injEq] at hw
    obtain ⟨_, _, _, _, rfl⟩ := hw
    exact h.moved _
  | setSectorsPerChunk sectorsPerChunk => exact setGeometry hw
  | setBytesPerSector bytesPerSector => exact setGeometry hw
  | copyMediaValuesFromInfo info =>
    simp only [EwfWriter.copyMediaValuesFromInfo, bind_eq_ok, pure_eq_ok, Except.ok.injEq] at hw
    obtain ⟨copied, hcopy, _, _, size, hgeometry, rfl⟩ := hw
    exact of_geometry (copyMediaValuesFromInfo_spec hcopy).1 hgeometry ⟨rfl, rfl⟩ ⟨rfl, rfl⟩
  | setSegmentFileSetIdentifier | setCompressionValues | setMediaType | setErrorGranularity
  | setHashValue | setMd5Hash | setSha1Hash =>
    simp only [EwfWriter.setSegmentFileSetIdentifier, EwfWriter.setCompressionValues,
      EwfWriter.setMediaType, EwfWriter.setErrorGranularity, EwfWriter.setHashValue,
      EwfWriter.setMd5Hash, EwfWriter.setSha1Hash, bind_eq_ok, pure_eq_ok, Except.ok.injEq] at hw
    obtain ⟨_, _, rfl⟩ := hw
    exact h.of_same ⟨rfl, rfl⟩ ⟨rfl, rfl⟩
  | setFormat | setMaximumSegmentSize | setMediaSize | setCompressionMethod | setMediaFlags
  | appendSession | appendTrack =>
    simp only [EwfWriter.setFormat, EwfWriter.setMaximumSegmentSize, EwfWriter.setMediaSize,
      EwfWriter.setCompressionMethod, EwfWriter.setMediaFlags, EwfWriter.appendSession,
      EwfWriter.appendTrack, bind_eq_ok, pure_eq_ok, Except.ok.injEq] at hw
    obtain ⟨_, _, _, _, rfl⟩ := hw
    exact h.of_same ⟨rfl, rfl⟩ ⟨rfl, rfl⟩
  | copyHashValuesFromInfo | appendAcquisitionError | appendChecksumError | signalAbort =>
    cases hw
    exact h.of_same ⟨rfl, rfl⟩ ⟨rfl, rfl⟩

theorem run {codec : Codec} {ops : List WriterOp} (h : Fitted w)
    (hrun : Run (WriterStep codec) w ops w') : Fitted w' :=
  hrun.invariant (fun _ _ _ hfitted hstep => hfitted.apply hstep) h

end Fitted

/-! ## What preparation computes -/

section Preparation

variable {codec : Codec} {options : WriteOptions} {raw : Bytes}
  {logicalSize chunkSize fuel offset : Nat} {state state' : EncodeState}

/-- The loop stores one chunk for each `chunkSize` bytes. -/
theorem length_encodeRawSpoolLoop (hpos : 0 < chunkSize) (hfuel : logicalSize ≤ offset + fuel)
    (hbefore : logicalSize ≤ offset ∨ offset = state.chunks.length * chunkSize)
    (hstarted : state.chunks.length ≠ 0 → (state.chunks.length - 1) * chunkSize < logicalSize)
    (hreached : logicalSize ≤ offset → logicalSize ≤ state.chunks.length * chunkSize)
    (h : encodeRawSpoolLoop codec raw logicalSize chunkSize chunkSize options fuel offset state =
      .ok state') :
    state'.chunks.length = divCeil logicalSize chunkSize := by
  induction fuel generalizing offset state with
  | zero =>
    cases h
    exact divCeil_unique hpos (hreached (by omega)) hstarted
  | succ fuel ih =>
    rw [encodeRawSpoolLoop] at h
    by_cases hmore : offset < logicalSize
    · rw [if_pos hmore] at h
      have hoffset : offset = state.chunks.length * chunkSize := by omega
      simp only [bind_eq_ok, okOr_eq_ok, checkedAdd_eq_some] at h
      obtain ⟨_, _, _, _, _, ⟨_, rfl⟩, h⟩ := h
      have hnext : (state.chunks.length + 1) * chunkSize = offset + chunkSize := by
        rw [Nat.add_mul, hoffset, Nat.one_mul]
      refine ih (by omega) ?_ ?_ ?_ h
      · simp only [List.length_append, List.length_singleton]
        omega
      · simp only [List.length_append, List.length_singleton, Nat.add_sub_cancel]
        omega
      · simp only [List.length_append, List.length_singleton]
        omega
    · rw [if_neg hmore] at h
      cases h
      exact divCeil_unique hpos (hreached (by omega)) hstarted

theorem divCeil_eq_logicalChunkCount (hpos : 0 < chunkSize) :
    logicalChunkCount logicalSize chunkSize = .ok (divCeil logicalSize chunkSize) := by
  unfold logicalChunkCount
  rw [rejectIf_neg _ (by omega), ok_bind, pure_eq_ok]
  refine congrArg _ (divCeil_unique hpos ?_ ?_)
  · by_cases hempty : logicalSize = 0
    · omega
    · have hlt := Nat.lt_div_mul_add (a := logicalSize - 1) hpos
      rw [if_neg hempty, Nat.add_mul]
      omega
  · intro hcount
    by_cases hempty : logicalSize = 0
    · exact absurd (if_pos hempty) hcount
    · have hle := Nat.div_mul_le_self (logicalSize - 1) chunkSize
      rw [if_neg hempty, Nat.add_sub_cancel]
      omega

end Preparation

/-- What preparation makes of the geometry of a writer. -/
structure PreparesGeometry (w : EwfWriter) (prepared : PreparedWrite) : Prop where
  sectorsPerChunk : prepared.options.sectorsPerChunk = w.options.sectorsPerChunk
  bytesPerSector : prepared.options.bytesPerSector = w.options.bytesPerSector
  chunkSize : prepared.chunkSize =
    w.options.sectorsPerChunk.toNat * w.options.bytesPerSector.toNat
  sectors : prepared.sectorCount * w.options.bytesPerSector.toNat = prepared.logicalSize
  logicalSize_lt : prepared.logicalSize < u64Limit
  chunks : prepared.spooled.chunks.length = prepared.chunkCount
  chunkCount : prepared.chunkCount = divCeil prepared.logicalSize prepared.chunkSize
  chunkCount_lt : prepared.chunkCount < u32Limit

theorem Fitted.prepareWrite {codec : Codec} {digests : Digests} {w : EwfWriter}
    {prepared : PreparedWrite} (h : Fitted w) (hp : w.prepareWrite codec digests = .ok prepared) :
    PreparesGeometry w prepared := by
  simp only [EwfWriter.prepareWrite, bind_eq_ok, rejectIf_eq_ok, pure_eq_ok, Except.ok.injEq] at hp
  obtain ⟨_, _, logicalSize, hsize, spooled, hspooled, hashes, _, _, _, _, _, _, hcount, rfl⟩ := hp
  simp only [EwfWriter.logicalSize, paddedLogicalSize, bind_eq_ok, okOr_eq_ok,
    checkedMul_eq_some] at hsize
  obtain ⟨size, -, hlt, hlogical⟩ := hsize
  have hpos : 0 < w.chunkSize := by
    rw [h.chunkSize]
    exact Nat.mul_pos h.sectorsPerChunk h.bytesPerSector
  rw [h.capacity] at hspooled
  obtain ⟨state, hloop, hspool⟩ := bind_eq_ok.mp hspooled
  cases hspool
  refine ⟨rfl, rfl, h.chunkSize, ?_, ?_, rfl, ?_, by simpa using hcount⟩
  · subst hlogical
    exact Nat.div_mul_cancel (Nat.dvd_mul_left _ _)
  · subst hlogical
    exact hlt
  · refine length_encodeRawSpoolLoop hpos (Nat.le_add_left _ _) (.inr ?_) ?_ ?_ hloop
    · simp
    · simp
    · simp

/-! ## The volume section -/

section Patches

variable {bytes data : Bytes} {offset size start : Nat}

theorem slice_patch_of_disjoint (h : offset + size ≤ start ∨ start + data.length ≤ offset) :
    slice (patch bytes start data) offset size = slice bytes offset size := by
  refine List.ext_getElem (by simp) fun i hleft hright => ?_
  simp only [length_slice, length_patch] at hleft
  simp only [slice, List.getElem_take, List.getElem_drop, patch, List.getElem_mapIdx]
  by_cases hstart : start ≤ offset + i
  · rw [if_pos hstart, List.getD_eq_default _ _ (by omega)]
  · rw [if_neg hstart]

theorem slice_patch_self (h : start + data.length ≤ bytes.length) :
    slice (patch bytes start data) start data.length = data := by
  refine List.ext_getElem (by simp; omega) fun i hleft hright => ?_
  simp only [slice, List.getElem_take, List.getElem_drop, patch, List.getElem_mapIdx]
  rw [if_pos (Nat.le_add_right _ _), Nat.add_sub_cancel_left, List.getD_eq_getElem _ _ hright]

theorem leAt_patch_of_disjoint (h : offset + size ≤ start ∨ start + data.length ≤ offset) :
    leAt (patch bytes start data) offset size = leAt bytes offset size := by
  rw [leAt, slice_patch_of_disjoint h, leAt]

theorem leAt_patch_self {value width : Nat} (h : start + width ≤ bytes.length)
    (hfit : value < 256 ^ width) :
    leAt (patch bytes start (toLE width value)) start width = value := by
  have hslice : slice (patch bytes start (toLE width value)) start (toLE width value).length =
      toLE width value := slice_patch_self (by rw [length_toLE]; exact h)
  rw [length_toLE] at hslice
  rw [leAt, hslice, fromLE_toLE_of_lt hfit]

end Patches

/-- The fields of the geometry lie at their places; the sector count is `width` bytes wide. -/
structure VolumeFields (volume : Volume) (width : Nat) (bytes : Bytes) : Prop where
  chunkCount : leAt bytes 4 4 = volume.chunkCount
  sectorsPerChunk : leAt bytes 8 4 = volume.sectorsPerChunk
  bytesPerSector : leAt bytes 12 4 = volume.bytesPerSector
  sectorCount : leAt bytes 16 width = volume.sectorCount

section Volumes

variable {volume : Volume} {width : Nat} {bytes : Bytes}

theorem volumeFields_patched (volume : Volume) (level : Bytes) (hlength : 24 ≤ bytes.length) (hwidth : width ≤ 8)
    (hchunks : volume.chunkCount < 256 ^ 4) (hspc : volume.sectorsPerChunk < 256 ^ 4)
    (hbps : volume.bytesPerSector < 256 ^ 4) (hsectors : volume.sectorCount < 256 ^ width) :
    VolumeFields volume width
      (patch (patch (patch (patch (patch bytes 4 (toLE 4 volume.chunkCount))
        8 (toLE 4 volume.sectorsPerChunk)) 12 (toLE 4 volume.bytesPerSector)) 52 level)
        16 (toLE width volume.sectorCount)) := by
  have hbefore : ∀ {v : Bytes} {offset : Nat}, offset + 4 ≤ 16 →
      leAt (patch (patch v 52 level) 16 (toLE width volume.sectorCount)) offset 4 =
        leAt v offset 4 := by
    intro v offset hoffset
    rw [leAt_patch_of_disjoint (.inl hoffset), leAt_patch_of_disjoint (.inl (by omega))]
  refine ⟨?_, ?_, ?_, ?_⟩
  · rw [hbefore (by omega), leAt_patch_of_disjoint (.inl (by omega)),
      leAt_patch_of_disjoint (.inl (by omega)), leAt_patch_self (by omega) hchunks]
  · rw [hbefore (by omega), leAt_patch_of_disjoint (.inl (by omega)),
      leAt_patch_self (by rw [length_patch]; omega) hspc]
  · rw [hbefore (by omega), leAt_patch_self (by simp only [length_patch]; omega) hbps]
  · rw [leAt_patch_self (by simp only [length_patch]; omega) hsectors]

theorem VolumeFields.patch (h : VolumeFields volume width bytes) (hwidth : width ≤ 8) {start : Nat}
    (hstart : 24 ≤ start) (data : Bytes) : VolumeFields volume width (patch bytes start data) := by
  refine ⟨?_, ?_, ?_, ?_⟩
  · rw [leAt_patch_of_disjoint (.inl (by omega)), h.chunkCount]
  · rw [leAt_patch_of_disjoint (.inl (by omega)), h.sectorsPerChunk]
  · rw [leAt_patch_of_disjoint (.inl (by omega)), h.bytesPerSector]
  · rw [leAt_patch_of_disjoint (.inl (by omega)), h.sectorCount]

theorem VolumeFields.front (h : VolumeFields volume width bytes) (hwidth : width ≤ 8) (size : Nat)
    (hsize : 24 ≤ size) (hlength : size ≤ bytes.length) (rest : Bytes) :
    VolumeFields volume width (bytes.take size ++ rest) := by
  have hfield : ∀ {offset count : Nat}, offset + count ≤ 24 →
      leAt (bytes.take size ++ rest) offset count = leAt bytes offset count := by
    intro offset count hend
    rw [leAt, slice_append_left (by rw [List.length_take]; omega), leAt, slice, slice,
      List.drop_take, List.take_take, Nat.min_eq_left (by omega)]
  refine ⟨?_, ?_, ?_, ?_⟩
  · rw [hfield (by omega), h.chunkCount]
  · rw [hfield (by omega), h.sectorsPerChunk]
  · rw [hfield (by omega), h.bytesPerSector]
  · rw [hfield (by omega), h.sectorCount]

theorem VolumeFields.parse (h : VolumeFields volume width bytes)
    (hkind : bytes.length = smartVolumeSize ∧ width = 4 ∨ bytes.length = volumeDataSize ∧ width = 8)
    (checksum : Nat) :
    Volume.parse (bytes.take (bytes.length - 4) ++ toLE 4 checksum) = .ok volume := by
  have hsmart : smartVolumeSize = 94 := rfl
  have hfull : volumeDataSize = 1052 := rfl
  obtain ⟨hchunks, hspc, hbps, hsectors⟩ :=
    h.front (by omega) (bytes.length - 4) (by omega) (by omega) (toLE 4 checksum)
  have hlength : (bytes.take (bytes.length - 4) ++ toLE 4 checksum).length = bytes.length := by
    rw [List.length_append, List.length_take, length_toLE]
    omega
  unfold Volume.parse
  rw [rejectIf_neg _ (by omega), ok_bind, pure_eq_ok, hlength, hchunks, hspc, hbps]
  rcases hkind with ⟨hsize, rfl⟩ | ⟨hsize, rfl⟩
  · rw [if_pos hsize, hsectors]
  · rw [if_neg (by omega), hsectors]

end Volumes

theorem parse_volumeData {options : WriteOptions} {chunkCount : UInt32} {sectorCount : Nat}
    {payload : Bytes} (hsectors : sectorCount < u64Limit)
    (h : volumeData options chunkCount sectorCount = .ok payload) :
    Volume.parse payload = .ok {
      chunkCount := chunkCount.toNat
      sectorsPerChunk := options.sectorsPerChunk.toNat
      bytesPerSector := options.bytesPerSector.toNat
      sectorCount } := by
  have hword : ∀ value : UInt32, value.toNat < 256 ^ 4 := fun value => value.toNat_lt
  simp only [volumeData, bind_eq_ok, rejectIf_eq_ok, pure_eq_ok, Except.ok.injEq] at h
  obtain ⟨_, hsmall, _, _, rfl⟩ := h
  have hsmartLength : 24 ≤ (patch (List.replicate smartVolumeSize 0) 0 [1]).length := by
    rw [length_patch, List.length_replicate]
    decide
  have hfullLength : ∀ media flags : Bytes,
      24 ≤ (patch (patch (List.replicate volumeDataSize 0) 0 media) 36 flags).length := by
    intro media flags
    rw [length_patch, length_patch, List.length_replicate]
    decide
  by_cases hsmart : options.format = .ewf1Smart
  · simp only [hsmart, true_and, if_true, volumeDataSizeOf] at hsmall ⊢
    have hfields := volumeFields_patched ⟨_, _, _, _⟩
      [ewf1CompressionLevelValue options.compressionValues.level] hsmartLength
      (by decide : 4 ≤ 8) (hword chunkCount) (hword options.sectorsPerChunk)
      (hword options.bytesPerSector) (Nat.lt_of_not_le hsmall)
    refine VolumeFields.parse ?_ (.inl ⟨?_, rfl⟩) _
    · cases options.setIdentifier <;> exact hfields.patch (by decide) (by decide) _
    · cases options.setIdentifier <;> simp only [length_patch, List.length_replicate]
  · simp only [hsmart, if_false, volumeDataSizeOf]
    have hfields := volumeFields_patched ⟨_, _, _, _⟩
      [ewf1CompressionLevelValue options.compressionValues.level]
      (hfullLength [ewf1MediaTypeValue options.format options.mediaProfile.mediaType]
        [ewf1MediaFlagsValue options.format options.mediaProfile]) (by decide : 8 ≤ 8) (hword chunkCount) (hword options.sectorsPerChunk)
      (hword options.bytesPerSector) hsectors
    refine VolumeFields.parse ?_ (.inr ⟨?_, rfl⟩) _
    · cases options.mediaProfile.errorGranularity <;> cases options.setIdentifier
      · exact hfields
      · exact hfields.patch (by decide) (by decide) _
      · exact hfields.patch (by decide) (by decide) _
      · exact (hfields.patch (by decide) (by decide) _).patch (by decide) (by decide) _
    · cases options.mediaProfile.errorGranularity <;> cases options.setIdentifier <;>
        simp only [length_patch, List.length_replicate]

end EwfImage
