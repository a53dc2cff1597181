import EwfImage.Writer.Session

/-!
# The writer against a plain byte array

`Media` is what the writer is for: a byte array that starts as zeros, a position
and the declared size. `Coherent` ties the two representations of the writer to
it: the raw spool holds the array, and every remembered chunk decodes to the
array's range at its index. Each operation keeps it, except a copy of media values
that changes the chunk size while chunks are remembered: nothing forgets them, so
they stay filed under indexes of the old geometry.

The main result is `prepared_media_of_kept_geometry`, about every run of operations on a new
writer, with any positions, sizes and data. What is prepared in the end is decoded by the
reader's own functions, with their checks of checksums and sizes. The condition is on the steps:
a copy of media values keeps the chunk size or finds no remembered chunk, and chunks handed over
encoded decode to what they stand for. `not_prepared_media_of_any_run` is a run that breaks it.
-/

namespace EwfImage

open Fallible Word Slice ByteStore Runs

/-- The plain byte array behind a writer. -/
structure Media where
  bytes : Nat → UInt8
  position : Nat
  written : Nat
  declared : Option Nat

namespace Media

def initial (mediaSize : Option Nat) : Media where
  bytes := fun _ => 0
  position := 0
  written := 0
  declared := normalizeMediaSize mediaSize

/-- Write `data` at `offset` and move behind it. -/
def write (m : Media) (offset : Nat) (data : Bytes) : Media :=
  { m with
    bytes := overlay m.bytes offset data
    position := offset + data.length
    written := max m.written (offset + data.length) }

/-- The declared media size, or what has been written when none is declared. -/
def size (m : Media) : Nat := m.declared.getD m.written

def seek (m : Media) : SeekFrom → Media
  | .start offset => { m with position := offset }
  | .current offset => { m with position := (m.position + offset).toNat }
  | .fromEnd offset => { m with position := (m.size + offset).toNat }

/-- The bytes that an encoded chunk stands for. -/
def writeEncoded (codec : Codec) (m : Media) (offset : Nat) (chunk : EncodedDataChunk) : Media :=
  match decodeWriteEncodedDataChunk codec chunk with
  | .ok data => m.write offset data
  | .error _ => m

/-- The effect of a successful operation on the byte array. -/
def apply (codec : Codec) (m : Media) : WriterOp → Media
  | .writeAll data => m.write m.position data
  | .writeAt data offset => m.write offset data
  | .writeDataChunk chunk => m.write m.position chunk.data
  | .writeDataChunkAt chunk offset => m.write offset chunk.data
  | .writeEncodedDataChunk chunk => m.writeEncoded codec m.position chunk
  | .writeEncodedDataChunkAt chunk offset => m.writeEncoded codec offset chunk
  | .seek position => m.seek position
  | .setMediaSize mediaSize => { m with declared := normalizeMediaSize (some mediaSize) }
  | .copyMediaValuesFromInfo info => { m with declared := some info.logicalSize }
  | _ => m

/-- Nothing beyond the furthest write has been set. -/
def ZeroBeyond (m : Media) : Prop := ∀ i, m.written ≤ i → m.bytes i = 0

theorem ZeroBeyond.write {m : Media} (h : m.ZeroBeyond) (offset : Nat) (data : Bytes) :
    (m.write offset data).ZeroBeyond := by
  intro i hi
  simp only [Media.write] at hi ⊢
  rw [overlay_of_ge _ _ (by omega)]
  exact h i (by omega)

theorem ZeroBeyond.writeEncoded {m : Media} (h : m.ZeroBeyond) (codec : Codec) (offset : Nat)
    (chunk : EncodedDataChunk) : (m.writeEncoded codec offset chunk).ZeroBeyond := by
  unfold Media.writeEncoded
  split
  · exact h.write _ _
  · exact h

theorem ZeroBeyond.apply {m : Media} (h : m.ZeroBeyond) (codec : Codec) (op : WriterOp) :
    (m.apply codec op).ZeroBeyond := by
  cases op with
  | writeAll | writeAt | writeDataChunk | writeDataChunkAt => exact h.write _ _
  | writeEncodedDataChunk | writeEncodedDataChunkAt => exact h.writeEncoded codec _ _
  | seek position => cases position <;> exact h
  | _ => exact h

theorem zeroBeyond_run (codec : Codec) (mediaSize : Option Nat) (ops : List WriterOp) :
    (ops.foldl (apply codec) (initial mediaSize)).ZeroBeyond := by
  refine List.foldlRecOn ops _ (fun _ _ => rfl) ?_
  intro m h op _
  exact h.apply codec op

end Media

/-! ## The invariant -/

/-- The writer's two representations agree with the byte array `m`: the raw spool holds its bytes,
the options are sound and give the chunk size, and every remembered encoded chunk stands for the
bytes of `m` at its index. -/
structure Coherent (codec : Codec) (w : EwfWriter) (m : Media) : Prop where
  bytes : mediaOf w.raw = m.bytes
  position : w.currentOffset = m.position
  written : w.logicalInputSize = m.written
  declared : w.options.mediaSize = m.declared
  sound : w.options.Sound
  chunkSize : w.chunkSize = w.options.sectorsPerChunk.toNat * w.options.bytesPerSector.toNat
  capacity : w.chunkCapacity = w.chunkSize
  remembered : ∀ index chunk, w.encodedChunks index = some chunk → chunk.logicalSize ≠ 0 →
    RememberedAt codec w.chunkSize m.bytes index chunk
  unwritten : w.logicalInputSize = 0 → ∀ index chunk, w.encodedChunks index = some chunk →
    chunk.logicalSize = 0

/-- The operation is not a copy of media values that changes the chunk size under a remembered
chunk. -/
def KeepsGeometry (w : EwfWriter) (op : WriterOp) : Prop :=
  match op with
  | .copyMediaValuesFromInfo info => info.media.declaredChunkSize = some w.chunkSize ∨
      ∀ index chunk, w.encodedChunks index = some chunk → chunk.logicalSize = 0
  | _ => True

namespace Coherent

variable {codec : Codec} {w w' : EwfWriter} {m : Media}

theorem chunkSize_pos (h : Coherent codec w m) : 0 < w.chunkSize := by
  rw [h.chunkSize]
  exact Nat.mul_pos h.sound.sectorsPerChunk h.sound.bytesPerSector

theorem of_create {options : WriteOptions} (h : EwfWriter.create options = .ok w) :
    Coherent codec w (.initial options.mediaSize) := by
  simp only [EwfWriter.create, bind_eq_ok, pure_eq_ok, Except.ok.injEq] at h
  obtain ⟨_, hvalid, ⟨chunkSize, chunkCapacity⟩, hgeometry, rfl⟩ := h
  have hsound := sound_of_validateOptions hvalid
  have hgeom := writerChunkGeometry_eq_ok hgeometry
  simp only [Prod.mk.injEq] at hgeom
  obtain ⟨rfl, rfl⟩ := hgeom
  exact ⟨contents_nil 0, rfl, rfl, rfl, hsound, rfl, rfl, nofun, nofun⟩

/-- A step that leaves the media, the geometry and the remembered chunks alone. -/
theorem of_options (h : Coherent codec w m) {options : WriteOptions} {declared : Option Nat}
    (hdeclared : options.mediaSize = declared) (hsound : options.Sound)
    (hspc : options.sectorsPerChunk = w.options.sectorsPerChunk)
    (hbps : options.bytesPerSector = w.options.bytesPerSector) :
    Coherent codec { w with options } { m with declared } :=
  ⟨h.bytes, h.position, h.written, hdeclared, hsound, by simp only [hspc, hbps, h.chunkSize],
    h.capacity, h.remembered, h.unwritten⟩

/-- A step that sets none of the options the invariant is about. -/
theorem of_setting (h : Coherent codec w m) {options : WriteOptions}
    (hformat : options.format = w.options.format)
    (hcompression : options.compression = w.options.compression)
    (hspc : options.sectorsPerChunk = w.options.sectorsPerChunk)
    (hbps : options.bytesPerSector = w.options.bytesPerSector)
    (hsize : options.mediaSize = w.options.mediaSize) : Coherent codec { w with options } m := by
  obtain ⟨hbzip, hs, hb⟩ := h.sound
  exact h.of_options (hsize.trans h.declared)
    ⟨by rw [hformat, hcompression]; exact hbzip, by rw [hspc]; exact hs, by rw [hbps]; exact hb⟩
    hspc hbps

/-! ## Writes -/

/-- The remembered chunks that survive a write lie outside its range. -/
theorem window_of_forget {start stop index : Nat} {chunk : RememberedEncodedChunk}
    (hpos : 0 < w.chunkSize)
    (h : w.forgetEncodedChunksInRange start stop index = some chunk) :
    w.encodedChunks index = some chunk ∧
      (start < stop → (index + 1) * w.chunkSize ≤ start ∨ stop ≤ index * w.chunkSize) := by
  unfold EwfWriter.forgetEncodedChunksInRange at h
  split at h
  · exact ⟨h, by omega⟩
  · simp only at h
    split at h
    · cases h
    · rename_i hout
      refine ⟨h, fun hlt => ?_⟩
      rcases Nat.lt_or_ge index (start / w.chunkSize) with hi | hi
      · left
        exact (Nat.le_div_iff_mul_le hpos).mp hi
      · right
        have hlast : (stop - 1) / w.chunkSize < index := by omega
        have := (Nat.div_lt_iff_lt_mul hpos).mp hlast
        omega

theorem write (h : Coherent codec w m) {data : Bytes} {offset : Nat}
    (hw : { w with currentOffset := offset }.writeToCurrent data = .ok w') :
    Coherent codec w' (m.write offset data) := by
  simp only [EwfWriter.writeToCurrent, bind_eq_ok, okOr_eq_ok, checkedAdd_eq_some, pure_eq_ok,
    Except.ok.injEq] at hw
  obtain ⟨_, _, stop, ⟨_, rfl⟩, _, _, rfl⟩ := hw
  refine ⟨?_, rfl, ?_, h.declared, h.sound, h.chunkSize, h.capacity, ?_, ?_⟩
  · simp only [mediaOf, Media.write, contents_writeAt, h.bytes]
  · simp only [Media.write, h.written]
  · intro index chunk hget hne
    obtain ⟨hold, hout⟩ := window_of_forget (w := { w with currentOffset := offset })
      h.chunkSize_pos hget
    obtain ⟨hsize, hcompressed, hpattern, hsized, hchecksum, hdecodes⟩ :=
      h.remembered index chunk hold hne
    refine ⟨hsize, hcompressed, hpattern, hsized, hchecksum, ?_⟩
    have hsame : window (m.write offset data).bytes (index * w.chunkSize) chunk.logicalSize =
        window m.bytes (index * w.chunkSize) chunk.logicalSize := by
      rcases Nat.eq_zero_or_pos data.length with h0 | h0
      · rw [Media.write, List.eq_nil_of_length_eq_zero h0, overlay_nil]
      · refine window_overlay_disjoint m.bytes data ?_
        have hrange : (index + 1) * w.chunkSize ≤ offset ∨
            offset + data.length ≤ index * w.chunkSize := hout (by omega)
        rw [Nat.add_mul] at hrange
        rcases hrange with hrange | hrange
        · left
          omega
        · right
          exact hrange
    rw [hsame]
    exact hdecodes
  · intro hzero index chunk hget
    have hmax : max w.logicalInputSize (offset + data.length) = 0 := hzero
    exact h.unwritten (by omega) index chunk
      (window_of_forget (w := { w with currentOffset := offset }) h.chunkSize_pos hget).1

theorem writeToCurrent (h : Coherent codec w m) {data : Bytes}
    (hw : w.writeToCurrent data = .ok w') : Coherent codec w' (m.write m.position data) := by
  have hoffset : { w with currentOffset := m.position } = w := by rw [← h.position]
  rw [← hoffset] at hw
  exact h.write hw

/-! ## Encoded chunks -/

/-- The writer's own check of a checksum is the reader's. -/
theorem validateRawChunkChecksum_of_isValid {chunk : EncodedDataChunk}
    (h : rawEncodedDataChunkChecksumIsValid chunk = true) :
    validateRawChunkChecksum chunk.data chunk.logicalSize = .ok () := by
  simp only [rawEncodedDataChunkChecksumIsValid, Bool.and_eq_true, beq_iff_eq] at h
  obtain ⟨hlength, hchecksum⟩ := h
  have hslice : slice chunk.data chunk.logicalSize 4 =
      LittleEndian.toLE 4 (adler32 (chunk.data.take chunk.logicalSize)) := by
    rw [← hchecksum]
    exact List.take_of_length_le (by rw [List.length_drop]; omega)
  have hstored : leAt chunk.data chunk.logicalSize 4 =
      adler32 (chunk.data.take chunk.logicalSize) := by
    rw [leAt, hslice, LittleEndian.fromLE_toLE_of_lt (adler32_lt _)]
  unfold validateRawChunkChecksum
  rw [rejectIf_neg _ (by omega), ok_bind, hstored, Ewf1.validateAdler32ChecksumValue,
    rejectIf_neg _ (by simp)]

/-- What a chunk that is to be remembered satisfies. -/
theorem rememberedEncodedDataChunk_spec {chunk : EncodedDataChunk} {options : WriteOptions}
    {targetChunkSize offset decodedLen : Nat} {remembered : RememberedEncodedChunk}
    (hdata : chunk.data.length = chunk.encodedSize)
    (h : rememberedEncodedDataChunk chunk options targetChunkSize offset decodedLen =
      some remembered) :
    offset % targetChunkSize = 0 ∧ decodedLen = chunk.logicalSize ∧ decodedLen ≤ targetChunkSize ∧
      remembered.logicalSize = decodedLen ∧ remembered.encoding = chunk.encoding ∧
      (remembered.encoded.compressed = true ↔ chunk.encoding ≠ .raw) ∧
      remembered.encoded.patternFill = chunk.encoding.pattern ∧
      validateEncodedSize remembered.encoded.bytes.length targetChunkSize
        (encodedDataChunkEncoding chunk.encoding) = .ok () ∧
      (remembered.encoded.hasChecksum = true →
        validateRawChunkChecksum remembered.encoded.bytes chunk.logicalSize = .ok ()) ∧
      (chunk.encoding.pattern = none → remembered.encoded.bytes = chunk.data) := by
  unfold rememberedEncodedDataChunk at h
  split at h
  · cases h
  rename_i haligned
  split at h
  · cases h
  rename_i hfits
  split at h
  · cases h
  split at h
  · cases h
  rename_i hsize
  simp only [Option.map_eq_some_iff] at h
  obtain ⟨encoded, hform, rfl⟩ := h
  refine ⟨by omega, by omega, by omega, rfl, rfl, ?_⟩
  unfold rememberedForm at hform
  rw [← hdata] at hsize
  cases henc : chunk.encoding with
  | raw =>
    simp only [henc] at hform hsize
    split at hform
    · cases hform
    · rename_i hvalid
      cases hform
      refine ⟨by simp, rfl, hsize, fun hflag => ?_, fun _ => rfl⟩
      refine validateRawChunkChecksum_of_isValid ?_
      by_contra hwrong
      exact hvalid (by simp [show chunk.hasChecksum = true from hflag, hwrong])
  | zlib =>
    simp only [henc] at hform hsize
    cases hform
    exact ⟨by simp, rfl, hsize, fun hflag => (by cases hflag), fun _ => rfl⟩
  | zstd =>
    simp only [henc] at hform
    cases hform
  | bzip2 =>
    simp only [henc] at hform hsize
    cases hform
    exact ⟨by simp, rfl, hsize, fun hflag => (by cases hflag), fun _ => rfl⟩
  | patternFill pattern =>
    simp only [henc] at hform
    cases hform
    exact ⟨by simp, rfl, rfl, fun hflag => (by cases hflag), fun hpattern => (by cases hpattern)⟩

theorem remember (h : Coherent codec w m) {chunk : EncodedDataChunk} {offset : Nat} {data : Bytes}
    (hdecode : decodeWriteEncodedDataChunk codec chunk = .ok data)
    (hwindow : window m.bytes offset data.length = data)
    (hwritten : offset + data.length ≤ w.logicalInputSize) :
    Coherent codec (w.rememberEncodedDataChunkAt chunk offset data.length) m := by
  unfold EwfWriter.rememberEncodedDataChunkAt
  split
  · exact h
  · rename_i remembered hremembered
    simp only [decodeWriteEncodedDataChunk, validateWriteEncodedDataChunk, bind_eq_ok,
      rejectIf_eq_ok, Decidable.not_not] at hdecode
    obtain ⟨_, ⟨_, _, hdata⟩, hdecode⟩ := hdecode
    obtain ⟨haligned, hlen, hfits, hls, henc, hcompressed, hpattern, hsized, hchecksum, hbytes⟩ :=
      rememberedEncodedDataChunk_spec hdata hremembered
    have hfit : remembered.logicalSize ≤ w.chunkSize := by omega
    refine ⟨h.bytes, h.position, h.written, h.declared, h.sound, h.chunkSize, h.capacity, ?_, ?_⟩
    · intro index chunk' hget hne
      simp only at hget
      split at hget
      · rename_i hindex
        cases hget
        have hoffset : index * w.chunkSize = offset := by
          rw [hindex, Nat.div_mul_cancel (Nat.dvd_of_mod_eq_zero haligned)]
        refine ⟨hfit, by rw [henc]; exact hcompressed, by rw [henc]; exact hpattern,
          by rw [henc]; exact hsized, by rw [hls, hlen]; exact hchecksum, ?_⟩
        rw [hoffset, hls, hwindow, henc, hlen]
        cases hp : chunk.encoding.pattern with
        | none => rw [hbytes hp, hdecode]
        | some pattern =>
          cases henc' : chunk.encoding with
          | patternFill pattern' =>
            rw [henc', encodedDataChunkEncoding, decodeChunk_patternFill] at hdecode
            rw [encodedDataChunkEncoding, decodeChunk_patternFill, hdecode]
          | _ => simp [henc', DataChunkEncoding.pattern] at hp
      · exact h.remembered index chunk' hget hne
    · intro hzero index chunk' hget
      have hnone : w.logicalInputSize = 0 := hzero
      simp only at hget
      split at hget
      · cases hget
        omega
      · exact h.unwritten hzero index chunk' hget

theorem writeEncoded (h : Coherent codec w m) {chunk : EncodedDataChunk} {offset : Nat}
    {data : Bytes} {written : EwfWriter}
    (hdecode : decodeWriteEncodedDataChunk codec chunk = .ok data)
    (hw : { w with currentOffset := offset }.writeToCurrent data = .ok written) :
    Coherent codec (written.rememberEncodedDataChunkAt chunk offset data.length)
      (m.writeEncoded codec offset chunk) := by
  have hafter := h.write hw
  have hmedia : m.writeEncoded codec offset chunk = m.write offset data := by
    simp only [Media.writeEncoded, hdecode]
  rw [hmedia]
  refine hafter.remember hdecode (window_overlay_self m.bytes offset data) ?_
  rw [hafter.written]
  exact Nat.le_max_right _ _

/-! ## The other operations -/

/-- The size that is prepared for, when what has been written fits the declared size. -/
theorem target_eq (h : Coherent codec w m) {size : Nat}
    (hsize : targetMediaInputSize w.logicalInputSize w.options.mediaSize = .ok size) :
    size = m.size := by
  rw [h.declared, h.written] at hsize
  unfold targetMediaInputSize at hsize
  unfold Media.size
  cases hd : m.declared with
  | none =>
    rw [hd] at hsize
    cases hsize
    rfl
  | some mediaSize =>
    simp only [hd, bind_eq_ok, pure_eq_ok, Except.ok.injEq] at hsize
    obtain ⟨_, _, rfl⟩ := hsize
    rfl

theorem seek (h : Coherent codec w m) {position : SeekFrom}
    (hw : w.seekPosition position = .ok w') : Coherent codec w' (m.seek position) := by
  simp only [EwfWriter.seekPosition, bind_eq_ok, pure_eq_ok, Except.ok.injEq] at hw
  obtain ⟨endSize, hend, next, hnext, rfl⟩ := hw
  have hsize : endSize = m.size := h.target_eq hend
  have hposition : next = (m.seek position).position := by
    rw [h.position, hsize] at hnext
    cases position <;>
      simp only [checkedWriterSeek, bind_eq_ok, pure_eq_ok, Except.ok.injEq] at hnext
    case start => exact hnext.symm
    case current =>
      obtain ⟨_, _, _, _, rfl⟩ := hnext
      rfl
    case fromEnd =>
      obtain ⟨_, _, _, _, rfl⟩ := hnext
      rfl
  have hrest : (m.seek position).bytes = m.bytes ∧ (m.seek position).written = m.written ∧
      (m.seek position).declared = m.declared := by
    cases position <;> exact ⟨rfl, rfl, rfl⟩
  obtain ⟨hbytes, hwritten, hdeclared⟩ := hrest
  exact ⟨by rw [hbytes]; exact h.bytes, hposition, by rw [hwritten]; exact h.written,
    by rw [hdeclared]; exact h.declared, h.sound, h.chunkSize, h.capacity,
    by rw [hbytes]; exact h.remembered, h.unwritten⟩

theorem setGeometry (h : Coherent codec w m) {label : String} {options : WriteOptions}
    (hsame : options.mediaSize = w.options.mediaSize)
    (hw : w.setGeometry label options = .ok w') : Coherent codec w' m := by
  simp only [EwfWriter.setGeometry, bind_eq_ok, pure_eq_ok, Except.ok.injEq] at hw
  obtain ⟨_, _, ⟨chunkSize, chunkCapacity⟩, hgeometry, _, hvalid, rfl⟩ := hw
  have hgeom := writerChunkGeometry_eq_ok hgeometry
  simp only [Prod.mk.injEq] at hgeom
  obtain ⟨rfl, rfl⟩ := hgeom
  exact ⟨h.bytes, h.position, h.written, hsame.trans h.declared, sound_of_validateOptions hvalid,
    rfl, rfl, nofun, nofun⟩

theorem copyMediaValues (h : Coherent codec w m) {info : ImageInfo}
    (hw : w.copyMediaValuesFromInfo info = .ok w')
    (hkeep : KeepsGeometry w (.copyMediaValuesFromInfo info)) :
    Coherent codec w' { m with declared := some info.logicalSize } := by
  simp only [EwfWriter.copyMediaValuesFromInfo, bind_eq_ok, pure_eq_ok, Except.ok.injEq] at hw
  obtain ⟨options, hcopy, _, _, ⟨chunkSize, chunkCapacity⟩, hgeometry, rfl⟩ := hw
  have hgeom := writerChunkGeometry_eq_ok hgeometry
  simp only [Prod.mk.injEq] at hgeom
  obtain ⟨rfl, rfl⟩ := hgeom
  obtain ⟨hsound, hdeclared, hdeclaredSize⟩ := copyMediaValuesFromInfo_spec hcopy
  refine ⟨h.bytes, h.position, h.written, hdeclared, hsound, rfl, rfl, ?_, h.unwritten⟩
  intro index chunk hget hne
  rcases hkeep with hkeep | hkeep
  · have hold := h.remembered index chunk hget hne
    have hsame : options.sectorsPerChunk.toNat * options.bytesPerSector.toNat = w.chunkSize :=
      Option.some.inj (hdeclaredSize.symm.trans hkeep)
    rwa [← hsame] at hold
  · exact absurd (hkeep index chunk hget) hne

/-- Every successful operation keeps the writer coherent with the byte array. -/
theorem apply (h : Coherent codec w m) {op : WriterOp} (hw : WriterStep codec w op w')
    (hkeep : KeepsGeometry w op) : Coherent codec w' (m.apply codec op) := by
  unfold WriterStep EwfWriter.apply at hw
  cases op with
  | writeAll data =>
    simp only [EwfWriter.writeAll, bind_eq_ok] at hw
    obtain ⟨_, _, hw⟩ := hw
    exact h.writeToCurrent hw
  | writeAt data offset =>
    simp only [EwfWriter.writeAtOffset, bind_eq_ok] at hw
    obtain ⟨_, _, hw⟩ := hw
    exact h.write hw
  | writeDataChunk chunk =>
    simp only [EwfWriter.writeDataChunk, bind_eq_ok] at hw
    obtain ⟨_, _, _, _, hw⟩ := hw
    exact h.writeToCurrent hw
  | writeDataChunkAt chunk offset =>
    simp only [EwfWriter.writeDataChunkAt, EwfWriter.writeAtOffset, bind_eq_ok] at hw
    obtain ⟨_, _, _, _, _, _, hw⟩ := hw
    exact h.write hw
  | writeEncodedDataChunk chunk =>
    simp only [EwfWriter.writeEncodedDataChunk, bind_eq_ok, pure_eq_ok, Except.ok.injEq] at hw
    obtain ⟨_, _, data, hdecode, written, hw, rfl⟩ := hw
    have hoffset : { w with currentOffset := w.currentOffset } = w := rfl
    rw [← hoffset] at hw
    have hafter := h.writeEncoded hdecode hw
    rw [h.position] at hafter ⊢
    exact hafter
  | writeEncodedDataChunkAt chunk offset =>
    simp only [EwfWriter.writeEncodedDataChunkAt, bind_eq_ok, pure_eq_ok, Except.ok.injEq] at hw
    obtain ⟨_, _, data, hdecode, written, hw, rfl⟩ := hw
    exact h.writeEncoded hdecode hw
  | seek position => exact h.seek hw
  | setFormat format =>
    simp only [EwfWriter.setFormat, bind_eq_ok, pure_eq_ok, Except.ok.injEq] at hw
    obtain ⟨_, _, _, hvalid, rfl⟩ := hw
    exact h.of_options h.declared (sound_of_validateOptions hvalid) rfl rfl
  | setSectorsPerChunk sectorsPerChunk =>
    have hsame : { w.options with sectorsPerChunk }.mediaSize = w.options.mediaSize := rfl
    exact h.setGeometry hsame hw
  | setBytesPerSector bytesPerSector =>
    have hsame : { w.options with bytesPerSector }.mediaSize = w.options.mediaSize := rfl
    exact h.setGeometry hsame hw
  | setMaximumSegmentSize maximumSegmentSize =>
    simp only [EwfWriter.setMaximumSegmentSize, bind_eq_ok, pure_eq_ok, Except.ok.injEq] at hw
    obtain ⟨_, _, _, hvalid, rfl⟩ := hw
    exact h.of_options h.declared (sound_of_validateOptions hvalid) rfl rfl
  | setMediaSize mediaSize =>
    simp only [EwfWriter.setMediaSize, bind_eq_ok, pure_eq_ok, Except.ok.injEq] at hw
    obtain ⟨_, _, _, _, rfl⟩ := hw
    exact h.of_options rfl ⟨h.sound.1, h.sound.2, h.sound.3⟩ rfl rfl
  | setSegmentFileSetIdentifier setIdentifier =>
    simp only [EwfWriter.setSegmentFileSetIdentifier, bind_eq_ok, pure_eq_ok,
      Except.ok.injEq] at hw
    obtain ⟨_, _, rfl⟩ := hw
    exact h.of_setting rfl rfl rfl rfl rfl
  | setCompressionMethod compression =>
    simp only [EwfWriter.setCompressionMethod, bind_eq_ok, rejectIf_eq_ok, pure_eq_ok,
      Except.ok.injEq] at hw
    obtain ⟨_, _, _, hbzip, rfl⟩ := hw
    refine h.of_options h.declared ⟨fun hc => ?_, h.sound.2, h.sound.3⟩ rfl rfl
    by_contra hformat
    exact hbzip ⟨hc, by simpa using hformat⟩
  | setCompressionValues values =>
    simp only [EwfWriter.setCompressionValues, bind_eq_ok, pure_eq_ok, Except.ok.injEq] at hw
    obtain ⟨_, _, rfl⟩ := hw
    exact h.of_setting rfl rfl rfl rfl rfl
  | setMediaType mediaType =>
    simp only [EwfWriter.setMediaType, bind_eq_ok, pure_eq_ok, Except.ok.injEq] at hw
    obtain ⟨_, _, rfl⟩ := hw
    exact h.of_setting rfl rfl rfl rfl rfl
  | setErrorGranularity errorGranularity =>
    simp only [EwfWriter.setErrorGranularity, bind_eq_ok, pure_eq_ok, Except.ok.injEq] at hw
    obtain ⟨_, _, rfl⟩ := hw
    exact h.of_setting rfl rfl rfl rfl rfl
  | setMediaFlags mediaFlags =>
    simp only [EwfWriter.setMediaFlags, bind_eq_ok, pure_eq_ok, Except.ok.injEq] at hw
    obtain ⟨_, _, _, _, rfl⟩ := hw
    exact h.of_setting rfl rfl rfl rfl rfl
  | copyMediaValuesFromInfo info => exact h.copyMediaValues hw hkeep
  | setHashValue identifier value =>
    simp only [EwfWriter.setHashValue, bind_eq_ok, pure_eq_ok, Except.ok.injEq] at hw
    obtain ⟨_, _, rfl⟩ := hw
    exact h.of_setting rfl rfl rfl rfl rfl
  | setMd5Hash md5 =>
    simp only [EwfWriter.setMd5Hash, bind_eq_ok, pure_eq_ok, Except.ok.injEq] at hw
    obtain ⟨_, _, rfl⟩ := hw
    exact h.of_setting rfl rfl rfl rfl rfl
  | setSha1Hash sha1 =>
    simp only [EwfWriter.setSha1Hash, bind_eq_ok, pure_eq_ok, Except.ok.injEq] at hw
    obtain ⟨_, _, rfl⟩ := hw
    exact h.of_setting rfl rfl rfl rfl rfl
  | appendSession range =>
    simp only [EwfWriter.appendSession, bind_eq_ok, pure_eq_ok, Except.ok.injEq] at hw
    obtain ⟨_, _, _, _, rfl⟩ := hw
    exact h.of_setting rfl rfl rfl rfl rfl
  | appendTrack range =>
    simp only [EwfWriter.appendTrack, bind_eq_ok, pure_eq_ok, Except.ok.injEq] at hw
    obtain ⟨_, _, _, _, rfl⟩ := hw
    exact h.of_setting rfl rfl rfl rfl rfl
  | copyHashValuesFromInfo | appendAcquisitionError | appendChecksumError =>
    cases hw
    exact h.of_setting rfl rfl rfl rfl rfl
  | signalAbort =>
    cases hw
    exact ⟨h.bytes, h.position, h.written, h.declared, h.sound, h.chunkSize, h.capacity,
      h.remembered, h.unwritten⟩

theorem run (h : Coherent codec w m) {ops : List WriterOp}
    (hrun : Run (fun w op w' => WriterStep codec w op w' ∧ KeepsGeometry w op) w ops w') :
    Coherent codec w' (ops.foldl (Media.apply codec) m) :=
  hrun.simulates (fun _ _ _ _ hr hstep => hr.apply hstep.1 hstep.2) h

end Coherent

/-! ## Preparation -/

/-- What the reader of the finished image asks and the writer does not check: a chunk size that it
opens, a compressed chunk of zeros that fits into a SMART image, and acceptable remembered chunks. -/
structure ReaderAccepts (codec : Codec) (w : EwfWriter) : Prop where
  chunkSize : w.chunkSize ≤ maxChunkSize
  zeros : ZerosFit codec w.options w.chunkSize
  remembered : ∀ index chunk, w.encodedChunks index = some chunk → chunk.logicalSize ≠ 0 →
    Acceptable w.options w.chunkSize chunk

/-- The prepared output is the byte array, cut into chunks of the declared geometry and padded
with zeros to whole sectors of the declared size. -/
structure PreparesMedia (codec : Codec) (digests : Digests) (w : EwfWriter) (m : Media)
    (prepared : PreparedWrite) : Prop where
  logicalSize : prepared.logicalSize =
    divCeil m.size w.options.bytesPerSector.toNat * w.options.bytesPerSector.toNat
  chunkSize : prepared.chunkSize =
    prepared.options.sectorsPerChunk.toNat * prepared.options.bytesPerSector.toNat
  emits : EmitsMedia codec digests prepared.options prepared.chunkSize prepared.logicalSize m.bytes
    prepared.spooled
  tail : m.ZeroBeyond

theorem Coherent.prepareWrite {codec : Codec} {digests : Digests} {w : EwfWriter} {m : Media}
    {prepared : PreparedWrite} (h : Coherent codec w m) (hlaw : codec.Lawful)
    (hbounded : codec.Bounded) (haccepts : ReaderAccepts codec w) (hm : m.ZeroBeyond)
    (hp : w.prepareWrite codec digests = .ok prepared) :
    PreparesMedia codec digests w m prepared := by
  simp only [EwfWriter.prepareWrite, bind_eq_ok, pure_eq_ok, Except.ok.injEq] at hp
  obtain ⟨_, _, logicalSize, hsize, spooled, hspooled, hashes, _, _, _, _, _, _, _, rfl⟩ := hp
  refine ⟨?_, h.chunkSize, ?_, hm⟩
  · simp only [EwfWriter.logicalSize, paddedLogicalSize, bind_eq_ok, okOr_eq_ok,
      checkedMul_eq_some] at hsize
    obtain ⟨size, htarget, _, rfl⟩ := hsize
    rw [h.target_eq htarget]
  · rw [h.capacity] at hspooled
    have hready : Encodable codec w.options w.chunkSize (mediaOf w.raw) w.encodedChunks := by
      refine ⟨hlaw, hbounded, h.sound, h.chunkSize_pos, haccepts.chunkSize, haccepts.zeros,
        fun index chunk hget hne => ⟨?_, haccepts.remembered index chunk hget hne⟩⟩
      rw [h.bytes]
      exact h.remembered index chunk hget hne
    have hemits := encodeRawSpool_emits hready hspooled
    rw [h.bytes] at hemits
    exact hemits.of_options rfl rfl

/-- In a run whose copies of media values keep the chunk size, or find no remembered chunk, and that
leaves a writer whose chunks the reader accepts, the prepared output reads as the byte array that
the same operations describe. -/
theorem prepared_media_of_kept_geometry {codec : Codec} (hlaw : codec.Lawful)
    (hbounded : codec.Bounded) {digests : Digests} {options : WriteOptions} {w w' : EwfWriter}
    {ops : List WriterOp} {prepared : PreparedWrite}
    (hcreate : EwfWriter.create options = .ok w)
    (hrun : Run (fun w op w' => WriterStep codec w op w' ∧ KeepsGeometry w op) w ops w')
    (haccepts : ReaderAccepts codec w') (hp : w'.prepareWrite codec digests = .ok prepared) :
    PreparesMedia codec digests w' (ops.foldl (Media.apply codec) (.initial options.mediaSize))
      prepared :=
  ((Coherent.of_create hcreate).run hrun).prepareWrite hlaw hbounded haccepts
    (Media.zeroBeyond_run codec options.mediaSize ops) hp

/-! ## The copy that changes the chunk size -/

/-- A codec that stores the data behind one marker byte. -/
def markerCodec : Codec where
  zlibEncode := fun _ data => 0x78 :: data
  bzip2Encode := fun _ data => 0x42 :: data
  zlibDecoder := fun encoded => ⟨encoded.tail, none⟩
  bzip2Decoder := fun encoded => ⟨encoded.tail, none⟩
  zstdDecoder := fun _ _ => .error "unsupported"

theorem markerCodec_lawful : markerCodec.Lawful := ⟨fun _ _ => rfl, fun _ _ => rfl⟩

theorem markerCodec_bounded : markerCodec.Bounded where
  zlib_pos _ data := Nat.succ_pos data.length
  zlib _ data := by
    simp only [markerCodec, List.length_cons, zlibCompressBound]
    omega
  bzip2_pos _ data := Nat.succ_pos data.length
  bzip2 _ data := by
    simp only [markerCodec, List.length_cons]
    omega

def noDigests : Digests := ⟨fun _ => [], fun _ => [], fun _ => []⟩

/-- A writer with two-byte chunks. -/
def pairOptions : WriteOptions := { sectorsPerChunk := 2, bytesPerSector := 1 }

/-- The one-byte chunk `7`, remembered for the chunk index 1 when it is written at offset 2. -/
def storedSeven : EncodedDataChunk where
  logicalSize := 1
  encodedSize := 1
  encoding := .raw
  hasChecksum := false
  data := [7]

/-- The description of an image of three bytes in one-byte chunks. -/
def singleByteChunks : ImageInfo where
  format := .ewf1
  formatProfile := .ewf
  logicalSize := 3
  media := { sectorsPerChunk := some 1, bytesPerSector := some 1 }

/-- The chunk written at offset 2 of the old geometry is emitted for the byte at offset 1. -/
theorem stale_chunk_emitted : (do
    let w ← EwfWriter.create pairOptions
    let w ← w.apply markerCodec (.writeEncodedDataChunkAt storedSeven 2)
    let w ← w.apply markerCodec (.copyMediaValuesFromInfo singleByteChunks)
    let prepared ← w.prepareWrite markerCodec noDigests
    return (prepared.logicalSize, prepared.chunkSize, prepared.spooled.chunks[1]?.map fun stored =>
      decodeStored markerCodec prepared.options prepared.chunkSize prepared.spooled.spool stored 1 1)
    : Result (Nat × Nat × Option (Result Bytes))) = .ok (3, 1, some (.ok [7])) := by
  decide

/-- Without the condition a remembered chunk can be emitted for another range of the media. -/
theorem not_prepared_media_of_any_run :
    ¬ ∀ (codec : Codec) (_ : codec.Lawful) (_ : codec.Bounded) (digests : Digests)
      (options : WriteOptions) (w w' : EwfWriter) (ops : List WriterOp) (prepared : PreparedWrite),
      EwfWriter.create options = .ok w → Run (WriterStep codec) w ops w' →
      w'.prepareWrite codec digests = .ok prepared →
      PreparesMedia codec digests w' (ops.foldl (Media.apply codec) (.initial options.mediaSize))
        prepared := by
  intro hall
  have htrace := stale_chunk_emitted
  simp only [bind_eq_ok, pure_eq_ok, Except.ok.injEq, Prod.mk.injEq] at htrace
  obtain ⟨w, hcreate, w₁, h₁, w₂, h₂, prepared, hp, hsize, hchunk, hstored⟩ := htrace
  have hemits := (hall markerCodec markerCodec_lawful markerCodec_bounded noDigests pairOptions w w₂ _
    prepared hcreate (.cons h₁ (.one h₂)) hp).emits
  obtain ⟨stored, hget, hseven⟩ := Option.map_eq_some_iff.mp hstored
  have hdecodes := (hemits.chunks 1 stored hget).decodes 1
  rw [hsize, hchunk] at hdecodes
  rw [hchunk] at hseven
  have hdecodes := hdecodes (by decide) (by decide)
  have hmedia := Except.ok.inj (hseven.symm.trans hdecodes)
  revert hmedia
  decide

/-- An unmarked raw chunk with four bytes behind its data is remembered and emitted as it is. An
EWF1 reader takes the four bytes for a checksum. -/
example : (do
    let w ← EwfWriter.create { pairOptions with sectorsPerChunk := 1 }
    let w ← w.apply markerCodec (.writeEncodedDataChunk
      { storedSeven with encodedSize := 5, data := [7, 0, 0, 0, 0] })
    let prepared ← w.prepareWrite markerCodec noDigests
    return prepared.spooled.chunks[0]?.map fun stored =>
      decodeStored markerCodec prepared.options prepared.chunkSize prepared.spooled.spool stored 1 1
    : Result (Option (Result Bytes))) =
      .ok (some (.error (.malformed "raw chunk checksum mismatch"))) := by
  decide

/-- The description of an image of four bytes in two-byte chunks. -/
def twoByteChunks : ImageInfo where
  format := .ewf1
  formatProfile := .ewf
  logicalSize := 4
  media := { sectorsPerChunk := some 2, bytesPerSector := some 1 }

/-- The condition admits runs with writes, remembered chunks and copies. -/
theorem prepared_media_of_kept_geometry_pair :
    ∃ (w w' : EwfWriter) (prepared : PreparedWrite),
      EwfWriter.create pairOptions = .ok w ∧
      w'.prepareWrite markerCodec noDigests = .ok prepared ∧
      PreparesMedia markerCodec noDigests w'
        (((Media.initial none).apply markerCodec (.writeEncodedDataChunkAt storedSeven 2)).apply
          markerCodec (.copyMediaValuesFromInfo twoByteChunks)) prepared := by
  have htrace : ∃ w w₁ w₂ prepared, EwfWriter.create pairOptions = .ok w ∧
      WriterStep markerCodec w (.writeEncodedDataChunkAt storedSeven 2) w₁ ∧
      WriterStep markerCodec w₁ (.copyMediaValuesFromInfo twoByteChunks) w₂ ∧
      w₂.prepareWrite markerCodec noDigests = .ok prepared ∧ w₁.chunkSize = 2 ∧ w₂.chunkSize = 2 ∧
      w₂.options.format = .ewf1Logical ∧
      ∀ index chunk, w₂.encodedChunks index = some chunk →
        chunk = ⟨1, .raw, ⟨[7], false, false, none⟩⟩ := by
    unfold WriterStep
    refine ⟨_, _, _, _, rfl, rfl, rfl, rfl, rfl, rfl, rfl, fun index chunk hchunk => ?_⟩
    change (if index = 1 then some (⟨1, .raw, ⟨[7], false, false, none⟩⟩ : RememberedEncodedChunk)
      else if 1 ≤ index ∧ index ≤ 1 then none else none) = some chunk at hchunk
    split at hchunk
    · exact (Option.some.inj hchunk).symm
    · simp at hchunk
  obtain ⟨w, w₁, w₂, prepared, hcreate, hwrite, hcopy, hp, hsize, hsize₂, hformat, hchunks⟩ := htrace
  have haccepts : ReaderAccepts markerCodec w₂ := by
    refine ⟨by rw [hsize₂]; decide, fun hsmart => ?_, fun index chunk hchunk _ => ?_⟩
    · rw [hformat] at hsmart
      cases hsmart
    · rw [hchunks index chunk hchunk]
      exact ⟨fun _ _ _ hlength => absurd hlength (by decide), fun hsmart => by
        rw [hformat] at hsmart
        cases hsmart⟩
  have hkeeps : KeepsGeometry w₁ (.copyMediaValuesFromInfo twoByteChunks) := by
    refine .inl ?_
    rw [hsize]
    rfl
  exact ⟨w, w₂, prepared, hcreate, hp, prepared_media_of_kept_geometry markerCodec_lawful
    markerCodec_bounded hcreate (.cons ⟨hwrite, trivial⟩ (.one ⟨hcopy, hkeeps⟩)) haccepts hp⟩

end EwfImage
