import EwfImage.Writer.StoredSize

/-!
# Encoded chunks decode to the media

A new chunk reads back by its representation. A remembered one does so when it decodes to
the media range of its index and the reader accepts what the writer does not check of it:
the checksum that an EWF1 reader expects behind a raw chunk of a certain size, and the length
of a compressed chunk of a SMART image. The loop of `encodeRawSpool` adds one such chunk a
turn, so every emitted chunk reads as its range of the media (`encodeRawSpool_emits`).
-/

namespace EwfImage

open Fallible Word LittleEndian Slice ByteStore

/-- The media bytes of the raw spool. -/
abbrev mediaOf (raw : Bytes) : Nat → UInt8 := contents 0 raw

theorem readAtFillingZeroes_eq (raw : Bytes) (offset size : Nat) :
    readAtFillingZeroes raw offset size = window (mediaOf raw) offset size := by
  rw [window_contents]
  simp only [readAtFillingZeroes, slice, List.length_take, List.length_drop]
  congr 2
  omega

/-- What is read back from an encoded chunk, whatever room the reader's buffer has. -/
structure ReadsAs (codec : Codec) (options : WriteOptions) (chunkSize : Nat)
    (encoded : EncodedChunk) (data : Bytes) : Prop where
  sized : validateStoredSize options chunkSize (encoded.descriptorAt 0) = .ok ()
  decodes : ∀ maximum, data.length ≤ maximum → maximum ≤ chunkSize →
    decodeEncoded codec options chunkSize encoded data.length maximum = .ok data

/-! ## New chunks -/

/-- The compressed chunk of zeros is one that a SMART image may have. -/
def ZerosFit (codec : Codec) (options : WriteOptions) (chunkSize : Nat) : Prop :=
  options.format = .ewf1Smart → options.compressionValues.emptyBlock = true →
    (codec.zlibEncode (emptyBlockZlibCompression options.compressionValues.level)
      (List.replicate chunkSize 0)).length ≤ 2 * chunkSize

theorem eq_replicate_of_isFullZeroChunk {data : Bytes} {chunkSize : Nat}
    (h : isFullZeroChunk data chunkSize = true) : data = List.replicate chunkSize 0 := by
  simp only [isFullZeroChunk, Bool.and_eq_true, beq_iff_eq, List.all_eq_true] at h
  exact List.eq_replicate_iff.mpr ⟨h.1, h.2⟩

theorem readable_encodeChunk {codec : Codec} {options : WriteOptions} {chunkSize : Nat}
    {data : Bytes} {encoded : EncodedChunk} (hlaw : codec.Lawful) (hbounded : codec.Bounded)
    (hsound : options.Sound) (hchunk : chunkSize ≤ maxChunkSize)
    (hzeros : ZerosFit codec options chunkSize) (hsize : data.length ≤ chunkSize)
    (h : encodeChunk codec data options.compression options.compressionValues chunkSize
      (isEwf2Format options.format)
      (!isEwf2Format options.format && options.compressionValues.emptyBlock) = .ok encoded) :
    ReadsAs codec options chunkSize encoded data := by
  have hmax : maxChunkSize = 134217728 := rfl
  have hlimit : u64Limit = 18446744073709551616 := rfl
  obtain ⟨encoding, hstored⟩ := storedAs_of_encodeChunk hsound h
  refine ⟨(hstored.validateStoredSize_iff hbounded hchunk hsize).mpr fun hsmart hzlib => ?_,
    fun maximum hle hbuffer => hstored.decodes hlaw (by omega) hsize hle (by omega)⟩
  cases hstored with
  | pattern pattern format repeated => cases hzlib
  | zeros format emptyBlock zeros =>
    rw [eq_replicate_of_isFullZeroChunk zeros]
    exact hzeros hsmart emptyBlock
  | raw => cases hzlib
  | zlib level method shorter =>
    change (codec.zlibEncode level data).length ≤ 2 * chunkSize
    omega
  | bzip2 level method format => cases hzlib

/-! ## Remembered chunks -/

def encodedDataChunkEncoding : DataChunkEncoding → ChunkEncoding
  | .raw => .raw
  | .zlib => .zlib
  | .zstd => .zstd
  | .bzip2 => .bzip2
  | .patternFill pattern => .patternFill pattern

def DataChunkEncoding.pattern : DataChunkEncoding → Option UInt64
  | .patternFill pattern => some pattern
  | _ => none

/-- The remembered chunk of index `index` decodes to that chunk's range of the media. -/
structure RememberedAt (codec : Codec) (chunkSize : Nat) (media : Nat → UInt8) (index : Nat)
    (remembered : RememberedEncodedChunk) : Prop where
  size : remembered.logicalSize ≤ chunkSize
  compressed : remembered.encoded.compressed = true ↔ remembered.encoding ≠ .raw
  pattern : remembered.encoded.patternFill = remembered.encoding.pattern
  sized : validateEncodedSize remembered.encoded.bytes.length chunkSize
    (encodedDataChunkEncoding remembered.encoding) = .ok ()
  checksum : remembered.encoded.hasChecksum = true →
    validateRawChunkChecksum remembered.encoded.bytes remembered.logicalSize = .ok ()
  decodes : decodeChunk codec remembered.encoded.bytes
    (encodedDataChunkEncoding remembered.encoding) remembered.logicalSize =
      .ok (window media (index * chunkSize) remembered.logicalSize)

/-- What the reader asks of a remembered chunk and the writer does not check: the checksum of a raw
EWF1 chunk that has four bytes more than it stands for, without a mark of a checksum, and the length
of a compressed chunk in a SMART image. -/
structure Acceptable (options : WriteOptions) (chunkSize : Nat)
    (remembered : RememberedEncodedChunk) : Prop where
  trailer : isEwf2Format options.format = false → remembered.encoding = .raw →
    remembered.encoded.hasChecksum = false →
    remembered.encoded.bytes.length = remembered.logicalSize + 4 →
    validateRawChunkChecksum remembered.encoded.bytes remembered.logicalSize = .ok ()
  length : options.format = .ewf1Smart → remembered.encoding = .zlib →
    remembered.encoded.bytes.length ≤ 2 * chunkSize

section Remembered

variable {codec : Codec} {options : WriteOptions} {chunkSize index : Nat} {media : Nat → UInt8}
  {remembered : RememberedEncodedChunk}

/-- A raw chunk of a size that the reader accepts is at most four bytes longer than a chunk. -/
theorem le_of_validateEncodedSize_raw {size : Nat}
    (h : validateEncodedSize size chunkSize .raw = .ok ()) : size ≤ chunkSize + 4 := by
  simp only [validateEncodedSize, encodedSizeCap, bind_eq_ok, rejectIf_eq_ok,
    rawChunkSizeCap_eq_ok] at h
  obtain ⟨_, _, cap, ⟨_, rfl⟩, hle⟩ := h
  omega

/-- The reader finds the encoding that the chunk was handed in with. -/
theorem RememberedAt.storedEncoding (h : RememberedAt codec chunkSize media index remembered)
    (hcap : chunkSize + 4 < u64Limit)
    (hcompat : encodedDataChunkEncodingCompatible remembered.encoding options = true) :
    storedEncoding options chunkSize (remembered.encoded.descriptorAt 0) =
      .ok (encodedDataChunkEncoding remembered.encoding) := by
  obtain ⟨-, hcompressed, hpattern, hsized, -, -⟩ := h
  cases henc : remembered.encoding with
  | raw =>
    rw [henc] at hsized
    have hc : remembered.encoded.compressed = false := by simpa [henc] using hcompressed
    exact storedEncoding_raw hcap hc (le_of_validateEncodedSize_raw hsized)
  | zlib =>
    simp only [henc, encodedDataChunkEncodingCompatible, decide_eq_true_eq] at hcompat
    exact storedEncoding_zlib (hcompressed.mpr (by simp [henc]))
      (by rw [hpattern, henc]; rfl) (.inl hcompat)
  | zstd => simp [henc, encodedDataChunkEncodingCompatible] at hcompat
  | bzip2 =>
    simp only [henc, encodedDataChunkEncodingCompatible, Bool.and_eq_true,
      decide_eq_true_eq] at hcompat
    exact storedEncoding_bzip2 (hcompressed.mpr (by simp [henc]))
      (by rw [hpattern, henc]; rfl) hcompat.1 hcompat.2
  | patternFill pattern =>
    simp only [henc, encodedDataChunkEncodingCompatible] at hcompat
    exact storedEncoding_pattern (hcompressed.mpr (by simp [henc]))
      (by rw [hpattern, henc]; rfl) hcompat

/-- The stored size was checked when the chunk was handed in; SMART images bound it once more. -/
theorem RememberedAt.sized_stored (h : RememberedAt codec chunkSize media index remembered)
    (haccept : Acceptable options chunkSize remembered) (hchunk : chunkSize ≤ maxChunkSize)
    (hcompat : encodedDataChunkEncodingCompatible remembered.encoding options = true) :
    validateStoredSize options chunkSize (remembered.encoded.descriptorAt 0) = .ok () := by
  have hmax : maxChunkSize = 134217728 := rfl
  have hlimit : u64Limit = 18446744073709551616 := rfl
  have hsize : (remembered.encoded.descriptorAt 0).dataSize = remembered.encoded.bytes.length := rfl
  rw [validateStoredSize, h.storedEncoding (by omega) hcompat, ok_bind, hsize]
  by_cases hformat : isEwf2Format options.format = true
  · rw [if_pos hformat]
    exact h.sized
  · rw [if_neg hformat]
    unfold validateEwf1EncodedSize
    by_cases hzlib : encodedDataChunkEncoding remembered.encoding = .zlib
    · have henc : remembered.encoding = .zlib := by
        cases hkind : remembered.encoding <;> simp_all [encodedDataChunkEncoding]
      have hsized := h.sized
      simp only [hzlib, validateEncodedSize, encodedSizeCap, bind_eq_ok, rejectIf_eq_ok] at hsized
      obtain ⟨_, hne, cap, hcap, hle⟩ := hsized
      rw [if_pos hzlib, hcap, ok_bind]
      split
      · exact h.sized
      · rename_i hlarge
        have hsmart : options.format = .ewf1Smart := by
          by_contra hother
          exact hlarge ⟨by simpa using hother, by omega⟩
        have hlength := haccept.length hsmart henc
        rw [rejectIf_neg _ hne, ok_bind, checkedMul_of_lt (by omega), okOr_some, ok_bind,
          rejectIf_eq_ok]
        omega
    · rw [if_neg hzlib]
      exact h.sized

/-- The checksum is right wherever the reader looks at it. -/
theorem RememberedAt.checksum_stored (h : RememberedAt codec chunkSize media index remembered)
    (haccept : Acceptable options chunkSize remembered) :
    (if storedChecksum options (remembered.encoded.descriptorAt 0)
        (encodedDataChunkEncoding remembered.encoding) remembered.logicalSize then
      validateRawChunkChecksum remembered.encoded.bytes remembered.logicalSize
    else .ok ()) = .ok () := by
  by_cases hchecked : storedChecksum options (remembered.encoded.descriptorAt 0)
      (encodedDataChunkEncoding remembered.encoding) remembered.logicalSize = true
  · rw [if_pos hchecked]
    cases hflag : remembered.encoded.hasChecksum with
    | true => exact h.checksum hflag
    | false =>
      unfold storedChecksum at hchecked
      by_cases hformat : isEwf2Format options.format = true
      · rw [if_pos hformat, decide_eq_true_eq] at hchecked
        have hunmarked := (Ewf2.entryFlags_spec (.ofU16 0) remembered.encoded.compressed
          remembered.encoded.hasChecksum remembered.encoded.patternFill.isSome).2.1.mp hchecked.2
        rw [hflag] at hunmarked
        cases hunmarked
      · rw [if_neg hformat, decide_eq_true_eq] at hchecked
        have hraw : remembered.encoding = .raw := by
          have hencoding := hchecked.1
          cases hkind : remembered.encoding <;> simp_all [encodedDataChunkEncoding]
        exact haccept.trailer (Bool.eq_false_of_not_eq_true hformat) hraw hflag hchecked.2.symm
  · rw [if_neg hchecked]

/-- A remembered chunk that `encodeRawSpool` reuses reads back under the final options. -/
theorem RememberedAt.readable (h : RememberedAt codec chunkSize media index remembered)
    (haccept : Acceptable options chunkSize remembered) (hchunk : chunkSize ≤ maxChunkSize)
    (hcompat : encodedDataChunkEncodingCompatible remembered.encoding options = true) :
    ReadsAs codec options chunkSize remembered.encoded
      (window media (index * chunkSize) remembered.logicalSize) := by
  have hmax : maxChunkSize = 134217728 := rfl
  have hlimit : u64Limit = 18446744073709551616 := rfl
  refine ⟨h.sized_stored haccept hchunk hcompat, fun maximum hle hbuffer => ?_⟩
  rw [length_window] at hle ⊢
  have hzstd : encodedDataChunkEncoding remembered.encoding ≠ .zstd := by
    cases hkind : remembered.encoding <;>
      simp_all [encodedDataChunkEncoding, encodedDataChunkEncodingCompatible]
  rw [decodeEncoded, decodeStoredBytes, h.storedEncoding (by omega) hcompat, ok_bind,
    h.checksum_stored haccept, ok_bind]
  exact decodeChunkWithPadding_larger hzstd h.decodes hle (by omega)

end Remembered

/-! ## The chunk spool -/

theorem copyChunk_append {spool more : Bytes} {descriptor : ChunkDescriptor}
    (h : descriptor.dataOffset + descriptor.dataSize ≤ spool.length) :
    copyChunk (spool ++ more) descriptor = copyChunk spool descriptor :=
  slice_append_left h

theorem copyChunk_appended (spool : Bytes) (encoded : EncodedChunk) :
    copyChunk (spool ++ encoded.bytes) (encoded.descriptorAt spool.length) = encoded.bytes := by
  have h := slice_append_middle spool encoded.bytes []
  rwa [List.append_nil] at h

/-- A chunk reads back from the spool as it does on its own. -/
theorem decodeStored_appended {codec : Codec} {options : WriteOptions} {chunkSize maximum : Nat}
    {encoded : EncodedChunk} {data : Bytes} (spool : Bytes)
    (h : ReadsAs codec options chunkSize encoded data) (hle : data.length ≤ maximum)
    (hbuffer : maximum ≤ chunkSize) :
    decodeStored codec options chunkSize (spool ++ encoded.bytes)
      (encoded.descriptorAt spool.length) data.length maximum = .ok data := by
  have hsized : validateStoredSize options chunkSize (encoded.descriptorAt spool.length) = .ok () :=
    h.sized
  rw [decodeStored, hsized, ok_bind, copyChunk_appended]
  exact h.decodes maximum hle hbuffer

theorem appendChunk_eq_ok {spool spool' : Bytes} {encoded : EncodedChunk}
    {descriptor : ChunkDescriptor} (h : appendChunk spool encoded = .ok (descriptor, spool')) :
    descriptor = encoded.descriptorAt spool.length ∧ spool' = spool ++ encoded.bytes := by
  simp only [appendChunk, bind_eq_ok, okOr_eq_ok, pure_eq_ok, Except.ok.injEq,
    Prod.mk.injEq] at h
  obtain ⟨_, _, rfl, rfl⟩ := h
  exact ⟨rfl, rfl⟩

/-! ## The loop -/

/-- Chunk `index` of a spool is stored and reads as its range of the media. -/
structure ChunkHolds (codec : Codec) (options : WriteOptions) (chunkSize logicalSize : Nat)
    (media : Nat → UInt8) (spool : Bytes) (index : Nat) (descriptor : ChunkDescriptor) : Prop where
  stored : descriptor.dataOffset + descriptor.dataSize ≤ spool.length
  decodes : ∀ maximum, min (logicalSize - index * chunkSize) chunkSize ≤ maximum →
    maximum ≤ chunkSize → decodeStored codec options chunkSize spool descriptor
      (min (logicalSize - index * chunkSize) chunkSize) maximum =
        .ok (window media (index * chunkSize) (min (logicalSize - index * chunkSize) chunkSize))

section Loop

variable {codec : Codec} {options : WriteOptions} {raw : Bytes} {logicalSize chunkSize : Nat}
  {remembered : EncodedChunks}

theorem ChunkHolds.append {media : Nat → UInt8} {spool : Bytes} {index : Nat}
    {descriptor : ChunkDescriptor} (more : Bytes)
    (h : ChunkHolds codec options chunkSize logicalSize media spool index descriptor) :
    ChunkHolds codec options chunkSize logicalSize media (spool ++ more) index descriptor := by
  refine ⟨by rw [List.length_append]; exact Nat.le_add_right_of_le h.stored,
    fun maximum hle hbuffer => ?_⟩
  rw [decodeStored, copyChunk_append h.stored]
  exact h.decodes maximum hle hbuffer

/-- Everything emitted before `offset` decodes to the media, and what is still remembered was
remembered from the start. -/
structure EncodeInvariant (codec : Codec) (options : WriteOptions) (raw : Bytes)
    (logicalSize chunkSize : Nat) (remembered : EncodedChunks) (offset : Nat) (state : EncodeState) :
    Prop where
  offset_eq : offset = min (state.chunks.length * chunkSize) logicalSize
  started : state.chunks ≠ [] → (state.chunks.length - 1) * chunkSize < logicalSize
  chunks : ∀ index descriptor, state.chunks[index]? = some descriptor →
    ChunkHolds codec options chunkSize logicalSize (mediaOf raw) state.spool index descriptor
  hashed : state.hashed = window (mediaOf raw) 0 offset
  remembered : ∀ index chunk, state.encodedChunks index = some chunk →
    remembered index = some chunk

/-- What the encoder needs for its chunks to read back: sound options with a chunk size that the
reader accepts, and remembered chunks that decode to their range and are acceptable. -/
structure Encodable (codec : Codec) (options : WriteOptions) (chunkSize : Nat)
    (media : Nat → UInt8) (remembered : EncodedChunks) : Prop where
  lawful : codec.Lawful
  bounded : codec.Bounded
  sound : options.Sound
  pos : 0 < chunkSize
  le : chunkSize ≤ maxChunkSize
  zeros : ZerosFit codec options chunkSize
  remembered : ∀ index chunk, remembered index = some chunk → chunk.logicalSize ≠ 0 →
    RememberedAt codec chunkSize media index chunk ∧ Acceptable options chunkSize chunk

theorem chooseEncoded_readable {media : Nat → UInt8} {index size : Nat}
    {candidate : Option RememberedEncodedChunk} {encoded : EncodedChunk}
    (h : Encodable codec options chunkSize media remembered)
    (hcandidate : ∀ chunk, candidate = some chunk → remembered index = some chunk)
    (hpos : 0 < size) (hsize : size ≤ chunkSize)
    (hchosen : chooseEncoded codec options chunkSize (window media (index * chunkSize) size)
      candidate = .ok encoded) :
    ReadsAs codec options chunkSize encoded (window media (index * chunkSize) size) := by
  have hlen : (window media (index * chunkSize) size).length = size := length_window ..
  have hencode : ∀ encoded', encodeChunk codec (window media (index * chunkSize) size)
      options.compression options.compressionValues chunkSize (isEwf2Format options.format)
      (!isEwf2Format options.format && options.compressionValues.emptyBlock) = .ok encoded' →
      ReadsAs codec options chunkSize encoded' (window media (index * chunkSize) size) :=
    fun encoded' h' =>
      readable_encodeChunk h.lawful h.bounded h.sound h.le h.zeros (by omega) h'
  unfold chooseEncoded at hchosen
  simp only [hlen] at hchosen
  split at hchosen
  · rename_i chunk
    split at hchosen
    · rename_i hfit
      cases hchosen
      obtain ⟨hls, hcompat⟩ := hfit
      obtain ⟨hat, haccept⟩ := h.remembered index chunk (hcandidate chunk rfl) (by omega)
      rw [← hls]
      exact hat.readable haccept h.le hcompat
    · exact hencode _ hchosen
  · exact hencode _ hchosen

/-- One turn of the loop stores the next chunk of the media. -/
theorem EncodeInvariant.step (hready : Encodable codec options chunkSize (mediaOf raw) remembered)
    {offset : Nat} {state : EncodeState} {encoded : EncodedChunk}
    (hinv : EncodeInvariant codec options raw logicalSize chunkSize remembered offset state)
    (hlt : offset < logicalSize)
    (hencoded : chooseEncoded codec options chunkSize
      (readAtFillingZeroes raw offset (min (logicalSize - offset) chunkSize))
      (state.encodedChunks (offset / chunkSize)) = .ok encoded) :
    EncodeInvariant codec options raw logicalSize chunkSize remembered
      (offset + min (logicalSize - offset) chunkSize)
      { chunks := state.chunks ++ [encoded.descriptorAt state.spool.length]
        spool := state.spool ++ encoded.bytes
        hashed := state.hashed ++
          readAtFillingZeroes raw offset (min (logicalSize - offset) chunkSize)
        encodedChunks := fun index =>
          if index = offset / chunkSize then none else state.encodedChunks index } := by
  obtain ⟨hoffset, hstarted, hchunks, hhashed, hstill⟩ := hinv
  have hpos := hready.pos
  have hn : offset = state.chunks.length * chunkSize := by omega
  have hindex : offset / chunkSize = state.chunks.length := by
    rw [hn, Nat.mul_div_cancel _ hpos]
  have hnext : (state.chunks.length + 1) * chunkSize = offset + chunkSize := by
    rw [Nat.add_mul, Nat.one_mul, hn]
  rw [readAtFillingZeroes_eq, hindex, hn] at hencoded
  have hreadable := chooseEncoded_readable hready (fun chunk hchunk => hstill _ _ hchunk)
    (by omega) (by omega) hencoded
  refine ⟨?_, ?_, ?_, ?_, ?_⟩
  · simp only [List.length_append, List.length_singleton, hnext]
    omega
  · intro _
    simp only [List.length_append, List.length_singleton, Nat.add_sub_cancel]
    omega
  · intro index descriptor hget
    rcases Nat.lt_trichotomy index state.chunks.length with hi | hi | hi
    · rw [List.getElem?_append_left hi] at hget
      exact (hchunks _ _ hget).append _
    · rw [hi, List.getElem?_append_right (Nat.le_refl _), Nat.sub_self] at hget
      cases hget
      refine ⟨by simp [EncodedChunk.descriptorAt], fun maximum hle hbuffer => ?_⟩
      have hlength : (window (mediaOf raw) (state.chunks.length * chunkSize)
          (min (logicalSize - state.chunks.length * chunkSize) chunkSize)).length =
            min (logicalSize - state.chunks.length * chunkSize) chunkSize := length_window ..
      rw [hi] at hle ⊢
      have hread := decodeStored_appended state.spool hreadable
        (by rw [hlength]; exact hle) hbuffer
      rwa [hlength] at hread
    · rw [List.getElem?_eq_none (by simpa using Nat.succ_le_of_lt hi)] at hget
      cases hget
  · rw [hhashed, readAtFillingZeroes_eq]
    have happend := window_append (mediaOf raw) 0 offset (min (logicalSize - offset) chunkSize)
    rwa [Nat.zero_add] at happend
  · intro index chunk hget
    simp only at hget
    split at hget
    · cases hget
    · exact hstill _ _ hget

theorem encodeRawSpoolLoop_invariant
    (hready : Encodable codec options chunkSize (mediaOf raw) remembered) {fuel offset : Nat}
    {state state' : EncodeState}
    (hinv : EncodeInvariant codec options raw logicalSize chunkSize remembered offset state)
    (hfuel : logicalSize ≤ offset + fuel)
    (h : encodeRawSpoolLoop codec raw logicalSize chunkSize chunkSize options fuel offset state =
      .ok state') :
    EncodeInvariant codec options raw logicalSize chunkSize remembered logicalSize state' := by
  have hle : offset ≤ logicalSize := by
    have := hinv.offset_eq
    omega
  have hpos := hready.pos
  induction fuel generalizing offset state with
  | zero =>
    cases h
    obtain rfl : offset = logicalSize := by omega
    exact hinv
  | succ fuel ih =>
    unfold encodeRawSpoolLoop at h
    split at h
    · rename_i hlt
      simp only [bind_eq_ok, okOr_eq_ok, checkedAdd_eq_some] at h
      obtain ⟨encoded, hencoded, ⟨descriptor, spool⟩, happend, next, ⟨_, rfl⟩, hloop⟩ := h
      obtain ⟨rfl, rfl⟩ := appendChunk_eq_ok happend
      exact ih (hinv.step hready hlt hencoded) (by omega) hloop (by omega)
    · cases h
      obtain rfl : offset = logicalSize := by omega
      exact hinv

end Loop

/-- What `encode_raw_spool` emits: one stored chunk for each chunk of the media, in order, and the
digests of the media. -/
structure EmitsMedia (codec : Codec) (digests : Digests) (options : WriteOptions)
    (chunkSize logicalSize : Nat) (media : Nat → UInt8) (spooled : EncodedSpool) : Prop where
  count : spooled.chunks.length = divCeil logicalSize chunkSize
  chunks : ∀ index descriptor, spooled.chunks[index]? = some descriptor →
    ChunkHolds codec options chunkSize logicalSize media spooled.spool index descriptor
  md5 : spooled.computedMd5 = digests.md5 (window media 0 logicalSize)
  sha1 : spooled.computedSha1 = digests.sha1 (window media 0 logicalSize)
  sha256 : spooled.computedSha256 = digests.sha256 (window media 0 logicalSize)

/-- Only the format and the compression of the options matter for reading chunks back. -/
theorem EmitsMedia.of_options {codec : Codec} {digests : Digests} {options options' : WriteOptions}
    {chunkSize logicalSize : Nat} {media : Nat → UInt8} {spooled : EncodedSpool}
    (h : EmitsMedia codec digests options chunkSize logicalSize media spooled)
    (hformat : options'.format = options.format)
    (hcompression : options'.compression = options.compression) :
    EmitsMedia codec digests options' chunkSize logicalSize media spooled := by
  refine ⟨h.count, fun index descriptor hget => ?_, h.md5, h.sha1, h.sha256⟩
  obtain ⟨hstored, hdecodes⟩ := h.chunks index descriptor hget
  refine ⟨hstored, ?_⟩
  simp only [decodeStored, validateStoredSize, decodeStoredBytes, storedChecksum, storedEncoding,
    hformat, hcompression] at hdecodes ⊢
  exact hdecodes

theorem encodeRawSpool_emits {codec : Codec} {digests : Digests} {options : WriteOptions}
    {raw : Bytes} {logicalSize chunkSize : Nat} {remembered : EncodedChunks}
    {spooled : EncodedSpool}
    (hready : Encodable codec options chunkSize (mediaOf raw) remembered)
    (h : encodeRawSpool codec digests raw remembered logicalSize chunkSize chunkSize options =
      .ok spooled) :
    EmitsMedia codec digests options chunkSize logicalSize (mediaOf raw) spooled := by
  obtain ⟨state, hloop, hspooled⟩ := bind_eq_ok.mp h
  cases hspooled
  have hstart : EncodeInvariant codec options raw logicalSize chunkSize remembered 0
      { encodedChunks := remembered } :=
    ⟨by simp, fun h => absurd rfl h, by simp, rfl, fun _ _ h => h⟩
  obtain ⟨hoffset, hstarted, hchunks, hhashed, -⟩ :=
    encodeRawSpoolLoop_invariant hready hstart (by omega) hloop
  have hcount : state.chunks.length = divCeil logicalSize chunkSize := by
    refine divCeil_unique hready.pos (by omega) ?_
    intro hne
    exact hstarted (by simpa using hne)
  exact ⟨hcount, hchunks, by simp only [hhashed], by simp only [hhashed], by simp only [hhashed]⟩

end EwfImage
