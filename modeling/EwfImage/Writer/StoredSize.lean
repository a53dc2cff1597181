import EwfImage.Image.Geometry
import EwfImage.Writer.Encode

/-!
# Stored sizes of chunks

Whatever representation the encoder picks for a chunk, the reader finds it again by the flags and
the size, accepts its checksum and decodes it to the chunk. The reader also bounds the stored size
of each kind of chunk. The bound for compressed chunks of SMART images is twice the chunk, which a
compressed chunk of zeros can exceed; `encodeChunk_readable_iff` says that nothing else goes wrong.
The compression libraries are assumed to invert each other (`Codec.Lawful`) and to stay within their
documented bounds (`Codec.Bounded`).

The statement is about every chunk, every option of the writer and every buffer of the reader.
The checksum that a raw chunk carries is checked on the way, in the same function that reading
an image uses.
-/

namespace EwfImage

open Fallible LittleEndian Slice Word

/-- zlib's `compressBound`. -/
def zlibCompressBound (size : Nat) : Nat :=
  size + (size >>> 12) + (size >>> 14) + (size >>> 25) + 13

/-- The documented bounds of what the encoders write: that of `compressBound`, and one percent and
600 bytes more than the data. -/
structure Codec.Bounded (codec : Codec) : Prop where
  zlib_pos : ∀ level data, 0 < (codec.zlibEncode level data).length
  zlib : ∀ level data, (codec.zlibEncode level data).length ≤ zlibCompressBound data.length
  bzip2_pos : ∀ level data, 0 < (codec.bzip2Encode level data).length
  bzip2 : ∀ level data, 100 * (codec.bzip2Encode level data).length ≤ 101 * data.length + 60000

/-- What the reader makes of an encoded chunk with its recorded flags, with a buffer of `maximum`
bytes. -/
def decodeEncoded (codec : Codec) (options : WriteOptions) (chunkSize : Nat)
    (encoded : EncodedChunk) (logicalSize maximum : Nat) : Result Bytes :=
  decodeStoredBytes codec options chunkSize (encoded.descriptorAt 0) encoded.bytes logicalSize maximum

variable {codec : Codec} {options : WriteOptions} {chunkSize maximum : Nat} {data : Bytes}

/-! ## What the reader finds -/

theorem patternFill_of_repeated {chunk : Bytes} {pattern : UInt64}
    (h : repeatedEwf2Pattern chunk = some pattern) : patternFill pattern chunk.length = chunk := by
  have hlen : (patternSeed chunk).length = 8 := by
    simp only [patternSeed, List.length_append, List.length_take, List.length_replicate]
    omega
  have hlt : fromLE (patternSeed chunk) < 2 ^ 64 := by
    have := fromLE_lt (patternSeed chunk)
    rw [hlen] at this
    simpa using this
  unfold repeatedEwf2Pattern at h
  split at h
  · cases h
  · split at h
    · rename_i hrep
      cases h
      have hnat : (UInt64.ofNat (fromLE (patternSeed chunk))).toNat = fromLE (patternSeed chunk) := by
        rw [UInt64.toNat_ofNat', Nat.mod_eq_of_lt hlt]
      rw [patternFill, hnat, toLE_fromLE_of_length hlen]
      exact hrep.symm
    · cases h

theorem storedEncoding_ewf1 {descriptor : ChunkDescriptor}
    (h : isEwf2Format options.format = false) :
    storedEncoding options chunkSize descriptor =
      ewf1ChunkEncoding descriptor.compressed descriptor.dataSize chunkSize .zlib := by
  simp [storedEncoding, h]

/-- A chunk stored without compression is found raw in both generations. -/
theorem storedEncoding_raw {encoded : EncodedChunk} (hcap : chunkSize + 4 < u64Limit)
    (hc : encoded.compressed = false) (hsize : encoded.bytes.length ≤ chunkSize + 4) :
    storedEncoding options chunkSize (encoded.descriptorAt 0) = .ok .raw := by
  cases hf : isEwf2Format options.format with
  | false =>
    rw [storedEncoding_ewf1 hf]
    simpa [EncodedChunk.descriptorAt, hc] using ewf1ChunkEncoding_raw hcap hsize
  | true =>
    have hkind : ∀ checksum pattern method,
        Ewf2.chunkKind (Ewf2.entryFlags false checksum pattern) method = .raw := by
      intro checksum pattern method
      cases checksum <;> cases pattern <;> rfl
    simp [storedEncoding, hf, EncodedChunk.descriptorAt, hc, hkind, ewf2ChunkEncoding]

theorem chunkKind_compressed (checksum : Bool) (method : Ewf2.CompressionMethod) :
    Ewf2.chunkKind (Ewf2.entryFlags true checksum false) method = .compressed method := by
  cases checksum <;> rfl

/-- A compressed chunk is found with the declared method. -/
theorem storedEncoding_zlib {encoded : EncodedChunk} (hc : encoded.compressed = true)
    (hp : encoded.patternFill = none) (hm : options.compression ≠ .bzip2 ∨
      isEwf2Format options.format = false) :
    storedEncoding options chunkSize (encoded.descriptorAt 0) = .ok .zlib := by
  cases hf : isEwf2Format options.format with
  | false => simp [storedEncoding_ewf1 hf, EncodedChunk.descriptorAt, hc, ewf1ChunkEncoding]
  | true =>
    have hmethod : ewf2CompressionMethod options.compression = 1 := by
      rcases hm with hm | hm
      · cases hcomp : options.compression <;> simp_all [ewf2CompressionMethod]
      · simp [hf] at hm
    simp [storedEncoding, hf, EncodedChunk.descriptorAt, hc, hp, chunkKind_compressed, hmethod,
      Ewf2.CompressionMethod.ofU16, ewf2ChunkEncoding]

theorem storedEncoding_bzip2 {encoded : EncodedChunk} (hc : encoded.compressed = true)
    (hp : encoded.patternFill = none) (hf : isEwf2Format options.format)
    (hm : options.compression = .bzip2) :
    storedEncoding options chunkSize (encoded.descriptorAt 0) = .ok .bzip2 := by
  simp [storedEncoding, hf, EncodedChunk.descriptorAt, hc, hp, chunkKind_compressed, hm,
    ewf2CompressionMethod, Ewf2.CompressionMethod.ofU16, ewf2ChunkEncoding]

theorem storedEncoding_pattern {encoded : EncodedChunk} {pattern : UInt64}
    (hc : encoded.compressed = true) (hp : encoded.patternFill = some pattern)
    (hf : isEwf2Format options.format) :
    storedEncoding options chunkSize (encoded.descriptorAt 0) = .ok (.patternFill pattern) := by
  have hkind : ∀ checksum method,
      Ewf2.chunkKind (Ewf2.entryFlags true checksum true) method = .patternFill := by
    intro checksum method
    cases checksum <;> rfl
  simp [storedEncoding, hf, EncodedChunk.descriptorAt, hc, hp, hkind, ewf2ChunkEncoding]

/-- The checksum behind a raw chunk is right. -/
theorem validateRawChunkChecksum_raw (data : Bytes) :
    validateRawChunkChecksum (rawEncodedChunk data).bytes data.length = .ok () := by
  have hbytes : (rawEncodedChunk data).bytes = data ++ toLE 4 (adler32 data) := rfl
  have hlength : (data ++ toLE 4 (adler32 data)).length = data.length + 4 := by
    rw [List.length_append, length_toLE]
  have hstored : leAt (data ++ toLE 4 (adler32 data)) data.length 4 = adler32 data := by
    have hmiddle := slice_append_middle data (toLE 4 (adler32 data)) []
    rw [List.append_nil, length_toLE] at hmiddle
    rw [leAt, hmiddle, fromLE_toLE_of_lt (adler32_lt data)]
  unfold validateRawChunkChecksum
  rw [hbytes, hlength, rejectIf_neg _ (Nat.lt_irrefl _), ok_bind, hstored, List.take_left,
    Ewf1.validateAdler32ChecksumValue, rejectIf_neg _ (by simp)]

/-- Only raw chunks have a checksum. -/
theorem storedChecksum_of_ne_raw {descriptor : ChunkDescriptor} {encoding : ChunkEncoding}
    (h : encoding ≠ .raw) (logicalSize : Nat) :
    storedChecksum options descriptor encoding logicalSize = false := by
  unfold storedChecksum
  split <;> simp [h]

/-! ## Representations -/

/-- The representation that the encoder picks for a chunk, and the encoding the reader finds. -/
inductive StoredAs (codec : Codec) (options : WriteOptions) (chunkSize : Nat) (data : Bytes) :
    EncodedChunk → ChunkEncoding → Prop where
  | pattern (pattern : UInt64) (format : isEwf2Format options.format)
      (repeated : repeatedEwf2Pattern data = some pattern) :
      StoredAs codec options chunkSize data (patternEncodedChunk pattern) (.patternFill pattern)
  | zeros (format : isEwf2Format options.format = false)
      (emptyBlock : options.compressionValues.emptyBlock = true)
      (zeros : isFullZeroChunk data chunkSize) : StoredAs codec options chunkSize data
        (compressedEncodedChunk (codec.zlibEncode
          (emptyBlockZlibCompression options.compressionValues.level) data)) .zlib
  | raw : StoredAs codec options chunkSize data (rawEncodedChunk data) .raw
  | zlib (level : WriteCompressionLevel) (method : options.compression = .zlib)
      (shorter : (codec.zlibEncode level data).length < data.length) :
      StoredAs codec options chunkSize data (compressedEncodedChunk (codec.zlibEncode level data))
        .zlib
  | bzip2 (level : WriteCompressionLevel) (method : options.compression = .bzip2)
      (format : isEwf2Format options.format) :
      StoredAs codec options chunkSize data
        (compressedEncodedChunk (codec.bzip2Encode level data)) .bzip2

/-- A chunk of zeros is compressed, whatever the compression. -/
theorem encodeChunk_zeros (hformat : isEwf2Format options.format = false)
    (hempty : options.compressionValues.emptyBlock = true) (hzeros : isFullZeroChunk data chunkSize) :
    encodeChunk codec data options.compression options.compressionValues chunkSize
      (isEwf2Format options.format)
      (!isEwf2Format options.format && options.compressionValues.emptyBlock) =
      .ok (compressedEncodedChunk (codec.zlibEncode
        (emptyBlockZlibCompression options.compressionValues.level) data)) := by
  unfold encodeChunk
  simp [hformat, hempty, hzeros]

/-- Whatever the encoder gives is one of the representations. -/
theorem storedAs_of_encodeChunk (hsound : options.Sound) {encoded : EncodedChunk}
    (h : encodeChunk codec data options.compression options.compressionValues chunkSize
      (isEwf2Format options.format)
      (!isEwf2Format options.format && options.compressionValues.emptyBlock) = .ok encoded) :
    ∃ encoding, StoredAs codec options chunkSize data encoded encoding := by
  unfold encodeChunk at h
  cases hpattern : (if isEwf2Format options.format then repeatedEwf2Pattern data else none) with
  | some pattern =>
    rw [hpattern] at h
    cases h
    have hformat : isEwf2Format options.format = true := by
      by_contra hnot
      rw [if_neg hnot] at hpattern
      cases hpattern
    rw [if_pos hformat] at hpattern
    exact ⟨_, .pattern pattern hformat hpattern⟩
  | none =>
    rw [hpattern] at h
    dsimp only at h
    by_cases hempty : ((!isEwf2Format options.format && options.compressionValues.emptyBlock) &&
        isFullZeroChunk data chunkSize) = true
    · rw [if_pos hempty] at h
      cases h
      simp only [Bool.and_eq_true, Bool.not_eq_true'] at hempty
      exact ⟨_, .zeros hempty.1.1 hempty.1.2 hempty.2⟩
    · rw [if_neg hempty] at h
      cases hmethod : options.compression with
      | none =>
        rw [hmethod] at h
        cases h
        exact ⟨_, .raw⟩
      | zlib =>
        rw [hmethod] at h
        dsimp only at h
        by_cases hlong :
            data.length ≤ (codec.zlibEncode options.compressionValues.level data).length
        · rw [if_pos hlong] at h
          cases h
          exact ⟨_, .raw⟩
        · rw [if_neg hlong] at h
          cases h
          exact ⟨_, .zlib _ hmethod (Nat.lt_of_not_le hlong)⟩
      | bzip2 =>
        rw [hmethod] at h
        obtain ⟨level, _, hencoded⟩ := bind_eq_ok.mp h
        cases hencoded
        exact ⟨_, .bzip2 _ hmethod (hsound.bzip2 hmethod)⟩

/-- With the options that the writer accepts every chunk is encoded. -/
theorem exists_encodeChunk (codec : Codec) (chunkSize : Nat) (data : Bytes)
    (hopt : validateOptions options = .ok ()) :
    ∃ encoded, encodeChunk codec data options.compression options.compressionValues chunkSize
      (isEwf2Format options.format)
      (!isEwf2Format options.format && options.compressionValues.emptyBlock) = .ok encoded := by
  have hlevel : options.compression = .bzip2 → options.compressionValues.level ≠ .none := by
    simp only [validateOptions, bind_eq_ok, rejectIf_eq_ok] at hopt
    obtain ⟨_, _, _, _, _, _, _, _, _, _, _, hnone, _⟩ := hopt
    exact fun hmethod hcontra => hnone ⟨hmethod, hcontra⟩
  unfold encodeChunk
  split
  · exact ⟨_, rfl⟩
  · split
    · exact ⟨_, rfl⟩
    · cases hmethod : options.compression with
      | none => exact ⟨_, rfl⟩
      | zlib =>
        dsimp only
        split <;> exact ⟨_, rfl⟩
      | bzip2 =>
        have hvalid := hlevel hmethod
        have hcompression : bzip2Compression options.compressionValues.level =
            .ok options.compressionValues.level := by
          cases hvalue : options.compressionValues.level with
          | none => exact absurd hvalue hvalid
          | default => rfl
          | fast => rfl
          | best => rfl
        dsimp only
        rw [hcompression]
        exact ⟨_, rfl⟩

theorem encodeChunk_storedAs (codec : Codec) (chunkSize : Nat) (data : Bytes)
    (hopt : validateOptions options = .ok ()) :
    ∃ encoded encoding, encodeChunk codec data options.compression options.compressionValues chunkSize
        (isEwf2Format options.format)
        (!isEwf2Format options.format && options.compressionValues.emptyBlock) = .ok encoded ∧
      StoredAs codec options chunkSize data encoded encoding := by
  obtain ⟨encoded, hencode⟩ := exists_encodeChunk codec chunkSize data hopt
  obtain ⟨encoding, hstored⟩ := storedAs_of_encodeChunk (sound_of_validateOptions hopt) hencode
  exact ⟨encoded, encoding, hencode, hstored⟩

/-- The reader finds the encoding that was picked. -/
theorem StoredAs.storedEncoding {encoded : EncodedChunk} {encoding : ChunkEncoding}
    (h : StoredAs codec options chunkSize data encoded encoding) (hcap : chunkSize + 4 < u64Limit)
    (hsize : data.length ≤ chunkSize) :
    storedEncoding options chunkSize (encoded.descriptorAt 0) = .ok encoding := by
  cases h with
  | pattern pattern format repeated => exact storedEncoding_pattern rfl rfl format
  | zeros format emptyBlock zeros => exact storedEncoding_zlib rfl rfl (.inr format)
  | raw => exact storedEncoding_raw hcap rfl (by simpa [rawEncodedChunk] using hsize)
  | zlib level method shorter => exact storedEncoding_zlib rfl rfl (.inl (by simp [method]))
  | bzip2 level method format => exact storedEncoding_bzip2 rfl rfl format method

/-- A chunk decodes to itself, also into a larger buffer. -/
theorem StoredAs.decodes {encoded : EncodedChunk} {encoding : ChunkEncoding}
    (h : StoredAs codec options chunkSize data encoded encoding) (hlaw : codec.Lawful)
    (hcap : chunkSize + 4 < u64Limit) (hsize : data.length ≤ chunkSize)
    (hmaximum : data.length ≤ maximum) (hbuffer : maximum + 1 < u64Limit) :
    decodeEncoded codec options chunkSize encoded data.length maximum = .ok data := by
  have hchecksum : (if storedChecksum options (encoded.descriptorAt 0) encoding data.length then
      validateRawChunkChecksum encoded.bytes data.length else .ok ()) = .ok () := by
    cases h with
    | raw =>
      rw [validateRawChunkChecksum_raw]
      split <;> rfl
    | pattern pattern format repeated => rw [storedChecksum_of_ne_raw (by simp), if_neg (by decide)]
    | zeros format emptyBlock zeros => rw [storedChecksum_of_ne_raw (by simp), if_neg (by decide)]
    | zlib level method shorter => rw [storedChecksum_of_ne_raw (by simp), if_neg (by decide)]
    | bzip2 level method format => rw [storedChecksum_of_ne_raw (by simp), if_neg (by decide)]
  rw [decodeEncoded, decodeStoredBytes, h.storedEncoding hcap hsize, ok_bind, hchecksum, ok_bind]
  unfold decodeChunkWithPadding
  rw [rejectIf_neg _ (Nat.not_lt_of_le hmaximum), ok_bind]
  cases h with
  | pattern pattern format repeated => exact congrArg Except.ok (patternFill_of_repeated repeated)
  | zeros format emptyBlock zeros =>
    change decodeCompressed (codec.zlibDecoder (codec.zlibEncode _ data)) _ _ = _
    rw [hlaw.zlib]
    exact decodeCompressed_complete hbuffer hmaximum
  | raw =>
    have hlong : ¬ (rawEncodedChunk data).bytes.length < data.length := by
      simp [rawEncodedChunk]
    change (rejectIf _ _ >>= fun _ => _) = _
    rw [rejectIf_neg _ hlong, ok_bind]
    simp [rawEncodedChunk]
  | zlib level method shorter =>
    change decodeCompressed (codec.zlibDecoder (codec.zlibEncode _ data)) _ _ = _
    rw [hlaw.zlib]
    exact decodeCompressed_complete hbuffer hmaximum
  | bzip2 level method format =>
    change decodeCompressed (codec.bzip2Decoder (codec.bzip2Encode _ data)) _ _ = _
    rw [hlaw.bzip2]
    exact decodeCompressed_complete hbuffer hmaximum

/-! ## Sizes -/

/-- The caps of the chunk sizes that the reader accepts do not overflow. -/
theorem zlibCap_of_le (h : chunkSize ≤ maxChunkSize) : ∃ cap,
    zlibCompressedChunkSizeCap chunkSize = .ok cap ∧ zlibCompressBound chunkSize ≤ cap := by
  have hmax : maxChunkSize = 134217728 := rfl
  have hlimit : u64Limit = 18446744073709551616 := rfl
  have h12 := Nat.shiftRight_eq_div_pow chunkSize 12
  have h14 := Nat.shiftRight_eq_div_pow chunkSize 14
  have h25 := Nat.shiftRight_eq_div_pow chunkSize 25
  unfold zlibCompressedChunkSizeCap
  dsimp only
  rw [checkedAdd_of_lt (by omega), okOr_some, ok_bind, checkedAdd_of_lt (by omega), okOr_some,
    ok_bind, checkedAdd_of_lt (by omega), okOr_some, ok_bind, checkedAdd_of_lt (by omega), okOr_some,
    ok_bind, checkedAdd_of_lt (by omega), okOr_some, ok_bind, checkedMul_of_lt (by omega), okOr_some,
    ok_bind, checkedAdd_of_lt (by omega), okOr_some, ok_bind, checkedAdd_of_lt (by omega), okOr_some,
    ok_bind]
  exact ⟨_, rfl, Nat.le_max_left _ _⟩

theorem zlibCompressBound_mono {size size' : Nat} (h : size ≤ size') :
    zlibCompressBound size ≤ zlibCompressBound size' := by
  unfold zlibCompressBound
  simp only [Nat.shiftRight_eq_div_pow]
  have h12 := Nat.div_le_div_right (c := 2 ^ 12) h
  have h14 := Nat.div_le_div_right (c := 2 ^ 14) h
  have h25 := Nat.div_le_div_right (c := 2 ^ 25) h
  omega

/-- A zlib chunk passes the check of the reader, unless a SMART image bounds it otherwise. -/
theorem validateEwf1EncodedSize_zlib {encodedSize : Nat} {smart : Bool}
    (hchunk : chunkSize ≤ maxChunkSize) (hpos : 0 < encodedSize)
    (hbound : encodedSize ≤ zlibCompressBound chunkSize) :
    validateEwf1EncodedSize encodedSize chunkSize .zlib smart = .ok () ↔
      (smart = true → encodedSize ≤ 2 * chunkSize) := by
  have hmax : maxChunkSize = 134217728 := rfl
  have hlimit : u64Limit = 18446744073709551616 := rfl
  obtain ⟨cap, hcap, hle⟩ := zlibCap_of_le hchunk
  unfold validateEwf1EncodedSize
  rw [if_pos rfl, hcap, ok_bind]
  cases smart with
  | false =>
    rw [if_pos ⟨by decide, by omega⟩]
    unfold validateEncodedSize encodedSizeCap
    dsimp only
    rw [rejectIf_neg _ (by omega), ok_bind, hcap, ok_bind, rejectIf_neg _ (by omega)]
    simp
  | true =>
    rw [if_neg (by simp), rejectIf_neg _ (by omega), ok_bind, checkedMul_of_lt (by omega), okOr_some,
      ok_bind, rejectIf_eq_ok]
    constructor
    · intro hfits _
      omega
    · intro hfits
      have hsize := hfits rfl
      omega

/-- A chunk in an accepted image passes the check of its stored size, but for a compressed chunk of
zeros that is too long for a SMART image. -/
theorem StoredAs.validateStoredSize_iff {encoded : EncodedChunk} {encoding : ChunkEncoding}
    (h : StoredAs codec options chunkSize data encoded encoding) (hbounded : codec.Bounded)
    (hchunk : chunkSize ≤ maxChunkSize) (hsize : data.length ≤ chunkSize) :
    validateStoredSize options chunkSize (encoded.descriptorAt 0) = .ok () ↔
      (options.format = .ewf1Smart → encoding = .zlib → encoded.bytes.length ≤ 2 * chunkSize) := by
  have hmax : maxChunkSize = 134217728 := rfl
  have hlimit : u64Limit = 18446744073709551616 := rfl
  have hzlib : ∀ level, (codec.zlibEncode level data).length ≤ zlibCompressBound chunkSize :=
    fun level => (hbounded.zlib level data).trans (zlibCompressBound_mono hsize)
  have hsmart : isEwf2Format options.format = true → options.format ≠ .ewf1Smart := by
    rintro hformat hcontra
    rw [hcontra] at hformat
    cases hformat
  obtain ⟨cap, hcap, hle⟩ := zlibCap_of_le hchunk
  rw [validateStoredSize, h.storedEncoding (by omega) hsize, ok_bind]
  cases h with
  | pattern pattern format repeated =>
    rw [if_pos format]
    exact ⟨fun _ _ hencoding => (by cases hencoding), fun _ => rfl⟩
  | zeros format emptyBlock zeros =>
    rw [if_neg (by rw [format]; decide)]
    refine (validateEwf1EncodedSize_zlib hchunk (hbounded.zlib_pos _ _) (hzlib _)).trans ?_
    exact ⟨fun hfits hformat _ => hfits (decide_eq_true hformat),
      fun hfits hformat => hfits (of_decide_eq_true hformat) rfl⟩
  | raw =>
    have hraw : validateEncodedSize (data.length + 4) chunkSize .raw = .ok () := by
      unfold validateEncodedSize encodedSizeCap rawChunkSizeCap
      dsimp only
      rw [rejectIf_neg _ (by omega), ok_bind, checkedAdd_of_lt (by omega), okOr_some, ok_bind,
        rejectIf_neg _ (by omega)]
    have hlength : ((rawEncodedChunk data).descriptorAt 0).dataSize = data.length + 4 := by
      simp [rawEncodedChunk, EncodedChunk.descriptorAt]
    rw [hlength]
    refine ⟨fun _ _ hencoding => (by cases hencoding), fun _ => ?_⟩
    by_cases hformat : isEwf2Format options.format = true
    · rw [if_pos hformat]
      exact hraw
    · rw [if_neg hformat, validateEwf1EncodedSize, if_neg (by simp)]
      exact hraw
  | zlib level method shorter =>
    have hfits : (compressedEncodedChunk (codec.zlibEncode level data)).bytes.length ≤
        2 * chunkSize := by
      change (codec.zlibEncode level data).length ≤ 2 * chunkSize
      omega
    refine ⟨fun _ _ _ => hfits, fun _ => ?_⟩
    by_cases hformat : isEwf2Format options.format = true
    · rw [if_pos hformat]
      have hpos := hbounded.zlib_pos level data
      have hbound := hzlib level
      change validateEncodedSize (codec.zlibEncode level data).length chunkSize .zlib = .ok ()
      unfold validateEncodedSize encodedSizeCap
      dsimp only
      rw [rejectIf_neg _ (by omega), ok_bind, hcap, ok_bind, rejectIf_neg _ (by omega)]
    · rw [if_neg hformat]
      exact (validateEwf1EncodedSize_zlib hchunk (hbounded.zlib_pos _ _) (hzlib _)).mpr fun _ => hfits
  | bzip2 level method format =>
    rw [if_pos format]
    refine ⟨fun _ _ hencoding => (by cases hencoding), fun _ => ?_⟩
    have hpos := hbounded.bzip2_pos level data
    have hbound := hbounded.bzip2 level data
    change validateEncodedSize (codec.bzip2Encode level data).length chunkSize .bzip2 = .ok ()
    unfold validateEncodedSize encodedSizeCap bzip2CompressedChunkSizeCap
    dsimp only
    rw [rejectIf_neg _ (by omega), ok_bind, checkedAdd_of_lt (by omega), okOr_some, ok_bind,
      checkedAdd_of_lt (by omega), okOr_some, ok_bind, rejectIf_neg _ (by omega)]

/-- Every chunk is encoded, and its stored bytes decode to it with the recorded flags and behind the
check of its checksum, whatever room the reader's buffer has. Its stored size passes the check that
the reader makes in the images it accepts exactly when it is no chunk of zeros of a SMART image that
is longer than two chunks when compressed. -/
theorem encodeChunk_readable_iff (codec : Codec) (hlaw : codec.Lawful) (hbounded : codec.Bounded)
    (options : WriteOptions) (hopt : validateOptions options = .ok ()) (chunkSize capacity : Nat)
    (hgeometry : writerChunkGeometry options.sectorsPerChunk options.bytesPerSector =
      .ok (chunkSize, capacity)) (data : Bytes) (hsize : data.length ≤ chunkSize) :
    ∃ encoded, encodeChunk codec data options.compression options.compressionValues chunkSize
        (isEwf2Format options.format)
        (!isEwf2Format options.format && options.compressionValues.emptyBlock) = .ok encoded ∧
      (((∀ maximum, data.length ≤ maximum → maximum ≤ chunkSize →
            decodeEncoded codec options chunkSize encoded data.length maximum = .ok data) ∧
          (validateChunkSize chunkSize = .ok () →
            validateStoredSize options chunkSize (encoded.descriptorAt 0) = .ok ())) ↔
        (validateChunkSize chunkSize = .ok () → options.format = .ewf1Smart →
          options.compressionValues.emptyBlock = true → isFullZeroChunk data chunkSize = true →
          (codec.zlibEncode (emptyBlockZlibCompression options.compressionValues.level)
            data).length ≤ 2 * chunkSize)) := by
  have hcap : chunkSize + 4 < u64Limit := by
    have hproduct := writerChunkGeometry_eq_ok hgeometry
    rw [Prod.mk.injEq] at hproduct
    have hsectors := options.sectorsPerChunk.toNat_lt
    have hbytes := options.bytesPerSector.toNat_lt
    have hle : options.sectorsPerChunk.toNat * options.bytesPerSector.toNat ≤
        (2 ^ 32 - 1) * (2 ^ 32 - 1) := Nat.mul_le_mul (by omega) (by omega)
    rw [hproduct.1]
    exact Nat.lt_of_le_of_lt (Nat.add_le_add_right hle 4) (by decide)
  obtain ⟨encoded, encoding, hencode, hstored⟩ := encodeChunk_storedAs codec chunkSize data hopt
  refine ⟨encoded, hencode, ?_⟩
  constructor
  · rintro ⟨-, hvalid⟩ haccepts hsmart hempty hzeros
    have hformat : isEwf2Format options.format = false := by
      rw [hsmart]
      rfl
    have hchunk := (validateChunkSize_eq_ok.mp haccepts).2
    rw [encodeChunk_zeros hformat hempty hzeros] at hencode
    cases hencode
    have hfits := ((StoredAs.zeros hformat hempty hzeros).validateStoredSize_iff hbounded hchunk hsize).mp
      (hvalid haccepts)
    exact hfits hsmart rfl
  · intro hfits
    refine ⟨fun maximum hlong hbuffer => hstored.decodes hlaw hcap hsize hlong (by omega),
      fun haccepts => ?_⟩
    have hchunk := (validateChunkSize_eq_ok.mp haccepts).2
    rw [hstored.validateStoredSize_iff hbounded hchunk hsize]
    intro hsmart hzlib
    cases hstored with
    | pattern pattern format repeated => cases hzlib
    | zeros format emptyBlock zeros => exact hfits haccepts hsmart emptyBlock zeros
    | raw => cases hzlib
    | zlib level method shorter =>
      change (codec.zlibEncode level data).length ≤ 2 * chunkSize
      omega
    | bzip2 level method format => cases hzlib

/-! ## A SMART image with chunks of one byte -/

/-- The zlib stream of a single zero. -/
def zeroStream : Bytes := [0x78, 0x9c, 0x63, 0x00, 0x00, 0x00, 0x01, 0x00, 0x01]

/-- A codec that stores everything but a single zero behind a zlib header. -/
def smallCodec : Codec where
  zlibEncode := fun _ data => if data = [0] then zeroStream else 0x78 :: 0x01 :: data
  bzip2Encode := fun _ data => 0x42 :: data
  zlibDecoder := fun encoded => ⟨if encoded = zeroStream then [0] else encoded.drop 2, none⟩
  bzip2Decoder := fun encoded => ⟨encoded.tail, none⟩
  zstdDecoder := fun _ _ => .error "unsupported"

theorem smallCodec_lawful : smallCodec.Lawful where
  zlib := by
    intro _ data
    by_cases hzero : data = [0]
    · subst hzero
      rfl
    · simp only [smallCodec, if_neg hzero]
      rw [if_neg (by simp [zeroStream])]
      rfl
  bzip2 _ _ := rfl

theorem smallCodec_bounded : smallCodec.Bounded where
  zlib_pos _ data := by
    by_cases hzero : data = [0]
    · subst hzero
      change 0 < zeroStream.length
      decide
    · simp [smallCodec, hzero]
  zlib _ data := by
    by_cases hzero : data = [0]
    · subst hzero
      change zeroStream.length ≤ zlibCompressBound 1
      decide
    · have hlength : (smallCodec.zlibEncode .default data).length = data.length + 2 := by
        simp [smallCodec, hzero]
      change (smallCodec.zlibEncode .default data).length ≤ _
      rw [hlength]
      unfold zlibCompressBound
      omega
  bzip2_pos _ data := by simp [smallCodec]
  bzip2 _ data := by
    simp only [smallCodec, List.length_cons]
    omega

/-- Options of a SMART image with chunks of one byte. -/
def smartOptions : WriteOptions := { format := .ewf1Smart, sectorsPerChunk := 1, bytesPerSector := 1 }

/-- The compressed zero is stored in nine bytes, of which the reader accepts two. -/
theorem not_encodeChunk_readable : ∃ encoded,
    encodeChunk smallCodec [0] smartOptions.compression smartOptions.compressionValues 1 false
      (!isEwf2Format smartOptions.format && smartOptions.compressionValues.emptyBlock) =
        .ok encoded ∧
      smallCodec.Lawful ∧ smallCodec.Bounded ∧ validateOptions smartOptions = .ok () ∧
      validateChunkSize 1 = .ok () ∧
      validateStoredSize smartOptions 1 (encoded.descriptorAt 0) =
        .error (.malformed "EWF1 compressed chunk size 9 exceeds maximum 2") :=
  ⟨compressedEncodedChunk zeroStream, rfl, smallCodec_lawful, smallCodec_bounded,
    by decide, by decide, by decide⟩

theorem encodeChunk_readable_iff_pair :
    ∃ encoded, encodeChunk smallCodec [5, 6] .zlib {} 2 false true = .ok encoded ∧
      (((∀ maximum, 2 ≤ maximum → maximum ≤ 2 → decodeEncoded smallCodec
            { compression := .zlib, sectorsPerChunk := 1, bytesPerSector := 2 } 2 encoded 2 maximum =
              .ok [5, 6]) ∧
          (validateChunkSize 2 = .ok () →
            validateStoredSize { compression := .zlib, sectorsPerChunk := 1, bytesPerSector := 2 } 2
              (encoded.descriptorAt 0) = .ok ())) ↔
        (validateChunkSize 2 = .ok () → WriteFormat.ewf1Physical = .ewf1Smart → true = true →
          isFullZeroChunk [5, 6] 2 = true → (smallCodec.zlibEncode .default [5, 6]).length ≤ 4)) :=
  encodeChunk_readable_iff smallCodec smallCodec_lawful smallCodec_bounded
    { compression := .zlib, sectorsPerChunk := 1, bytesPerSector := 2 } (by decide) 2 2
    (by decide) [5, 6] (by decide)

end EwfImage
