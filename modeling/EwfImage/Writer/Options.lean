import EwfImage.Decode
import EwfImage.Hashes

/-!
# Writer options

The configuration of a writer, its validation, and the copy of the media values
of an opened image. The catalog and the opaque sections are kept as the texts and
bytes that are written for them; the validation reads only their presence.

`copyMediaValuesFromInfo_spec` says what a copy changes: the media values, and with them the
chunk size, while the media that was written stays. `sound_of_validateOptions` collects what the
later modules need of accepted options.
-/

namespace EwfImage

open Fallible Word

inductive WriteFormat
  | ewf1Physical
  | ewf1Logical
  | ewf1Smart
  | ewf2Physical
  | ewf2Logical
  deriving DecidableEq, Repr

inductive WriteCompression
  | none
  | zlib
  | bzip2
  deriving DecidableEq, Repr

structure WriteCompressionValues where
  level : WriteCompressionLevel := .default
  emptyBlock : Bool := true
  deriving DecidableEq

structure WriteHashes where
  md5 : Option Bytes := none
  sha1 : Option Bytes := none
  hashValues : HashValues := []
  deriving DecidableEq

structure WriteMediaProfile where
  mediaType : Option MediaType := none
  errorGranularity : Option Nat := none
  fastbloc : Bool := false
  tableau : Bool := false
  deriving DecidableEq

structure WriteOptions where
  format : WriteFormat := .ewf1Physical
  sectorsPerChunk : UInt32 := 64
  bytesPerSector : UInt32 := 512
  setIdentifier : Option SetIdentifier := none
  compression : WriteCompression := .none
  compressionValues : WriteCompressionValues := {}
  hashes : WriteHashes := {}
  maximumSegmentSize : Option Nat := none
  mediaSize : Option Nat := none
  acquisitionErrors : List AcquisitionError := []
  checksumErrors : List SectorRange := []
  sessions : List SectorRange := []
  tracks : List SectorRange := []
  mediaProfile : WriteMediaProfile := {}
  memoryExtents : List MemoryExtent := []
  singleFiles : Option Bytes := none
  ewf2SingleFilesTables : List Bytes := []
  ewf2IncrementData : List Bytes := []
  ewf2FinalInformation : Option Bytes := none
  ewf2RestartData : Option String := none
  ewf2AnalyticalData : Option String := none
  deriving DecidableEq

/-- The parts of an opened image's description that the writer copies. -/
structure ImageInfo where
  format : Format
  formatProfile : FormatProfile
  logicalSize : Nat
  media : MediaInfo
  storedHashes : StoredHashes := {}

def isEwf2Format (format : WriteFormat) : Bool :=
  match format with
  | .ewf2Physical | .ewf2Logical => true
  | _ => false

def writeFormatIsPhysical (format : WriteFormat) : Bool :=
  match format with
  | .ewf1Physical | .ewf1Smart | .ewf2Physical => true
  | _ => false

def normalizeMaximumSegmentSize (maximumSegmentSize : Option Nat) : Option Nat :=
  maximumSegmentSize.filter (· ≠ 0)

def normalizeMediaSize (mediaSize : Option Nat) : Option Nat := mediaSize.filter (· ≠ 0)

/-! ## Stored hashes -/

def validatedWriteHashes (requested : WriteHashes) : Result WriteHashes := do
  let hashes ← requested.hashValues.foldlM
    (fun hashes (identifier, value) => insertStoredHash hashes identifier value)
    { md5 := requested.md5, sha1 := requested.sha1 }
  return { md5 := hashes.md5, sha1 := hashes.sha1, hashValues := hashes.hashValues }

def effectiveWriteHashes (requested : WriteHashes) (computedMd5 computedSha1 computedSha256 : Bytes) :
    Result WriteHashes := do
  let hashes ← validatedWriteHashes requested
  return {
    md5 := hashes.md5.or (some computedMd5)
    sha1 := hashes.sha1.or (some computedSha1)
    hashValues := hashes.hashValues.orInsert "SHA256" (hexString computedSha256) }

/-- `set_hash_value`; the known digests are also stored as bytes. -/
def WriteHashes.setHashValue (hashes : WriteHashes) (identifier value : String) :
    Result WriteHashes := do
  (if eqIgnoreAsciiCase identifier "SHA256" then validateDigest identifier value else .ok ())
  let md5 ← (if eqIgnoreAsciiCase identifier "MD5" then
      (okOr (.unsupported "invalid MD5 hash value") (parseHexArray 16 value)).map some
    else .ok hashes.md5)
  let sha1 ← (if eqIgnoreAsciiCase identifier "SHA1" then
      (okOr (.unsupported "invalid SHA1 hash value") (parseHexArray 20 value)).map some
    else .ok hashes.sha1)
  return { md5, sha1, hashValues := hashes.hashValues.insert identifier value }

/-! ## Validation -/

def validateOptions (options : WriteOptions) : Result Unit := do
  let _ ← validatedWriteHashes options.hashes
  rejectIf (options.sectorsPerChunk = 0) (.malformed "writer sectors_per_chunk is zero")
  rejectIf (options.bytesPerSector = 0) (.malformed "writer bytes_per_sector is zero")
  rejectIf (options.format = .ewf2Logical ∧
      options.sectorsPerChunk.toNat * options.bytesPerSector.toNat < 8192)
    (.unsupported
      "EWF2 logical output requires chunks of at least 8192 bytes for libewf interoperability")
  rejectIf (options.compression = .bzip2 ∧ ¬ isEwf2Format options.format)
    (.unsupported "BZip2 writer compression is only supported for EWF2")
  rejectIf (options.compression = .bzip2 ∧ options.compressionValues.level = .none)
    (.unsupported "BZip2 writer compression does not support none compression level")
  rejectIf (options.singleFiles.isSome ∧ options.format ≠ .ewf1Logical ∧
      options.format ≠ .ewf2Logical)
    (.unsupported "single files catalog writing is only supported for logical images")
  rejectIf (options.ewf2SingleFilesTables ≠ [] ∧ options.format ≠ .ewf2Logical)
    (.unsupported
      "single files auxiliary table writing is only supported for EWF2 logical images")
  rejectIf (options.memoryExtents ≠ [] ∧ ¬ isEwf2Format options.format)
    (.unsupported "memory extents writing is only supported for EWF2 images")
  rejectIf ((options.ewf2IncrementData ≠ [] ∨ options.ewf2FinalInformation.isSome) ∧
      ¬ isEwf2Format options.format)
    (.unsupported "opaque EWF2 section writing is only supported for EWF2 images")
  rejectIf ((options.ewf2RestartData.isSome ∨ options.ewf2AnalyticalData.isSome) ∧
      ¬ isEwf2Format options.format)
    (.unsupported "EWF2 application data writing is only supported for EWF2 images")

/-- The chunk size and, as a buffer length, the chunk capacity. -/
def writerChunkGeometry (sectorsPerChunk bytesPerSector : UInt32) : Result (Nat × Nat) := do
  rejectIf (sectorsPerChunk = 0) (.malformed "writer sectors_per_chunk is zero")
  rejectIf (bytesPerSector = 0) (.malformed "writer bytes_per_sector is zero")
  let chunkSize ← okOr (.malformed "writer chunk size overflow")
    (checkedMul sectorsPerChunk.toNat bytesPerSector.toNat)
  return (chunkSize, chunkSize)

/-! ## Copied media values -/

def requiredMediaU32 (value : Option Nat) (label : String) : Result UInt32 := do
  let value ← okOr (.unsupported s!"cannot copy media values without {label}") value
  rejectIf (u32Limit ≤ value) (.unsupported s!"copied {label} does not fit u32")
  return UInt32.ofNat value

def imageInfoIsPhysical (info : ImageInfo) : Bool :=
  info.media.mediaType ≠ some .singleFiles ∧ info.media.mediaFlags.physical

def writeFormatFromImageInfo (info : ImageInfo) : WriteFormat :=
  match info.format with
  | .ewf2 => if imageInfoIsPhysical info then .ewf2Physical else .ewf2Logical
  | .ewf1 =>
    if info.formatProfile = .smart then .ewf1Smart
    else if imageInfoIsPhysical info then .ewf1Physical
    else .ewf1Logical

def writeCompressionFromMediaMethod : CompressionMethod → Result WriteCompression
  | .none => .ok .none
  | .zlib => .ok .zlib
  | .zstd => .error (.unsupported "cannot copy X-Ways Zstandard compression settings")
  | .bzip2 => .ok .bzip2
  | .unknown value =>
    let value := value.toNat
    .error (.unsupported s!"cannot copy unknown compression method {value}")

def writeCompressionLevelFromMediaLevel : CompressionLevel → Result WriteCompressionLevel
  | .default => .ok .default
  | .none => .ok .none
  | .fast => .ok .fast
  | .best => .ok .best
  | .unknown value =>
    let value := value.toInt
    .error (.unsupported s!"cannot copy unknown compression level {value}")

def writeCompressionValuesFromMediaValues (values : CompressionValues) :
    Result WriteCompressionValues := do
  rejectIf values.flags.patternFill (.unsupported "cannot copy pattern fill compression flag")
  let bits := hexString [values.flags.unknownBits]
  rejectIf (values.flags.unknownBits ≠ 0)
    (.unsupported s!"cannot copy unknown compression flags 0x{bits}")
  let level ← writeCompressionLevelFromMediaLevel values.level
  return { level, emptyBlock := values.flags.emptyBlock }

/-- `WriteOptions::copy_media_values_from_info`. -/
def WriteOptions.copyMediaValuesFromInfo (options : WriteOptions) (info : ImageInfo) :
    Result WriteOptions := do
  let sectorsPerChunk ← requiredMediaU32 info.media.sectorsPerChunk "sectors per chunk"
  let bytesPerSector ← requiredMediaU32 info.media.bytesPerSector "bytes per sector"
  let hasExplicitCompressionValues := info.media.compressionValues ≠ {}
  let compressionValues ← (if hasExplicitCompressionValues then
      writeCompressionValuesFromMediaValues info.media.compressionValues
    else .ok {})
  let compression ← (match info.media.compressionMethod with
    | some method => writeCompressionFromMediaMethod method
    | none =>
      if hasExplicitCompressionValues ∧ compressionValues.level ≠ .none then .ok .zlib
      else .ok .none)
  let candidate : WriteOptions := { options with
    format := writeFormatFromImageInfo info
    sectorsPerChunk, bytesPerSector, compressionValues, compression
    setIdentifier := info.media.setIdentifier
    mediaSize := some info.logicalSize
    mediaProfile := {
      mediaType := info.media.mediaType
      errorGranularity := info.media.errorGranularity
      fastbloc := info.media.mediaFlags.fastbloc
      tableau := info.media.mediaFlags.tableau } }
  validateOptions candidate
  return candidate

/-! ## What accepted options satisfy -/

/-- BZip2 is used with EWF2 only, and a chunk has at least one byte. -/
structure WriteOptions.Sound (options : WriteOptions) : Prop where
  bzip2 : options.compression = .bzip2 → isEwf2Format options.format
  sectorsPerChunk : 0 < options.sectorsPerChunk.toNat
  bytesPerSector : 0 < options.bytesPerSector.toNat

theorem toNat_pos_of_ne_zero {n : UInt32} (h : ¬ n = 0) : 0 < n.toNat := by
  rcases Nat.eq_zero_or_pos n.toNat with h0 | h0
  · exact absurd (UInt32.toNat_inj.mp h0) h
  · exact h0

theorem sound_of_validateOptions {options : WriteOptions} {u : Unit}
    (h : validateOptions options = .ok u) : options.Sound := by
  simp only [validateOptions, bind_eq_ok, rejectIf_eq_ok] at h
  obtain ⟨_, _, _, hspc, _, hbps, _, _, _, hbzip, _⟩ := h
  refine ⟨fun hc => ?_, toNat_pos_of_ne_zero hspc, toNat_pos_of_ne_zero hbps⟩
  by_contra hformat
  exact hbzip ⟨hc, by simpa using hformat⟩

theorem writerChunkGeometry_eq_ok {spc bps : UInt32} {g : Nat × Nat}
    (h : writerChunkGeometry spc bps = .ok g) :
    g = (spc.toNat * bps.toNat, spc.toNat * bps.toNat) := by
  simp only [writerChunkGeometry, bind_eq_ok, rejectIf_eq_ok, okOr_eq_ok, checkedMul_eq_some,
    pure_eq_ok, Except.ok.injEq] at h
  obtain ⟨_, _, _, _, _, ⟨_, rfl⟩, rfl⟩ := h
  rfl

theorem requiredMediaU32_eq_ok {value : Option Nat} {label : String} {n : UInt32}
    (h : requiredMediaU32 value label = .ok n) : value = some n.toNat := by
  simp only [requiredMediaU32, bind_eq_ok, okOr_eq_ok, rejectIf_eq_ok, pure_eq_ok,
    Except.ok.injEq] at h
  obtain ⟨v, rfl, _, hlt, rfl⟩ := h
  rw [UInt32.toNat_ofNat', Nat.mod_eq_of_lt (by simpa [u32Limit] using hlt)]

/-- The chunk size that the media values of an image declare. -/
def MediaInfo.declaredChunkSize (media : MediaInfo) : Option Nat := do
  let sectorsPerChunk ← media.sectorsPerChunk
  let bytesPerSector ← media.bytesPerSector
  return sectorsPerChunk * bytesPerSector

/-- A copy of media values is validated and declares the image's size and geometry. -/
theorem copyMediaValuesFromInfo_spec {options copied : WriteOptions} {info : ImageInfo}
    (h : options.copyMediaValuesFromInfo info = .ok copied) :
    copied.Sound ∧ copied.mediaSize = some info.logicalSize ∧
      info.media.declaredChunkSize =
        some (copied.sectorsPerChunk.toNat * copied.bytesPerSector.toNat) := by
  simp only [WriteOptions.copyMediaValuesFromInfo, bind_eq_ok, pure_eq_ok, Except.ok.injEq] at h
  obtain ⟨spc, hspc, bps, hbps, _, _, _, _, _, hvalid, rfl⟩ := h
  refine ⟨sound_of_validateOptions hvalid, rfl, ?_⟩
  simp [MediaInfo.declaredChunkSize, requiredMediaU32_eq_ok hspc, requiredMediaU32_eq_ok hbps]

end EwfImage
