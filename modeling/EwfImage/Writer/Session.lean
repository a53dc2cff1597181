import EwfImage.Lib.Runs
import EwfImage.Writer.EncodeCorrect

/-!
# The incremental writer

`EwfWriter` buffers the media in the raw spool and remembers the encoded chunks it
was handed. Its operations are the labels of one step relation; preparation of the
output turns the spool into stored chunks. Segment filenames and header texts are
not part of the state: no operation here reads them.

Preparing, finishing and setting a value are operations like the writes, and a failed one leaves
what it had done by then. Positions, sizes and data are arbitrary. The publication of prepared
segments is the subject of `Publication`.
-/

namespace EwfImage

open Fallible Word ByteStore

structure EwfWriter where
  options : WriteOptions
  chunkSize : Nat
  chunkCapacity : Nat
  raw : Bytes := []
  encodedChunks : EncodedChunks := fun _ => none
  currentOffset : Nat := 0
  logicalInputSize : Nat := 0
  abortSignaled : Bool := false

inductive SeekFrom
  | start (offset : Nat)
  | current (offset : Int)
  | fromEnd (offset : Int)
  deriving DecidableEq

/-! ## Sizes and ranges -/

def targetMediaInputSize (writtenSize : Nat) (configuredMediaSize : Option Nat) : Result Nat :=
  match configuredMediaSize with
  | some mediaSize => do
    rejectIf (mediaSize < writtenSize)
      (.unsupported "writer configured media size is smaller than written data")
    return mediaSize
  | none => .ok writtenSize

def paddedLogicalSize (logicalInputSize : Nat) (bytesPerSector : UInt32) : Result Nat :=
  okOr (.malformed "writer logical size overflow")
    (checkedMul (divCeil logicalInputSize bytesPerSector.toNat) bytesPerSector.toNat)

def checkedWriterSeek (currentOffset logicalInputSize : Nat) (position : SeekFrom) : Result Nat :=
  let relative (next : Int) : Result Nat := do
    rejectIf (next < 0) (.malformed "writer seek before start of media")
    rejectIf (u64Limit ≤ next.toNat) (.malformed "writer seek offset does not fit u64")
    return next.toNat
  match position with
  | .start offset => .ok offset
  | .current offset => relative (currentOffset + offset)
  | .fromEnd offset => relative (logicalInputSize + offset)

/-- The loop of `validate_sector_ranges`: nonempty, sorted, disjoint ranges inside the media. -/
def validateSectorRanges (label : String) (mediaSectorCount previousEnd : Nat) :
    List SectorRange → Result Unit
  | [] => .ok ()
  | range :: rest => do
    rejectIf (range.sectorCount = 0)
      (.unsupported s!"writer {label} cannot contain zero-length ranges")
    rejectIf (range.firstSector < previousEnd)
      (.unsupported s!"writer {label} ranges must be sorted and non-overlapping")
    let rangeEnd ← okOr (.malformed s!"writer {label} range overflow")
      (checkedAdd range.firstSector range.sectorCount)
    rejectIf (mediaSectorCount < rangeEnd)
      (.unsupported s!"writer {label} range exceeds the media sector count")
    validateSectorRanges label mediaSectorCount rangeEnd rest

/-- The loop of `validate_session_ranges`: each range starts where the one before it ends. -/
def expectContiguous (label : String) (expectedStart : Nat) : List SectorRange → Result Nat
  | [] => .ok expectedStart
  | range :: rest => do
    rejectIf (range.firstSector ≠ expectedStart)
      (.unsupported s!"writer {label} must cover the media contiguously from sector 0")
    let next ← okOr (.malformed s!"writer {label} range overflow")
      (checkedAdd range.firstSector range.sectorCount)
    expectContiguous label next rest

def validateSessionRanges (label : String) (ranges : List SectorRange) (mediaSectorCount : Nat) :
    Result Unit := do
  validateSectorRanges label mediaSectorCount 0 ranges
  if ranges = [] then .ok ()
  else do
    let expectedStart ← expectContiguous label 0 ranges
    rejectIf (expectedStart ≠ mediaSectorCount)
      (.unsupported s!"writer {label} must end at the media sector count")

/-- The largest value of a signed 64-bit field. -/
def signedSectorRangeMax : Nat := 2 ^ 63 - 1

def validateSignedSectorRangeValue (label field : String) (value : Nat) : Result Unit :=
  rejectIf (signedSectorRangeMax < value)
    (.unsupported s!"writer {label} {field} exceeds signed 64-bit range")

/-! ## Chunks handed to the writer -/

def validateWriteDataChunk (chunk : DataChunk) : Result Unit := do
  rejectIf chunk.corrupted (.malformed "writer cannot write corrupted data chunk")
  rejectIf (chunk.data.length ≠ chunk.logicalSize)
    (.malformed "writer data chunk payload length does not match logical size")

def validateWriteEncodedDataChunk (chunk : EncodedDataChunk) : Result Unit := do
  rejectIf (chunk.encoding = .zstd)
    (.unsupported "writer does not support X-Ways Zstandard encoded chunks")
  rejectIf (chunk.data.length ≠ chunk.encodedSize)
    (.malformed "writer encoded data chunk payload length does not match encoded size")

def decodeWriteEncodedDataChunk (codec : Codec) (chunk : EncodedDataChunk) : Result Bytes := do
  validateWriteEncodedDataChunk chunk
  decodeChunk codec chunk.data (encodedDataChunkEncoding chunk.encoding) chunk.logicalSize

def rawEncodedDataChunkChecksumIsValid (chunk : EncodedDataChunk) : Bool :=
  chunk.data.length == chunk.logicalSize + 4 &&
    chunk.data.drop chunk.logicalSize ==
      LittleEndian.toLE 4 (adler32 (chunk.data.take chunk.logicalSize))

/-- The stored form under which a chunk is remembered. -/
def rememberedForm (chunk : EncodedDataChunk) : Option EncodedChunk :=
  match chunk.encoding with
  | .raw =>
    if chunk.hasChecksum && !rawEncodedDataChunkChecksumIsValid chunk then none
    else some ⟨chunk.data, false, chunk.hasChecksum, none⟩
  | .zlib | .bzip2 => some ⟨chunk.data, true, false, none⟩
  | .zstd => none
  | .patternFill pattern => some ⟨[], true, false, some pattern⟩

def rememberedEncodedDataChunk (chunk : EncodedDataChunk) (options : WriteOptions)
    (targetChunkSize offset decodedLen : Nat) : Option RememberedEncodedChunk :=
  if offset % targetChunkSize ≠ 0 ∨ decodedLen ≠ chunk.logicalSize then none
  else if targetChunkSize < decodedLen then none
  else if ¬ encodedDataChunkEncodingCompatible chunk.encoding options then none
  else match validateEncodedSize chunk.encodedSize targetChunkSize
      (encodedDataChunkEncoding chunk.encoding) with
    | .error _ => none
    | .ok _ => (rememberedForm chunk).map fun encoded =>
        { logicalSize := decodedLen, encoding := chunk.encoding, encoded }

/-! ## Operations -/

namespace EwfWriter

def create (options : WriteOptions) : Result EwfWriter := do
  let options := { options with
    maximumSegmentSize := normalizeMaximumSegmentSize options.maximumSegmentSize
    mediaSize := normalizeMediaSize options.mediaSize }
  validateOptions options
  let (chunkSize, chunkCapacity) ←
    writerChunkGeometry options.sectorsPerChunk options.bytesPerSector
  return { options, chunkSize, chunkCapacity }

def ensureNotAborted (w : EwfWriter) : Result Unit := rejectIf w.abortSignaled .aborted

def ensureConfigurationMutable (w : EwfWriter) (label : String) : Result Unit :=
  rejectIf (w.logicalInputSize ≠ 0)
    (.unsupported s!"writer {label} cannot be changed after media data has been written")

def forgetEncodedChunksInRange (w : EwfWriter) (startOffset endOffset : Nat) : EncodedChunks :=
  if endOffset ≤ startOffset then w.encodedChunks
  else fun index =>
    if startOffset / w.chunkSize ≤ index ∧ index ≤ (endOffset - 1) / w.chunkSize then none
    else w.encodedChunks index

def writeToCurrent (w : EwfWriter) (data : Bytes) : Result EwfWriter := do
  w.ensureNotAborted
  let endOffset ← okOr (.malformed "writer logical input size overflow")
    (checkedAdd w.currentOffset data.length)
  rejectIf (w.options.mediaSize.any (· < endOffset))
    (.unsupported "writer write exceeds configured media size")
  return { w with
    encodedChunks := w.forgetEncodedChunksInRange w.currentOffset endOffset
    raw := writeAt 0 w.raw w.currentOffset data
    currentOffset := endOffset
    logicalInputSize := max w.logicalInputSize endOffset }

def rememberEncodedDataChunkAt (w : EwfWriter) (chunk : EncodedDataChunk)
    (offset decodedLen : Nat) : EwfWriter :=
  match rememberedEncodedDataChunk chunk w.options w.chunkSize offset decodedLen with
  | none => w
  | some encoded => { w with
      encodedChunks := fun index =>
        if index = offset / w.chunkSize then some encoded else w.encodedChunks index }

def writeAll (w : EwfWriter) (data : Bytes) : Result EwfWriter := do
  w.ensureNotAborted
  w.writeToCurrent data

/-- `write_at` on the writer; the spool's own `write_at` is `ByteStore.writeAt`. -/
def writeAtOffset (w : EwfWriter) (data : Bytes) (offset : Nat) : Result EwfWriter := do
  w.ensureNotAborted
  { w with currentOffset := offset }.writeToCurrent data

def writeDataChunk (w : EwfWriter) (chunk : DataChunk) : Result EwfWriter := do
  w.ensureNotAborted
  validateWriteDataChunk chunk
  w.writeToCurrent chunk.data

def writeDataChunkAt (w : EwfWriter) (chunk : DataChunk) (offset : Nat) : Result EwfWriter := do
  w.ensureNotAborted
  validateWriteDataChunk chunk
  w.writeAtOffset chunk.data offset

def writeEncodedDataChunk (codec : Codec) (w : EwfWriter) (chunk : EncodedDataChunk) :
    Result EwfWriter := do
  w.ensureNotAborted
  let data ← decodeWriteEncodedDataChunk codec chunk
  let offset := w.currentOffset
  let written ← w.writeToCurrent data
  return written.rememberEncodedDataChunkAt chunk offset data.length

def writeEncodedDataChunkAt (codec : Codec) (w : EwfWriter) (chunk : EncodedDataChunk)
    (offset : Nat) : Result EwfWriter := do
  w.ensureNotAborted
  let data ← decodeWriteEncodedDataChunk codec chunk
  let written ← { w with currentOffset := offset }.writeToCurrent data
  return written.rememberEncodedDataChunkAt chunk offset data.length

def seekPosition (w : EwfWriter) (position : SeekFrom) : Result EwfWriter := do
  let endSize ← targetMediaInputSize w.logicalInputSize w.options.mediaSize
  let next ← checkedWriterSeek w.currentOffset endSize position
  return { w with currentOffset := next }

def setFormat (w : EwfWriter) (format : WriteFormat) : Result EwfWriter := do
  w.ensureConfigurationMutable "format"
  let options := { w.options with format }
  validateOptions options
  return { w with options }

/-- The body that `set_sectors_per_chunk` and `set_bytes_per_sector` share. -/
def setGeometry (w : EwfWriter) (label : String) (options : WriteOptions) : Result EwfWriter := do
  w.ensureConfigurationMutable label
  let (chunkSize, chunkCapacity) ←
    writerChunkGeometry options.sectorsPerChunk options.bytesPerSector
  validateOptions options
  return { w with options, chunkSize, chunkCapacity, encodedChunks := fun _ => none }

def setSectorsPerChunk (w : EwfWriter) (sectorsPerChunk : UInt32) : Result EwfWriter :=
  w.setGeometry "sectors per chunk" { w.options with sectorsPerChunk }

def setBytesPerSector (w : EwfWriter) (bytesPerSector : UInt32) : Result EwfWriter :=
  w.setGeometry "bytes per sector" { w.options with bytesPerSector }

def setMaximumSegmentSize (w : EwfWriter) (maximumSegmentSize : Option Nat) :
    Result EwfWriter := do
  w.ensureConfigurationMutable "maximum segment size"
  let options := { w.options with
    maximumSegmentSize := normalizeMaximumSegmentSize maximumSegmentSize }
  validateOptions options
  return { w with options }

def setMediaSize (w : EwfWriter) (mediaSize : Nat) : Result EwfWriter := do
  w.ensureConfigurationMutable "media size"
  let mediaSize := normalizeMediaSize (some mediaSize)
  rejectIf (mediaSize.any (· < w.logicalInputSize))
    (.unsupported "writer configured media size is smaller than written data")
  return { w with options := { w.options with mediaSize } }

def setSegmentFileSetIdentifier (w : EwfWriter) (setIdentifier : SetIdentifier) : Result EwfWriter := do
  w.ensureConfigurationMutable "set identifier"
  return { w with options := { w.options with setIdentifier := some setIdentifier } }

def setCompressionMethod (w : EwfWriter) (compression : WriteCompression) : Result EwfWriter := do
  w.ensureConfigurationMutable "compression method"
  rejectIf (compression = .bzip2 ∧ ¬ isEwf2Format w.options.format)
    (.unsupported "BZip2 writer compression is only supported for EWF2")
  return { w with options := { w.options with compression } }

def setCompressionValues (w : EwfWriter) (compressionValues : WriteCompressionValues) :
    Result EwfWriter := do
  w.ensureConfigurationMutable "compression values"
  return { w with options := { w.options with compressionValues } }

def setMediaType (w : EwfWriter) (mediaType : Option MediaType) : Result EwfWriter := do
  w.ensureConfigurationMutable "media type"
  return { w with options := { w.options with
    mediaProfile := { w.options.mediaProfile with mediaType } } }

def setErrorGranularity (w : EwfWriter) (errorGranularity : Option Nat) : Result EwfWriter := do
  w.ensureConfigurationMutable "error granularity"
  return { w with options := { w.options with
    mediaProfile := { w.options.mediaProfile with errorGranularity } } }

def setMediaFlags (w : EwfWriter) (mediaFlags : MediaFlags) : Result EwfWriter := do
  w.ensureConfigurationMutable "media flags"
  rejectIf (mediaFlags.physical ≠ writeFormatIsPhysical w.options.format)
    (.unsupported "writer physical media flag is controlled by image format")
  return { w with options := { w.options with
    mediaProfile := { w.options.mediaProfile with
      fastbloc := mediaFlags.fastbloc
      tableau := mediaFlags.tableau } } }

/-- `EwfWriter::copy_media_values_from_info`. Unlike the setters of the geometry it is allowed
after data has been written, and it leaves the remembered chunks as they are. -/
def copyMediaValuesFromInfo (w : EwfWriter) (info : ImageInfo) : Result EwfWriter := do
  let options ← w.options.copyMediaValuesFromInfo info
  rejectIf (options.mediaSize.any (· < w.logicalInputSize))
    (.unsupported "writer configured media size is smaller than written data")
  let (chunkSize, chunkCapacity) ←
    writerChunkGeometry options.sectorsPerChunk options.bytesPerSector
  return { w with options, chunkSize, chunkCapacity }

def copyHashValuesFromInfo (w : EwfWriter) (info : ImageInfo) : EwfWriter :=
  { w with options := { w.options with
    hashes := {
      md5 := info.storedHashes.md5
      sha1 := info.storedHashes.sha1
      hashValues := info.storedHashes.hashValues } } }

def setHashValue (w : EwfWriter) (identifier value : String) : Result EwfWriter := do
  let hashes ← w.options.hashes.setHashValue identifier value
  return { w with options := { w.options with hashes } }

def setMd5Hash (w : EwfWriter) (md5 : Bytes) : Result EwfWriter := do
  rejectIf w.options.hashes.md5.isSome (.unsupported "MD5 hash cannot be changed")
  return { w with options := { w.options with
    hashes := { w.options.hashes with
      md5 := some md5
      hashValues := w.options.hashes.hashValues.orInsert "MD5" (hexString md5) } } }

def setSha1Hash (w : EwfWriter) (sha1 : Bytes) : Result EwfWriter := do
  rejectIf w.options.hashes.sha1.isSome (.unsupported "SHA1 hash cannot be changed")
  return { w with options := { w.options with
    hashes := { w.options.hashes with
      sha1 := some sha1
      hashValues := w.options.hashes.hashValues.orInsert "SHA1" (hexString sha1) } } }

def appendAcquisitionError (w : EwfWriter) (error : AcquisitionError) : EwfWriter :=
  { w with options := { w.options with
    acquisitionErrors := w.options.acquisitionErrors ++ [error] } }

def appendChecksumError (w : EwfWriter) (range : SectorRange) : EwfWriter :=
  { w with options := { w.options with checksumErrors := w.options.checksumErrors ++ [range] } }

def appendSession (w : EwfWriter) (range : SectorRange) : Result EwfWriter := do
  validateSignedSectorRangeValue "session" "start sector" range.firstSector
  validateSignedSectorRangeValue "session" "sector count" range.sectorCount
  return { w with options := { w.options with sessions := w.options.sessions ++ [range] } }

def appendTrack (w : EwfWriter) (range : SectorRange) : Result EwfWriter := do
  validateSignedSectorRangeValue "track" "start sector" range.firstSector
  validateSignedSectorRangeValue "track" "sector count" range.sectorCount
  return { w with options := { w.options with tracks := w.options.tracks ++ [range] } }

end EwfWriter

/-- The operations of a writer that is open: writing at the position or at an offset, as plain bytes
or as encoded chunks, seeking, and the setters. -/
inductive WriterOp
  | writeAll (data : Bytes)
  | writeAt (data : Bytes) (offset : Nat)
  | writeDataChunk (chunk : DataChunk)
  | writeDataChunkAt (chunk : DataChunk) (offset : Nat)
  | writeEncodedDataChunk (chunk : EncodedDataChunk)
  | writeEncodedDataChunkAt (chunk : EncodedDataChunk) (offset : Nat)
  | seek (position : SeekFrom)
  | setFormat (format : WriteFormat)
  | setSectorsPerChunk (sectorsPerChunk : UInt32)
  | setBytesPerSector (bytesPerSector : UInt32)
  | setMaximumSegmentSize (maximumSegmentSize : Option Nat)
  | setMediaSize (mediaSize : Nat)
  | setSegmentFileSetIdentifier (setIdentifier : SetIdentifier)
  | setCompressionMethod (compression : WriteCompression)
  | setCompressionValues (values : WriteCompressionValues)
  | setMediaType (mediaType : Option MediaType)
  | setErrorGranularity (errorGranularity : Option Nat)
  | setMediaFlags (mediaFlags : MediaFlags)
  | copyMediaValuesFromInfo (info : ImageInfo)
  | copyHashValuesFromInfo (info : ImageInfo)
  | setHashValue (identifier value : String)
  | setMd5Hash (md5 : Bytes)
  | setSha1Hash (sha1 : Bytes)
  | appendAcquisitionError (error : AcquisitionError)
  | appendChecksumError (range : SectorRange)
  | appendSession (range : SectorRange)
  | appendTrack (range : SectorRange)
  | signalAbort

/-- What an operation does to the writer when it succeeds. An error leaves no writer: the callers
stop at the first one. -/
def EwfWriter.apply (codec : Codec) (w : EwfWriter) : WriterOp → Result EwfWriter
  | .writeAll data => w.writeAll data
  | .writeAt data offset => w.writeAtOffset data offset
  | .writeDataChunk chunk => w.writeDataChunk chunk
  | .writeDataChunkAt chunk offset => w.writeDataChunkAt chunk offset
  | .writeEncodedDataChunk chunk => w.writeEncodedDataChunk codec chunk
  | .writeEncodedDataChunkAt chunk offset => w.writeEncodedDataChunkAt codec chunk offset
  | .seek position => w.seekPosition position
  | .setFormat format => w.setFormat format
  | .setSectorsPerChunk sectorsPerChunk => w.setSectorsPerChunk sectorsPerChunk
  | .setBytesPerSector bytesPerSector => w.setBytesPerSector bytesPerSector
  | .setMaximumSegmentSize maximumSegmentSize => w.setMaximumSegmentSize maximumSegmentSize
  | .setMediaSize mediaSize => w.setMediaSize mediaSize
  | .setSegmentFileSetIdentifier setIdentifier => w.setSegmentFileSetIdentifier setIdentifier
  | .setCompressionMethod compression => w.setCompressionMethod compression
  | .setCompressionValues values => w.setCompressionValues values
  | .setMediaType mediaType => w.setMediaType mediaType
  | .setErrorGranularity errorGranularity => w.setErrorGranularity errorGranularity
  | .setMediaFlags mediaFlags => w.setMediaFlags mediaFlags
  | .copyMediaValuesFromInfo info => w.copyMediaValuesFromInfo info
  | .copyHashValuesFromInfo info => .ok (w.copyHashValuesFromInfo info)
  | .setHashValue identifier value => w.setHashValue identifier value
  | .setMd5Hash md5 => w.setMd5Hash md5
  | .setSha1Hash sha1 => w.setSha1Hash sha1
  | .appendAcquisitionError error => .ok (w.appendAcquisitionError error)
  | .appendChecksumError range => .ok (w.appendChecksumError range)
  | .appendSession range => w.appendSession range
  | .appendTrack range => w.appendTrack range
  | .signalAbort => .ok { w with abortSignaled := true }

/-- The successful operations. -/
def WriterStep (codec : Codec) (w : EwfWriter) (op : WriterOp) (w' : EwfWriter) : Prop :=
  w.apply codec op = .ok w'

/-! ## Preparation of the output -/

structure PreparedWrite where
  options : WriteOptions
  spooled : EncodedSpool
  logicalSize : Nat
  chunkSize : Nat
  chunkCount : Nat
  sectorCount : Nat

def EwfWriter.logicalSize (w : EwfWriter) : Result Nat := do
  let size ← targetMediaInputSize w.logicalInputSize w.options.mediaSize
  paddedLogicalSize size w.options.bytesPerSector

def EwfWriter.prepareWrite (codec : Codec) (digests : Digests) (w : EwfWriter) :
    Result PreparedWrite := do
  w.ensureNotAborted
  let logicalSize ← w.logicalSize
  let sectorCount := logicalSize / w.options.bytesPerSector.toNat
  let spooled ← encodeRawSpool codec digests w.raw w.encodedChunks logicalSize w.chunkCapacity
    w.chunkSize w.options
  let hashes ← effectiveWriteHashes w.options.hashes spooled.computedMd5 spooled.computedSha1
    spooled.computedSha256
  validateSessionRanges "sessions" w.options.sessions sectorCount
  validateSessionRanges "tracks" w.options.tracks sectorCount
  let chunkCount := spooled.chunks.length
  rejectIf (u32Limit ≤ chunkCount) (.unsupported "writer chunk count exceeds u32")
  return {
    options := { w.options with hashes }
    spooled
    logicalSize
    chunkSize := w.chunkSize
    chunkCount
    sectorCount }

end EwfImage
