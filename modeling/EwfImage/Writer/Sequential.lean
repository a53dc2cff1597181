import EwfImage.Writer.SegmentSize
import EwfImage.Writer.Session

/-!
# The sequential writer

`SequentialWriter` takes the media in order and encodes every chunk when it is full. The
encoded chunks of one segment are kept in a group; a full group is staged as a segment
before the next chunk is taken. Nothing is published before the writer is finished, so
the staged segments are part of its state. File names and the publication are left out.

Calls may have any length, and the parallel encoding takes batches of a given number of chunks.
The hash states are the bytes they have absorbed; a failed call poisons the writer, as in the
source.
-/

namespace EwfImage

open Fallible Word

structure SequentialOptions where
  sourceSize : Nat
  chunksPerSegment : UInt32
  write : WriteOptions

/-- The chunks of one segment and the spool that holds them. -/
structure Group where
  spool : Bytes := []
  chunks : List ChunkDescriptor := []

structure SequentialWriter where
  options : WriteOptions
  sourceSize : Nat
  position : Nat := 0
  logicalSize : Nat
  chunkSize : Nat
  capacity : Nat
  perSegment : Nat
  totalChunks : UInt32
  encodedChunks : Nat := 0
  pending : Bytes := []
  current : Group := {}
  /-- The bytes that the hash states have absorbed. -/
  hashed : Bytes := []
  /-- The staged segments in order. -/
  segments : List Bytes := []
  poisoned : Bool := false

/-- What `finish` publishes and returns. -/
structure SequentialResult where
  segments : List Bytes
  logicalSize : Nat
  chunkSize : Nat
  chunkCount : Nat
  computedSha256 : Bytes
  deriving DecidableEq

/-! ## The chunks of a segment -/

/-- The binary search of `segment_chunk_limit` between two counts. -/
def searchChunkLimit (encoders : Ewf1PayloadEncoders) (sizing : WriteOptions)
    (encodedChunkSize maximumSize : Nat) : Nat → Nat → Nat → Result Nat
  | 0, low, _ => .ok low
  | fuel + 1, low, high =>
    if low < high then do
      let candidate := low + divCeil (high - low) 2
      let payloadSize ← okOr (.malformed "sequential segment size overflow")
        (checkedMul encodedChunkSize candidate)
      let estimate ← estimatedEwf1SegmentSize encoders candidate payloadSize 1 sizing
      if estimate ≤ maximumSize then
        searchChunkLimit encoders sizing encodedChunkSize maximumSize fuel candidate high
      else searchChunkLimit encoders sizing encodedChunkSize maximumSize fuel low (candidate - 1)
    else .ok low

/-- The options under which segments are sized: with final digests, none of them known yet. -/
def sizingOptions (options : WriteOptions) : Result WriteOptions := do
  let hashes ← effectiveWriteHashes options.hashes (List.replicate 16 0) (List.replicate 20 0)
    (List.replicate 32 0)
  return { options with hashes }

def segmentChunkLimit (encoders : Ewf1PayloadEncoders) (options : WriteOptions)
    (chunkSize : Nat) (requested : UInt32) : Result Nat :=
  match normalizeMaximumSegmentSize options.maximumSegmentSize with
  | none => .ok requested.toNat
  | some maximumSize => do
    rejectIf (isEwf2Format options.format)
      (.unsupported "maximum_segment_size is not supported for sequential EWF2")
    let sizing ← sizingOptions options
    let encodedChunkSize ← okOr (.malformed "sequential encoded chunk size overflow")
      (checkedAdd chunkSize 4)
    searchChunkLimit encoders sizing encodedChunkSize maximumSize requested.toNat 1
      requested.toNat

namespace SequentialWriter

def maximumChunkSize : Nat := 16 * 1024 * 1024

def maximumSegmentCapacity : Nat := 512 * 1024 * 1024

def create (encoders : Ewf1PayloadEncoders) (settings : SequentialOptions) :
    Result SequentialWriter := do
  let options := settings.write
  validateOptions options
  let isV2 := isEwf2Format options.format
  rejectIf (¬ (isV2 ∨ options.format = .ewf1Physical) ∨
      (isV2 ∧ (normalizeMaximumSegmentSize options.maximumSegmentSize).isSome))
    (.unsupported
      "sequential writing supports EWF1 physical or EWF2 with chunk-count segmentation")
  let (chunkSize, capacity) ←
    writerChunkGeometry options.sectorsPerChunk options.bytesPerSector
  rejectIf (maximumChunkSize < chunkSize ∨ settings.chunksPerSegment = 0 ∨
      (checkedMul chunkSize settings.chunksPerSegment.toNat).all (maximumSegmentCapacity < ·))
    (.unsupported "sequential writing requires chunks <=16 MiB and segment capacity <=512 MiB")
  let sector := options.bytesPerSector.toNat
  let logicalSize ← okOr (.malformed "sequential source size overflow")
    ((checkedAdd settings.sourceSize (sector - 1)).map (· / sector * sector))
  rejectIf ((normalizeMediaSize options.mediaSize).any (· ≠ logicalSize))
    (.unsupported "media_size differs from padded source size")
  let totalChunks := divCeil logicalSize chunkSize
  rejectIf (u32Limit ≤ totalChunks) (.unsupported "sequential chunk count exceeds u32")
  validateSessionRanges "sessions" options.sessions (logicalSize / sector)
  validateSessionRanges "tracks" options.tracks (logicalSize / sector)
  let perSegment ← segmentChunkLimit encoders options chunkSize settings.chunksPerSegment
  return {
    options
    sourceSize := settings.sourceSize
    logicalSize
    chunkSize
    capacity
    perSegment
    totalChunks := UInt32.ofNat totalChunks }

section

variable (codec : Codec) (ewf1 : Ewf1PayloadEncoders) (ewf2 : Ewf2PayloadEncoders)
  (digests : Digests)

/-- The error of a group that does not fit into its segment. -/
def exceedsMaximum : EwfError :=
  .unsupported "sequential EWF1 segment exceeds maximum_segment_size"

/-- The bytes of the segment that is staged for `group`. -/
def stageGroup (w : SequentialWriter) (group : Group) (number : Nat) (last : Bool) :
    Result Bytes := do
  let sectorCount := w.logicalSize / w.options.bytesPerSector.toNat
  if isEwf2Format w.options.format then do
    rejectIf (u32Limit ≤ number) (.unsupported "too many segments")
    let out ← writeEwf2Segment codec ewf2 group.spool group.chunks w.options {
      segmentNumber := UInt32.ofNat number
      firstChunk := UInt64.ofNat ((number - 1) * w.perSegment)
      totalChunkCount := w.totalChunks
      sectorCount
      terminalSection := if last then .done else .next }
    return out.bytes
  else do
    rejectIf (2 ^ 16 ≤ number) (.unsupported "too many EWF1 segments")
    let out ← writeEwf1Segment ewf1 group.spool group.chunks w.options {
      segmentNumber := UInt16.ofNat number
      chunkCount := w.totalChunks
      sectorCount
      sections := .forSegment (number = 1) last
      terminalSection := .done }
    rejectIf ((normalizeMaximumSegmentSize w.options.maximumSegmentSize).any fun limit =>
      1 < group.chunks.length ∧ limit < out.bytes.length) exceedsMaximum
    return out.bytes

/-- The chunk is put into the group; a full group is staged unless it is the last one. -/
def pushEncoded (w : SequentialWriter) (encoded : EncodedChunk) : Result SequentialWriter := do
  let (descriptor, spool) ← appendChunk w.current.spool encoded
  let current : Group := ⟨spool, w.current.chunks ++ [descriptor]⟩
  let encodedChunks := w.encodedChunks + 1
  if current.chunks.length = w.perSegment ∧ encodedChunks < w.totalChunks.toNat then do
    let segment ← w.stageGroup codec ewf1 ewf2 current (w.segments.length + 1) false
    return { w with current := {}, encodedChunks, segments := w.segments ++ [segment] }
  else return { w with current, encodedChunks }

def encodeOne (w : SequentialWriter) (chunk : Bytes) : Result EncodedChunk :=
  encodeChunk codec chunk w.options.compression w.options.compressionValues w.chunkSize
    (isEwf2Format w.options.format)
    (!isEwf2Format w.options.format && w.options.compressionValues.emptyBlock)

def encodeBatch (w : SequentialWriter) (chunks : List Bytes) : Result SequentialWriter := do
  let w := { w with hashed := w.hashed ++ chunks.flatten }
  let encoded ← chunks.mapM (w.encodeOne codec)
  encoded.foldlM (pushEncoded codec ewf1 ewf2) w

/-- The inner loop of `write_all`: bytes are taken until the batch is full. Every turn takes at
least one byte. -/
def fillBatch (batchSize : Nat) : Nat → List Bytes → SequentialWriter → Bytes →
    List Bytes × SequentialWriter × Bytes
  | 0, chunks, w, bytes => (chunks, w, bytes)
  | fuel + 1, chunks, w, bytes =>
    if bytes ≠ [] ∧ chunks.length < batchSize then
      let take := min bytes.length (w.capacity - w.pending.length)
      let pending := w.pending ++ bytes.take take
      let position := w.position + take
      if pending.length = w.capacity then
        fillBatch batchSize fuel (chunks ++ [pending]) { w with pending := [], position }
          (bytes.drop take)
      else fillBatch batchSize fuel chunks { w with pending, position } (bytes.drop take)
    else (chunks, w, bytes)

def writeLoop (batchSize : Nat) : Nat → SequentialWriter → Bytes → Result SequentialWriter
  | 0, w, _ => .ok w
  | fuel + 1, w, bytes =>
    if bytes ≠ [] then do
      let (chunks, w, bytes) := fillBatch batchSize bytes.length [] w bytes
      let w ← w.encodeBatch codec ewf1 ewf2 chunks
      writeLoop batchSize fuel w bytes
    else .ok w

/-- `write_all` on a writer that is not poisoned; an error poisons it. -/
def append (batchSize : Nat) (w : SequentialWriter) (bytes : Bytes) :
    Result SequentialWriter := do
  rejectIf (w.sourceSize - w.position < bytes.length)
    (.malformed "sequential input exceeds declared source size")
  writeLoop codec ewf1 ewf2 batchSize bytes.length w bytes

def writeAll (batchSize : Nat) (w : SequentialWriter) (bytes : Bytes) :
    SequentialWriter × Result Unit :=
  if w.poisoned then (w, .error .aborted)
  else match append codec ewf1 ewf2 batchSize w bytes with
    | .ok w => (w, .ok ())
    | .error e => ({ w with poisoned := true }, .error e)

/-- `finish` checks the length, pads the last sector and stages the last group. -/
def finish (w : SequentialWriter) : Result SequentialResult := do
  rejectIf w.poisoned .aborted
  rejectIf (w.position ≠ w.sourceSize)
    (.malformed "sequential input is shorter than declared source size")
  let pending := w.pending ++ List.replicate (w.logicalSize - w.sourceSize) 0
  let w ← (if pending ≠ [] then { w with pending := [] }.encodeBatch codec ewf1 ewf2 [pending]
    else .ok w)
  let hashes ← effectiveWriteHashes w.options.hashes (digests.md5 w.hashed)
    (digests.sha1 w.hashed) (digests.sha256 w.hashed)
  let w := { w with options := { w.options with hashes } }
  let segment ← w.stageGroup codec ewf1 ewf2 w.current (w.segments.length + 1) true
  return {
    segments := w.segments ++ [segment]
    logicalSize := w.logicalSize
    chunkSize := w.chunkSize
    chunkCount := w.totalChunks.toNat
    computedSha256 := digests.sha256 w.hashed }

end

end SequentialWriter

end EwfImage
