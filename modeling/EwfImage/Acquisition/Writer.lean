import EwfImage.Lib.Pieces
import EwfImage.Lib.Triples
import EwfImage.Segment
import EwfImage.Writer.Ewf1Segment

/-!
# The acquisition writer

Accepted bytes wait in `pending` until they fill a chunk; complete chunks wait in
scratch storage until they are sealed into a segment. The spooled chunks stand next
to their descriptors, a hash state is the bytes it has absorbed, and a sealed segment
is what the segment writer was given. Scratch storage and the directory of sealed
segments belong to the environment and may fail at any time.

Every operation is a computation with the state and an error, since a failure leaves a writer
that is used again. The encoder is the parameter `Codec`; the names of segments and the
publication of a finished acquisition are left out, but for the number of names there are.
-/

namespace EwfImage.Acquisition

open Fallible Word Pieces

/-- A sealed segment and the media offset at its end. -/
structure Seal where
  stop : Nat
  chunks : List EncodedChunk
  acquisitionErrors : List AcquisitionError
  finalSegment : Bool
  /-- The bytes that the stored digests of a final segment cover. -/
  hashed : Bytes

structure AcquisitionWriter where
  bytesPerSector : Nat
  compression : WriteCompression
  compressionValues : WriteCompressionValues
  sourceSize : Nat
  chunkSize : Nat
  chunksPerSegment : Nat
  offset : Nat := 0
  pending : Bytes := []
  chunks : List EncodedChunk := []
  hashed : Bytes := []
  sealed : List Seal := []
  errors : List AcquisitionError := []
  substitutedSectors : Nat := 0
  failed : Bool := false

/-! ## Creation -/

structure AcquisitionOptions where
  sourceSize : Nat
  bytesPerSector : UInt32 := 512
  sectorsPerChunk : UInt32 := 64
  chunksPerSegment : UInt32 := 16375
  compression : WriteCompression := .zlib

def AcquisitionOptions.writerOptions (acquisition : AcquisitionOptions) : Result WriteOptions := do
  let (chunkSize, _) ←
    writerChunkGeometry acquisition.sectorsPerChunk acquisition.bytesPerSector
  rejectIf (acquisition.sourceSize = 0 ∨
      acquisition.sourceSize % acquisition.bytesPerSector.toNat ≠ 0 ∨
      16 * 1024 * 1024 < chunkSize ∨ acquisition.chunksPerSegment = 0 ∨
      ewf1TableGroupMaxEntries < acquisition.chunksPerSegment.toNat ∨
      u32Limit - 1 < divCeil acquisition.sourceSize chunkSize)
    (.unsupported "unsupported acquisition geometry")
  let options : WriteOptions :=
    { sectorsPerChunk := acquisition.sectorsPerChunk
      bytesPerSector := acquisition.bytesPerSector
      compression := acquisition.compression
      mediaSize := some acquisition.sourceSize }
  validateOptions options
  return options

def AcquisitionWriter.new (options : WriteOptions) (acquisition : AcquisitionOptions) :
    AcquisitionWriter where
  bytesPerSector := options.bytesPerSector.toNat
  compression := options.compression
  compressionValues := options.compressionValues
  sourceSize := acquisition.sourceSize
  chunkSize := options.bytesPerSector.toNat * options.sectorsPerChunk.toNat
  chunksPerSegment := acquisition.chunksPerSegment.toNat

structure AcquisitionProgress where
  sourceSize : Nat
  bytesWritten : Nat
  checkpointBytes : Nat
  sealedSegments : Nat
  substitutedSectors : Nat
  readAttempts : Nat := 0
  retryAttempts : Nat := 0
  readOffset : Nat
  readError : Option IoErrorKind := none

/-- The source, the callback, the scratch storage and the directory of sealed segments, each an
arbitrary function of a world `σ`. -/
structure Environment (σ : Type) where
  seek : Nat → σ → Except IoErrorKind Nat × σ
  /-- Read up to a number of bytes; more than that is an invalid read length. -/
  read : Nat → σ → Except IoErrorKind Bytes × σ
  /-- Whether the callback breaks. -/
  callback : AcquisitionProgress → σ → Bool × σ
  append : EncodedChunk → σ → Option EwfError × σ
  install : Nat → Seal → σ → Option EwfError × σ

structure State (σ : Type) where
  world : σ
  writer : AcquisitionWriter
  progress : AcquisitionProgress
  /-- The offset and the bytes of each successful read attempt, for the record. -/
  attempts : List (Nat × Bytes) := []

abbrev Acquire (σ : Type) := EStateM EwfError (State σ)

namespace AcquisitionWriter

variable (w : AcquisitionWriter)

def checkpointOffset : Nat := (w.sealed.getLast?.map (·.stop)).getD 0

/-- The error ranges cut at `endSector`, without the empty ones. -/
def errorsBefore (endSector : Nat) : List AcquisitionError :=
  w.errors.filterMap fun range =>
    let stop := min (range.firstSector + range.sectorCount) endSector
    if range.firstSector < stop then some ⟨range.firstSector, stop - range.firstSector⟩ else none

def nextSeal (finalSegment : Bool) : Seal where
  stop := w.offset - w.pending.length
  chunks := w.chunks
  acquisitionErrors := w.errorsBefore ((w.offset - w.pending.length) / w.bytesPerSector)
  finalSegment
  hashed := w.hashed

/-- `encode_chunk` with the settings of the writer. -/
def encode (codec : Codec) (chunk : Bytes) : Result EncodedChunk :=
  encodeChunk codec chunk w.compression w.compressionValues w.chunkSize false false

/-- `record_substitution`. -/
def recordSubstitution (maximumRanges : Nat) : Result AcquisitionWriter := do
  let firstSector := w.offset / w.bytesPerSector
  rejectIf (u32Limit ≤ firstSector)
    (.unsupported "unreadable sector exceeds EWF1 error-table addressing")
  match w.errors.getLast? with
  | some last =>
    if last.firstSector + last.sectorCount = firstSector ∧ last.sectorCount < u32Limit - 1 then
      return { w with
        errors := w.errors.dropLast ++ [⟨last.firstSector, last.sectorCount + 1⟩]
        substitutedSectors := w.substitutedSectors + 1 }
    else do
      rejectIf (maximumRanges ≤ w.errors.length)
        (.unsupported "acquisition error-range limit reached")
      return { w with
        errors := w.errors ++ [⟨firstSector, 1⟩]
        substitutedSectors := w.substitutedSectors + 1 }
  | none => do
    rejectIf (maximumRanges ≤ w.errors.length)
      (.unsupported "acquisition error-range limit reached")
    return { w with
      errors := w.errors ++ [⟨firstSector, 1⟩]
      substitutedSectors := w.substitutedSectors + 1 }

end AcquisitionWriter

/-! ## Operations -/

section Operations

variable {σ : Type}

/-- Use the environment. -/
def ask {α : Type} (operation : σ → α × σ) : Acquire σ α := fun s =>
  let (answer, world) := operation s.world
  .ok answer { s with world }

def fromResult {α : Type} : Result α → Acquire σ α
  | .ok a => pure a
  | .error e => throw e

def writer : Acquire σ AcquisitionWriter := do return (← get).writer

def modifyWriter (change : AcquisitionWriter → AcquisitionWriter) : Acquire σ Unit :=
  modify fun s => { s with writer := change s.writer }

def fail : Acquire σ Unit := modifyWriter fun w => { w with failed := true }

def ensureHealthy : Acquire σ Unit := do
  let w ← writer
  if w.failed then throw (.unsupported "acquisition failed; drop and resume it") else pure ()

/-- `seal`. -/
def sealSegment (env : Environment σ) (finalSegment : Bool) : Acquire σ Unit := do
  let w ← writer
  let index := w.sealed.length + 1
  let _ ← fromResult (v1SegmentExtension 'E' index)
  let _ ← fromResult (rejectIf (65536 ≤ index) (.unsupported "too many acquisition segments"))
  let failure ← ask (env.install index (w.nextSeal finalSegment))
  match failure with
  | some e => throw e
  | none => modifyWriter fun w =>
      { w with sealed := w.sealed ++ [w.nextSeal finalSegment], chunks := [] }

/-- `sealSegment`, after which a failed writer is poisoned. -/
def sealOrFail (env : Environment σ) (finalSegment : Bool) : Acquire σ Unit :=
  tryCatch (sealSegment env finalSegment) fun e => do
    fail
    throw e

def checkpoint (env : Environment σ) : Acquire σ Nat := do
  ensureHealthy
  let w ← writer
  (if w.chunks ≠ [] then sealOrFail env false else pure ())
  let w ← writer
  return w.checkpointOffset

/-- Append an encoded chunk to the scratch storage. -/
def storeChunk (env : Environment σ) (encoded : EncodedChunk) : Acquire σ Unit := do
  let failure ← ask (env.append encoded)
  match failure with
  | some e => throw e
  | none => modifyWriter fun w => { w with chunks := w.chunks ++ [encoded] }

/-- Seal a full segment, or the last one. -/
def sealIfFull (env : Environment σ) : Acquire σ Unit := do
  let w ← writer
  if w.chunks.length = w.chunksPerSegment ∨ w.offset = w.sourceSize then
    sealSegment env (w.offset = w.sourceSize)
  else pure ()

/-- Encode the pending chunk. -/
def completeChunk (codec : Codec) (env : Environment σ) : Acquire σ Unit := do
  let w ← writer
  modifyWriter fun w => { w with hashed := w.hashed ++ w.pending, pending := [] }
  let encoded ← fromResult (w.encode codec w.pending)
  storeChunk env encoded
  sealIfFull env

def append (codec : Codec) (env : Environment σ) (bytes : Bytes) : Acquire σ Nat := do
  ensureHealthy
  if bytes = [] then return 0
  else do
    let w ← writer
    if w.offset = w.sourceSize then
      throw (.malformed "input exceeds declared acquisition size")
    else do
      let take := min (min bytes.length (w.chunkSize - w.pending.length)) (w.sourceSize - w.offset)
      modifyWriter fun w => { w with
        pending := w.pending ++ bytes.take take
        offset := w.offset + take }
      let w ← writer
      (if w.pending.length = w.chunkSize ∨ w.offset = w.sourceSize then completeChunk codec env
        else pure ())
      return take

/-- `Write::write`. -/
def write (codec : Codec) (env : Environment σ) (bytes : Bytes) : Acquire σ Nat :=
  tryCatch (append codec env bytes) fun _ => do
    fail
    throw (.io .other)

/-- `Write::write_all`; every turn accepts at least one byte. -/
def writeAll (codec : Codec) (env : Environment σ) : Nat → Bytes → Acquire σ Unit
  | 0, _ => pure ()
  | fuel + 1, bytes =>
    if bytes = [] then pure ()
    else do
      let count ← write codec env bytes
      if count = 0 then throw (.io .writeZero)
      else writeAll codec env fuel (bytes.drop count)

end Operations

end EwfImage.Acquisition
