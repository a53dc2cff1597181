import EwfImage.Acquisition.Writer

/-!
# Reading a source

The loop reads whole chunks while it can. A bulk read that fails is discarded and
read again sector by sector, each sector with its retries; a sector that stays
unreadable stops the loop or is replaced by zeros with a record of the substitution.

The functions are those of the source, one for one, over an environment: `seek`, `read`, the
callback that may cancel, and the storage. Each call of `read` that succeeds is recorded with
its address and its answer; the record is a ghost and changes nothing.
-/

namespace EwfImage.Acquisition

open Fallible Word Pieces

inductive UnreadableSectorPolicy
  | stop
  | zeroFill
  deriving DecidableEq

structure AcquisitionReadOptions where
  retries : Nat := 2
  unreadableSectorPolicy : UnreadableSectorPolicy := .stop
  maximumErrorRanges : Nat := 65536
  checkpointInterval : Option Nat := none

inductive AcquisitionStatus
  | complete
  | cancelled
  deriving DecidableEq

structure AcquisitionOutcome where
  status : AcquisitionStatus
  progress : AcquisitionProgress

def automaticBulkReadBytes (chunkSize : Nat) : Nat := max (256 * 1024 / chunkSize) 1 * chunkSize

/-- Errors that a sector may be replaced after. -/
def recoverable (kind : IoErrorKind) : Bool :=
  match kind with
  | .unexpectedEof | .permissionDenied | .invalidInput | .unsupported | .notFound | .interrupted
  | .timedOut | .wouldBlock | .notConnected | .connectionAborted | .connectionReset
  | .brokenPipe => false
  | _ => true

def AcquisitionWriter.sourceProgress (w : AcquisitionWriter) : AcquisitionProgress where
  sourceSize := w.sourceSize
  bytesWritten := w.offset
  checkpointBytes := w.checkpointOffset
  sealedSegments := w.sealed.length
  substitutedSectors := w.substitutedSectors
  readOffset := w.offset

def AcquisitionWriter.refreshProgress (w : AcquisitionWriter) (progress : AcquisitionProgress) :
    AcquisitionProgress :=
  { progress with
    bytesWritten := w.offset
    checkpointBytes := w.checkpointOffset
    sealedSegments := w.sealed.length
    substitutedSectors := w.substitutedSectors }

section Reading

variable {σ : Type}

def modifyProgress (change : AcquisitionProgress → AcquisitionProgress) : Acquire σ Unit :=
  modify fun s => { s with progress := change s.progress }

def notify (env : Environment σ) : Acquire σ Unit := do
  let s ← get
  let isBreak ← ask (env.callback s.progress)
  if isBreak then throw .aborted else pure ()

/-- An empty read is the end of the source, and a longer one than asked for is invalid. -/
def checkRead (wanted : Nat) : Except IoErrorKind Bytes → Except IoErrorKind Bytes
  | .ok bytes =>
    if bytes = [] then .error .unexpectedEof
    else if bytes.length ≤ wanted then .ok bytes
    else .error .invalidInput
  | .error kind => .error kind

/-- The loop of `read_attempt`; `fuel` bounds the bytes that are missing. -/
def readLoop (env : Environment σ) (size : Nat) : Nat → Bytes → Acquire σ (Except IoErrorKind Bytes)
  | 0, filled => pure (.ok filled)
  | fuel + 1, filled =>
    if filled.length < size then do
      let result ← ask (env.read (size - filled.length))
      match checkRead (size - filled.length) result with
      | .error kind =>
        modifyProgress fun progress => { progress with readError := some kind }
        notify env
        return .error kind
      | .ok bytes =>
        notify env
        readLoop env size fuel (filled ++ bytes)
    else pure (.ok filled)

/-- `read_attempt` at the offset of the writer; a failed read is a value. -/
def readAttempt (env : Environment σ) (size : Nat) : Acquire σ (Except IoErrorKind Bytes) := do
  let w ← writer
  modifyProgress fun progress => { progress with readOffset := w.offset, readError := none }
  notify env
  let positioned ← ask (env.seek w.offset)
  match positioned with
  | .error kind => throw (.io kind)
  | .ok positioned =>
    if positioned ≠ w.offset then
      throw (.malformed "source seek returned a different offset")
    else do
      modifyProgress fun progress => { progress with readAttempts := progress.readAttempts + 1 }
      let result ← readLoop env size size []
      match result with
      | .error kind => return .error kind
      | .ok bytes =>
        modify fun s => { s with attempts := s.attempts ++ [(w.offset, bytes)] }
        return .ok bytes

/-- The attempts at one sector, `left` of them after this one. -/
def attemptSector (env : Environment σ) (size : Nat) :
    Nat → Bool → Acquire σ (Except IoErrorKind Bytes)
  | left, retry => do
    (if retry then
      modifyProgress fun progress => { progress with retryAttempts := progress.retryAttempts + 1 }
    else pure ())
    let result ← readAttempt env size
    match result with
    | .ok bytes => return .ok bytes
    | .error kind =>
      if recoverable kind then
        match left with
        | 0 => return .error kind
        | left + 1 => attemptSector env size left true
      else throw (.io kind)

def refreshSourceProgress : Acquire σ Unit := do
  let w ← writer
  modifyProgress w.refreshProgress

def afterSourceWrite (env : Environment σ) (options : AcquisitionReadOptions) : Acquire σ Unit := do
  let w ← writer
  (if options.checkpointInterval.any (· ≤ w.offset - w.checkpointOffset) then do
      let _ ← checkpoint env
      pure ()
    else pure ())
  refreshSourceProgress
  notify env

/-- One sector of a range that is read sector by sector. -/
def acquireSector (codec : Codec) (env : Environment σ) (options : AcquisitionReadOptions)
    (size : Nat) : Acquire σ Unit := do
  let result ← attemptSector env size options.retries false
  let sector ← (match result with
    | .ok bytes => pure bytes
    | .error kind =>
      if options.unreadableSectorPolicy = .stop then throw (.io kind)
      else do
        let w ← writer
        let recorded ← fromResult (w.recordSubstitution options.maximumErrorRanges)
        modifyWriter fun _ => recorded
        pure (List.replicate size 0))
  writeAll codec env sector.length sector
  afterSourceWrite env options

def acquireSectors (codec : Codec) (env : Environment σ) (options : AcquisitionReadOptions) :
    List Nat → Acquire σ Unit
  | [] => pure ()
  | size :: sizes => do
    acquireSector codec env options size
    acquireSectors codec env options sizes

/-- One chunk of a healthy batch; a failure of the destination poisons the writer. -/
def storeBatchChunk (env : Environment σ) (options : AcquisitionReadOptions) (chunk : Bytes)
    (encoded : EncodedChunk) : Acquire σ Unit := do
  modifyWriter fun w => { w with offset := w.offset + chunk.length, hashed := w.hashed ++ chunk }
  tryCatch (do storeChunk env encoded; sealIfFull env) fun e => do
    fail
    throw e
  afterSourceWrite env options

def storeBatch (env : Environment σ) (options : AcquisitionReadOptions) :
    List (Bytes × EncodedChunk) → Acquire σ Unit
  | [] => pure ()
  | (chunk, encoded) :: rest => do
    storeBatchChunk env options chunk encoded
    storeBatch env options rest

def appendHealthyBatch (codec : Codec) (env : Environment σ) (options : AcquisitionReadOptions)
    (bytes : Bytes) : Acquire σ Unit := do
  ensureHealthy
  let w ← writer
  if w.pending ≠ [] ∨ bytes = [] ∨ w.sourceSize - w.offset < bytes.length then
    throw (.malformed "invalid healthy acquisition batch")
  else do
    let chunks := pieces w.chunkSize bytes
    let encoded ← tryCatch (fromResult (chunks.mapM (w.encode codec))) fun e => do
      fail
      throw e
    storeBatch env options (chunks.zip encoded)

/-- The bulk read of a turn, absent when the turn goes sector by sector. -/
def bulkRead (env : Environment σ) (size sectorSize : Nat) : Acquire σ (Option Bytes) :=
  if sectorSize < size then do
    let result ← readAttempt env size
    match result with
    | .ok bytes => return some bytes
    | .error kind => if recoverable kind then return none else throw (.io kind)
  else return none

def AcquisitionWriter.readSize (w : AcquisitionWriter) : Nat :=
  let bulk := automaticBulkReadBytes w.chunkSize
  min (min (if w.pending = [] then bulk else w.chunkSize - w.pending.length) bulk)
    (w.sourceSize - w.offset)

/-- The sizes of the sectors of a range. -/
def sectorSizes (size sectorSize : Nat) : List Nat :=
  (pieces sectorSize (List.range size)).map List.length

def acquireTurn (codec : Codec) (env : Environment σ) (options : AcquisitionReadOptions) :
    Acquire σ Unit := do
  let w ← writer
  let bulk ← bulkRead env w.readSize w.bytesPerSector
  match bulk with
  | some bytes => appendHealthyBatch codec env options bytes
  | none => acquireSectors codec env options (sectorSizes w.readSize w.bytesPerSector)

/-- The loop of `acquire_loop`; every turn accepts at least one byte. -/
def acquireTurns (codec : Codec) (env : Environment σ) (options : AcquisitionReadOptions) :
    Nat → Acquire σ Unit
  | 0 => pure ()
  | fuel + 1 => do
    let w ← writer
    if w.offset < w.sourceSize then do
      acquireTurn codec env options
      acquireTurns codec env options fuel
    else pure ()

def acquireLoop (codec : Codec) (env : Environment σ) (options : AcquisitionReadOptions) :
    Acquire σ Unit := do
  notify env
  let w ← writer
  acquireTurns codec env options (w.sourceSize - w.offset)

/-- The checks of `acquire_with_progress` on its options. -/
def AcquisitionWriter.acceptsOptions (w : AcquisitionWriter) (options : AcquisitionReadOptions) :
    Bool :=
  w.offset % w.bytesPerSector = 0 && options.retries ≤ 100 && options.maximumErrorRanges ≠ 0 &&
    w.errors.length ≤ options.maximumErrorRanges &&
    options.checkpointInterval.all fun interval => interval ≠ 0 && interval % w.chunkSize = 0

/-- The media bytes that a segment holds at least, unless it is the last one. -/
def AcquisitionWriter.interval (w : AcquisitionWriter) (options : AcquisitionReadOptions) : Nat :=
  let maximumSegmentBytes := w.chunkSize * w.chunksPerSegment
  min (options.checkpointInterval.getD maximumSegmentBytes) maximumSegmentBytes

/-- The number of the last segment that the acquisition can need. -/
def AcquisitionWriter.finalSegment (w : AcquisitionWriter) (options : AcquisitionReadOptions) : Nat :=
  w.sealed.length + divCeil (w.sourceSize - w.checkpointOffset) (w.interval options)

/-- `acquire_with_progress`. -/
def acquire (codec : Codec) (env : Environment σ) (options : AcquisitionReadOptions) :
    Acquire σ AcquisitionOutcome := do
  ensureHealthy
  let w ← writer
  if w.acceptsOptions options = false then
    throw (.malformed "invalid acquisition read options or unaligned source position")
  else do
    let _ ← fromResult (v1SegmentExtension 'E' (w.finalSegment options))
    modifyProgress fun _ => w.sourceProgress
    let status ← tryCatch (do
        acquireLoop codec env options
        return AcquisitionStatus.complete) fun e =>
      if e = .aborted then return .cancelled
      else do
        let w ← writer
        (if w.failed then pure () else do
          let _ ← checkpoint env
          pure ())
        throw e
    let _ ← checkpoint env
    refreshSourceProgress
    let s ← get
    return { status, progress := s.progress }

end Reading

end EwfImage.Acquisition
