import EwfImage.Image.Index
import EwfImage.Lib.Search
import EwfImage.Lib.Triples
import EwfImage.Reading.Reader

/-!
# Recovery

Conservative recovery of physical images. A chunk is read through the primary table or its
redundant copy; bytes that fail a check are retained only when that is asked for, and what
cannot be read is replaced with zeros. The output is written chunk by chunk, with an event
for each.

The writing and the progress are parameters with a state of their own, so that any output and
any callback can be put in. A candidate carries that its segment exists and its data has an end;
`Reading.RecoveryPlan` builds the candidates from the segments.
-/

namespace EwfImage.Reading

open Fallible Ewf1 LittleEndian Search

structure RecoveryOptions where
  maximumOutputBytes : Option Nat := none
  preserveChecksumSuspect : Bool := false
  maximumRecords : Nat := 1024
  deriving DecidableEq

/-- Provenance of one recovered chunk. -/
inductive RecoveryStatus
  | primary
  | redundant
  | suspectPrimary
  | suspectRedundant
  | zeroFilled
  deriving DecidableEq

/-- Consecutive chunks with the same outcome. -/
structure RecoveryRange where
  firstChunk : Nat
  chunkCount : Nat
  logicalOffset : Nat
  byteCount : Nat
  status : RecoveryStatus
  deriving DecidableEq

structure RecoveryNotice where
  segmentIndex : Nat
  segmentOffset : Nat
  message : String
  deriving DecidableEq

/-- Progress of a recovery; the first event has no last status. -/
structure RecoveryProgress where
  chunksProcessed : Nat
  chunksTotal : Nat
  bytesWritten : Nat
  bytesTotal : Nat
  lastStatus : Option RecoveryStatus
  deriving DecidableEq

structure RecoveryReport where
  logicalSize : Nat
  chunksTotal : Nat
  chunksPrimary : Nat := 0
  chunksRedundant : Nat := 0
  chunksZeroFilled : Nat := 0
  chunksChecksumSuspect : Nat := 0
  bytesRecovered : Nat := 0
  bytesZeroFilled : Nat := 0
  ranges : List RecoveryRange := []
  omittedChunkRecords : Nat := 0
  notices : List RecoveryNotice
  omittedNotices : Nat
  deriving DecidableEq

/-- A table of one of the segments, with the end of its data. -/
structure Candidate (segments : Nat) where
  range : TableRange
  dataStart : Nat
  trustedTable : Bool
  located : range.segmentIndex < segments
  bounded : range.dataEnd.isSome = true

structure RecoveryGroup (segments : Nat) where
  firstChunk : Nat
  count : Nat
  primary : Option (Candidate segments)
  redundant : Option (Candidate segments)

/-- The recovery plan of an image: the segments, the groups of tables in the order of their chunks,
and what was noted while they were found. -/
structure EwfRecovery where
  sources : List SegmentFile
  groups : List (RecoveryGroup sources.length)
  chunkSize : Nat
  logicalSize : Nat
  options : RecoveryOptions
  notices : List RecoveryNotice
  omittedNotices : Nat

/-! ## One chunk -/

/-- The bytes that a table has for its chunk `localIndex`, and whether a checksum that they
carry matches. -/
def readCandidate {segments : Nat} (codec : Codec) (source : SegmentFile)
    (candidate : Candidate segments) (localIndex size chunkSize : Nat) : Result (Bytes × Bool) := do
  let range := candidate.range
  let dataEnd := range.dataEnd.get candidate.bounded
  let readEntry := fun index => (source.readExactAt (range.entriesOffset + index * 4) 4).map fromLE
  let raw ← readEntry localIndex
  let next ← (if localIndex + 1 < range.chunkCount then (readEntry (localIndex + 1)).map some
    else .ok none)
  let entry ← decodeEwf1Entry range raw chunkSize next (localIndex + 1 = range.chunkCount)
  let stop ← (match next with
    | some raw => (decodeEwf1Entry range raw chunkSize none
        (localIndex + 2 = range.chunkCount)).map (·.offset)
    | none => .ok dataEnd)
  rejectIf (entry.offset < candidate.dataStart ∨ dataEnd < stop ∨ stop ≤ entry.offset)
    (.malformed "recovery chunk is outside its sectors section")
  let encoding : ChunkEncoding := if entry.compressed then .zlib else .raw
  validateEncodedSize (stop - entry.offset) chunkSize encoding
  let bytes ← source.readExactAt entry.offset (stop - entry.offset)
  let checksumOk ← (if encoding ≠ .raw then .ok true
    else if bytes.length = size + 4 ∨ bytes.length = chunkSize + 4 then
      .ok (validateRawChunkChecksum bytes (bytes.length - 4)).isOk
    else if bytes.length = size ∨ bytes.length = chunkSize then .ok true
    else .error (.malformed "recovery raw chunk length is not a recognized layout"))
  let data ← decodeChunk codec bytes encoding size
  return (data, checksumOk)

namespace EwfRecovery

variable (codec : Codec) (recovery : EwfRecovery)

/-- The loop of `recover_chunk` over the tables of a group, with the bytes retained so far. -/
def chooseCandidate (localIndex size : Nat) :
    List (Option (Candidate recovery.sources.length) × RecoveryStatus × RecoveryStatus) →
      Option (Bytes × RecoveryStatus) → Bytes × RecoveryStatus
  | [], suspect => suspect.getD (List.replicate size 0, .zeroFilled)
  | (none, _, _) :: rest, suspect => chooseCandidate localIndex size rest suspect
  | (some candidate, clean, damaged) :: rest, suspect =>
    let source := recovery.sources.get ⟨candidate.range.segmentIndex, candidate.located⟩
    match readCandidate codec source candidate localIndex size recovery.chunkSize with
    | .error _ => chooseCandidate localIndex size rest suspect
    | .ok (bytes, checksumOk) =>
      if checksumOk ∧ candidate.trustedTable then (bytes, clean)
      else if recovery.options.preserveChecksumSuspect ∧ suspect.isNone then
        chooseCandidate localIndex size rest (some (bytes, damaged))
      else chooseCandidate localIndex size rest suspect

def recoverChunk (id size : Nat) : Bytes × RecoveryStatus :=
  let index := partitionPoint (fun group => group.firstChunk + group.count ≤ id) recovery.groups
  match recovery.groups[index]?.filter (·.firstChunk ≤ id) with
  | none => recovery.chooseCandidate codec 0 size [] none
  | some group => recovery.chooseCandidate codec (id - group.firstChunk) size
      [(group.primary, .primary, .suspectPrimary),
        (group.redundant, .redundant, .suspectRedundant)] none

end EwfRecovery

/-! ## The report -/

namespace RecoveryReport

variable (report : RecoveryReport)

def countStatus (status : RecoveryStatus) : RecoveryReport :=
  match status with
  | .primary => { report with chunksPrimary := report.chunksPrimary + 1 }
  | .suspectPrimary => { report with
      chunksPrimary := report.chunksPrimary + 1
      chunksChecksumSuspect := report.chunksChecksumSuspect + 1 }
  | .redundant => { report with chunksRedundant := report.chunksRedundant + 1 }
  | .suspectRedundant => { report with
      chunksRedundant := report.chunksRedundant + 1
      chunksChecksumSuspect := report.chunksChecksumSuspect + 1 }
  | .zeroFilled => { report with chunksZeroFilled := report.chunksZeroFilled + 1 }

def countBytes (status : RecoveryStatus) (size : Nat) : RecoveryReport :=
  if status = .zeroFilled then { report with bytesZeroFilled := report.bytesZeroFilled + size }
  else { report with bytesRecovered := report.bytesRecovered + size }

/-- The chunk extends the last range, starts a new one, or is omitted. -/
def addRecord (maximumRecords id logicalOffset size : Nat) (status : RecoveryStatus) :
    RecoveryReport :=
  match report.ranges.getLast?.filter fun range =>
      range.status = status && range.firstChunk + range.chunkCount = id with
  | some last => { report with ranges := report.ranges.dropLast ++ [{ last with
      chunkCount := last.chunkCount + 1
      byteCount := last.byteCount + size }] }
  | none =>
    if report.ranges.length < maximumRecords then { report with
      ranges := report.ranges ++ [⟨id, 1, logicalOffset, size, status⟩] }
    else { report with omittedChunkRecords := report.omittedChunkRecords + 1 }

/-- What the loop of `recover_with_progress` adds for a chunk. -/
def add (maximumRecords id logicalOffset size : Nat) (status : RecoveryStatus) : RecoveryReport :=
  ((report.countStatus status).countBytes status size).addRecord maximumRecords id logicalOffset
    size status

end RecoveryReport

/-! ## The whole image -/

section Stream

variable {σ : Type} (codec : Codec) (recovery : EwfRecovery)
  (write : Bytes → EStateM EwfError σ Unit) (flush : EStateM EwfError σ Unit)
  (progress : RecoveryProgress → σ → Bool × σ)

/-- `progress(event).is_break()` stops the recovery. -/
def notifyRecovery (event : RecoveryProgress) : EStateM EwfError σ Unit := do
  let stopped ← modifyGet (progress event)
  if stopped then throw .aborted else return ()

/-- One turn of the loop of `recover_with_progress`. -/
def recoverStep (sofar : RecoveryProgress × RecoveryReport) (id : Nat) :
    EStateM EwfError σ (RecoveryProgress × RecoveryReport) := do
  let (event, report) := sofar
  let size := min recovery.chunkSize (recovery.logicalSize - event.bytesWritten)
  let (bytes, status) := recovery.recoverChunk codec id size
  write bytes
  let report := report.add recovery.options.maximumRecords id event.bytesWritten size status
  let event := { event with
    chunksProcessed := event.chunksProcessed + 1
    bytesWritten := event.bytesWritten + size
    lastStatus := some status }
  notifyRecovery progress event
  return (event, report)

def recoverWithProgress : EStateM EwfError σ RecoveryReport := do
  let total ← (match logicalChunkCount recovery.logicalSize recovery.chunkSize with
    | .ok total => return total
    | .error e => throw e)
  let event : RecoveryProgress := ⟨0, total, 0, recovery.logicalSize, none⟩
  notifyRecovery progress event
  let report : RecoveryReport := {
    logicalSize := recovery.logicalSize
    chunksTotal := total
    notices := recovery.notices
    omittedNotices := recovery.omittedNotices }
  let (_, report) ← (List.range total).foldlM (recoverStep codec recovery write progress)
    (event, report)
  flush
  return report

end Stream

/-! ## Sizes -/

theorem length_readCandidate {segments : Nat} {codec : Codec} {source : SegmentFile}
    {candidate : Candidate segments} {localIndex size chunkSize : Nat} {bytes : Bytes}
    {checksumOk : Bool}
    (h : readCandidate codec source candidate localIndex size chunkSize = .ok (bytes, checksumOk)) :
    bytes.length = size := by
  simp only [readCandidate, bind_eq_ok, pure_eq_ok, Except.ok.injEq, Prod.mk.injEq] at h
  obtain ⟨_, _, _, _, _, _, _, _, _, _, _, _, _, _, _, _, data, hdata, rfl, _⟩ := h
  exact length_of_decodeChunk hdata

namespace EwfRecovery

variable {codec : Codec} {recovery : EwfRecovery}

theorem length_chooseCandidate (localIndex size : Nat)
    (candidates : List (Option (Candidate recovery.sources.length) × RecoveryStatus ×
      RecoveryStatus)) (suspect : Option (Bytes × RecoveryStatus))
    (h : ∀ found, suspect = some found → found.1.length = size) :
    (recovery.chooseCandidate codec localIndex size candidates suspect).1.length = size := by
  induction candidates generalizing suspect with
  | nil =>
    unfold chooseCandidate
    cases suspect with
    | none => exact List.length_replicate
    | some found => exact h found rfl
  | cons entry rest ih =>
    obtain ⟨candidate, clean, damaged⟩ := entry
    cases candidate with
    | none => exact ih suspect h
    | some candidate =>
      unfold chooseCandidate
      dsimp only
      split
      · exact ih suspect h
      · rename_i bytes checksumOk hread
        have hlength : bytes.length = size := length_readCandidate hread
        split
        · exact hlength
        · split
          · exact ih _ fun found hfound => by cases hfound; exact hlength
          · exact ih suspect h

/-- A recovered chunk has the size that it is asked for. -/
theorem length_recoverChunk (id size : Nat) :
    (recovery.recoverChunk codec id size).1.length = size := by
  unfold recoverChunk
  dsimp only
  split
  · exact length_chooseCandidate _ _ _ _ fun _ hfound => by cases hfound
  · exact length_chooseCandidate _ _ _ _ fun _ hfound => by cases hfound

end EwfRecovery

end EwfImage.Reading
