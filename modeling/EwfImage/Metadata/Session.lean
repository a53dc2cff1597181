import EwfImage.Checksum
import EwfImage.Error
import EwfImage.Types
import EwfImage.Lib.Slice
import EwfImage.Lib.Word

/-!
# Session sections

Sessions and tracks share one list of start sectors; a flag marks the entries of audio
tracks. Only starts are stored, so the reader takes the end of a session or track from
the entries behind it.

The entries of audio tracks and those of sessions stand in one list by their starts. A payload
without a session stands for one session over the whole media. The validation of the writer is
here as well, with the text of each error.
-/

namespace EwfImage

open Fallible LittleEndian Slice Word

def audioTrackFlag : Nat := 0x01

structure SessionEntry where
  startSector : Nat
  flags : Nat
  deriving DecidableEq

def SessionEntry.isAudio (entry : SessionEntry) : Bool := entry.flags &&& audioTrackFlag ≠ 0

structure SessionLayout where
  headerSize : Nat
  checksumOffset : Nat
  checksumDataSize : Nat
  footerSize : Nat

def sessionLayout (formatVersion : UInt8) : Option SessionLayout :=
  if formatVersion = 1 then some ⟨36, 32, 32, 4⟩
  else if formatVersion = 2 then some ⟨32, 16, 16, 16⟩
  else none

def sessionEntrySize : Nat := 32

/-! ## Writing -/

def sessionEntryLe (left right : SessionEntry) : Bool :=
  left.startSector < right.startSector ||
    left.startSector = right.startSector &&
      left.flags &&& audioTrackFlag ≤ right.flags &&& audioTrackFlag

def sessionEntry (range : SectorRange) : SessionEntry := ⟨range.firstSector, 0⟩

def trackEntry (range : SectorRange) : SessionEntry := ⟨range.firstSector, audioTrackFlag⟩

/-- Sessions and tracks by start sector, a session ahead of the track that starts with it. -/
def sessionEntries (sessions tracks : List SectorRange) : List SessionEntry :=
  (sessions.map sessionEntry ++ tracks.map trackEntry).mergeSort sessionEntryLe

def sessionEntryBytes (formatVersion : UInt8) (entry : SessionEntry) : Result Bytes :=
  if formatVersion = 1 then do
    rejectIf (u32Limit ≤ entry.startSector)
      (.unsupported "EWF1 writer session start sector exceeds u32")
    return toLE 4 entry.flags ++ (toLE 4 entry.startSector ++ List.replicate 24 0)
  else return toLE 8 entry.startSector ++ (toLE 4 entry.flags ++ List.replicate 20 0)

def sessionEntriesBytes (formatVersion : UInt8) : List SessionEntry → Result Bytes
  | [] => .ok []
  | entry :: entries => do
    let bytes ← sessionEntryBytes formatVersion entry
    let rest ← sessionEntriesBytes formatVersion entries
    return bytes ++ rest

/-- The part of the header that its checksum is about, up to the checksum. -/
def sessionHeaderBody (layout : SessionLayout) (entryCount : Nat) : Bytes :=
  toLE 4 entryCount ++ List.replicate (layout.checksumOffset - 4) 0

def sessionHeader (layout : SessionLayout) (entryCount : Nat) : Bytes :=
  sessionHeaderBody layout entryCount ++
    toLE 4 (adler32 ((sessionHeaderBody layout entryCount).take layout.checksumDataSize)) ++
    List.replicate (layout.headerSize - (layout.checksumOffset + 4)) 0

/-- `session_payload`. A version that no format has, for which the source panics, is not
accepted. -/
def sessionPayload (formatVersion : UInt8) (sessions tracks : List SectorRange) :
    Result (Option Bytes) :=
  if sessions = [] ∧ tracks = [] then .ok none
  else do
    let entries := sessionEntries sessions tracks
    rejectIf (u32Limit ≤ entries.length) (.unsupported "writer session entry count exceeds u32")
    let layout ← okOr .aborted (sessionLayout formatVersion)
    let entriesBytes ← sessionEntriesBytes formatVersion entries
    return some (sessionHeader layout entries.length ++ entriesBytes ++
      toLE 4 (adler32 entriesBytes) ++ List.replicate (layout.footerSize - 4) 0)

/-! ## Reading -/

structure SessionRanges where
  sessions : List SectorRange := []
  tracks : List SectorRange := []
  deriving DecidableEq

def readSessionEntry (formatVersion : UInt8) (data : Bytes) (offset : Nat) : SessionEntry :=
  if formatVersion = 1 then ⟨leAt data (offset + 4) 4, leAt data offset 4⟩
  else ⟨leAt data offset 8, leAt data (offset + 8) 4⟩

/-- The entries from `offset` on. -/
def readSessionEntries (formatVersion : UInt8) (data : Bytes) : Nat → Nat → List SessionEntry
  | 0, _ => []
  | count + 1, offset => readSessionEntry formatVersion data offset ::
      readSessionEntries formatVersion data count (offset + sessionEntrySize)

/-- The variables of the loop over the entries. -/
structure SessionScan where
  ranges : SessionRanges := {}
  sessionStartSector : Nat := 0
  trackStartSector : Nat := 0
  previousStartSector : Nat
  previousIsAudio : Bool
  currentIsAudio : Bool := false

/-- A session ends where the next one starts, a track at the entry behind it. -/
def SessionScan.step (scan : SessionScan) (entry : SessionEntry) : SessionScan where
  ranges := {
    sessions := if entry.isAudio then scan.ranges.sessions
      else scan.ranges.sessions ++
        [⟨scan.sessionStartSector, entry.startSector - scan.sessionStartSector⟩]
    tracks := if scan.previousIsAudio then scan.ranges.tracks ++
        [⟨scan.trackStartSector, entry.startSector - scan.trackStartSector⟩]
      else scan.ranges.tracks }
  sessionStartSector := if entry.isAudio then scan.sessionStartSector else entry.startSector
  trackStartSector := if scan.previousIsAudio then entry.startSector else scan.trackStartSector
  previousStartSector := entry.startSector
  previousIsAudio := entry.isAudio
  currentIsAudio := entry.isAudio

def scanSessionEntries : SessionScan → List SessionEntry → Result SessionScan
  | scan, [] => .ok scan
  | scan, entry :: entries => do
    rejectIf (entry.startSector < scan.previousStartSector)
      (.malformed "session start sector moves backwards")
    scanSessionEntries (scan.step entry) entries

/-- The open session and the open track end with the media. -/
def SessionScan.finish (scan : SessionScan) (mediaSectorCount : Nat) : SessionRanges where
  sessions := scan.ranges.sessions ++
    [⟨scan.sessionStartSector, mediaSectorCount - scan.sessionStartSector⟩]
  tracks := if scan.currentIsAudio then scan.ranges.tracks ++
      [⟨scan.trackStartSector, mediaSectorCount - scan.trackStartSector⟩]
    else scan.ranges.tracks

def sessionRanges (entries : List SessionEntry) (mediaSectorCount : Nat) : Result SessionRanges :=
  match entries with
  | [] => .ok {}
  | entry :: entries => do
    let scan ← scanSessionEntries
      { previousStartSector := entry.startSector, previousIsAudio := entry.isAudio } entries
    return scan.finish mediaSectorCount

def parseSessionData (data : Bytes) (formatVersion : UInt8) (mediaSectorCount : Nat) :
    Result SessionRanges := do
  let layout ← okOr (.malformed "unsupported session section format version")
    (sessionLayout formatVersion)
  rejectIf (data.length < layout.headerSize) (.malformed "session section is too short")
  rejectIf (leAt data layout.checksumOffset 4 ≠ adler32 (data.take layout.checksumDataSize))
    (.malformed "session header checksum mismatch")
  let entryCount := leAt data 0 4
  if entryCount = 0 then return {}
  else do
    let entriesSize ← okOr (.malformed "session entries size overflow")
      (checkedMul entryCount sessionEntrySize)
    let entriesEnd ← okOr (.malformed "session entries end overflow")
      (checkedAdd layout.headerSize entriesSize)
    let requiredSize ← okOr (.malformed "session section size overflow")
      (checkedAdd entriesEnd layout.footerSize)
    rejectIf (data.length < requiredSize) (.malformed "session entries exceed section size")
    rejectIf (leAt data entriesEnd 4 ≠ adler32 (slice data layout.headerSize entriesSize))
      (.malformed "session entries checksum mismatch")
    sessionRanges (readSessionEntries formatVersion data entryCount layout.headerSize)
      mediaSectorCount

end EwfImage
