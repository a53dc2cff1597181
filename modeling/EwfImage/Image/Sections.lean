import EwfImage.Format.Ewf1
import EwfImage.Lib.Fallible

/-!
# Sections and table ranges of an EWF1 segment

A segment is a file header and a chain of sections, each with a descriptor that
links to the next one. The chunk tables among them become table ranges; the reader
looks up a chunk in its range when it needs it.

A file carries that its length is a 64-bit word. Two sections of one chain cannot overlap, as
each next offset is checked against the end of the data; the chain ends because it has to
advance. Chunks that lie in the table section itself, behind its entries, are found as well.
-/

namespace EwfImage

open Fallible Ewf1 LittleEndian Slice Word

/-- A segment file, which is its bytes; the length of a file is a `u64`. -/
structure SegmentFile where
  bytes : Bytes
  length_lt : bytes.length < u64Limit

/-- `read_exact_at`; a read of nothing succeeds anywhere. -/
def SegmentFile.readExactAt (file : SegmentFile) (offset size : Nat) : Result Bytes :=
  if size = 0 ∨ offset + size ≤ file.bytes.length then .ok (slice file.bytes offset size)
  else .error (.io .unexpectedEof)

theorem readExactAt_of_le {file : SegmentFile} {offset size : Nat}
    (h : offset + size ≤ file.bytes.length) :
    file.readExactAt offset size = .ok (slice file.bytes offset size) :=
  if_pos (.inr h)

/-! ## The section chain -/

/-- `Section`. -/
structure Ewf1Section where
  desc : SectionDescriptor
  dataOffset : Nat
  dataSize : Nat
  deriving DecidableEq

/-- One descriptor of the chain, with the range of its data. -/
def readEwf1Section (file : SegmentFile) (offset : Nat) : Result Ewf1Section := do
  let descriptorEnd ← okOr (.malformed "EWF1 section descriptor overflow")
    (checkedAdd offset sectionDescriptorSize)
  rejectIf (file.bytes.length < descriptorEnd) (.malformed "EWF1 section descriptor exceeds file")
  let buf ← file.readExactAt offset sectionDescriptorSize
  validatePresentAdler32Checksum buf 72 72 "EWF1 section descriptor"
  let desc ← SectionDescriptor.parse buf offset
  let dataSize ← desc.dataSize
  let dataEnd ← okOr (.malformed "EWF1 section data exceeds file")
    (checkedAdd descriptorEnd dataSize)
  rejectIf (file.bytes.length < dataEnd) (.malformed "EWF1 section data exceeds file")
  return { desc, dataOffset := descriptorEnd, dataSize }

theorem readEwf1Section_fits {file : SegmentFile} {offset : Nat} {found : Ewf1Section}
    (h : readEwf1Section file offset = .ok found) : offset < file.bytes.length := by
  simp only [readEwf1Section, bind_eq_ok, okOr_eq_ok, checkedAdd_eq_some, rejectIf_eq_ok] at h
  obtain ⟨descriptorEnd, ⟨-, rfl⟩, -, hle, -⟩ := h
  have hsize : 0 < sectionDescriptorSize := by decide
  omega

/-- The loop of `scan_ewf1_sections` from the descriptor at `offset`. -/
def scanEwf1SectionsFrom (file : SegmentFile) (offset : Nat) : Result (List Ewf1Section) :=
  match _hread : readEwf1Section file offset with
  | .error e => .error e
  | .ok found =>
    let next := found.desc.next
    if found.desc.isTerminal ∨ next = 0 then .ok [found]
    else if _hnext : next ≤ offset then
      .error (.malformed "EWF1 section chain does not advance")
    else if next < found.dataOffset + found.dataSize then
      .error (.malformed "EWF1 next section offset overlaps current section")
    else (scanEwf1SectionsFrom file next).map (found :: ·)
termination_by file.bytes.length - offset
decreasing_by
  have hlt := readEwf1Section_fits _hread
  omega

def scanEwf1Sections (file : SegmentFile) : Result (List Ewf1Section) :=
  scanEwf1SectionsFrom file fileHeaderSize

/-! ## Table ranges -/

inductive TableRangeKind
  | ewf1
  | ewf2
  deriving DecidableEq

structure TableRange where
  kind : TableRangeKind
  segmentIndex : Nat
  firstChunk : Nat
  chunkCount : Nat
  entriesOffset : Nat
  baseOffset : Nat
  dataEnd : Option Nat
  ewf1AllowLargeCompressedChunks : Bool
  ewf1CompressionMethod : Option CompressionMethod
  ewf2CompressionMethod : Option UInt16
  deriving DecidableEq

structure Ewf1RangeProfile where
  allowLargeCompressedChunks : Bool
  compressionMethod : CompressionMethod

def sectorsSectionContainsOffset (sectors : Ewf1Section) (offset : Nat) : Bool :=
  (checkedAdd sectors.dataOffset sectors.dataSize).any fun dataEnd =>
    sectors.dataOffset ≤ offset && offset ≤ dataEnd

def matchingSectorsSection (sections : List Ewf1Section) (baseOffset : Nat) : Option Ewf1Section :=
  (sections.filter (·.desc.sectionType = ascii "sectors")).find? fun sectors =>
    baseOffset = sectors.desc.offset || sectorsSectionContainsOffset sectors baseOffset

def sectorsSectionContainingOffset (sections : List Ewf1Section) (offset : Nat) :
    Option Ewf1Section :=
  (sections.filter (·.desc.sectionType = ascii "sectors")).find?
    (sectorsSectionContainsOffset · offset)

def validatePresentTableEntriesChecksum (file : SegmentFile)
    (entriesOffset entryBytes checksumOffset : Nat) (label : String) : Result Unit := do
  let checksum ← file.readExactAt checksumOffset 4
  let stored := fromLE checksum
  if stored = 0 then .ok ()
  else do
    let entries ← file.readExactAt entriesOffset entryBytes
    validateAdler32ChecksumValue stored entries label

theorem validatePresentTableEntriesChecksum_of_slice {file : SegmentFile} {entries : Bytes}
    {start : Nat} (label : String) (hfits : start + entries.length + 4 ≤ file.bytes.length)
    (hentries : slice file.bytes start entries.length = entries)
    (hchecksum : slice file.bytes (start + entries.length) 4 = toLE 4 (adler32 entries)) :
    validatePresentTableEntriesChecksum file start entries.length (start + entries.length) label =
      .ok () := by
  unfold validatePresentTableEntriesChecksum
  rw [readExactAt_of_le (by omega), ok_bind, hchecksum, fromLE_toLE_of_lt (adler32_lt entries)]
  by_cases hzero : adler32 entries = 0
  · simp [hzero]
  · simp only [hzero, if_false]
    rw [readExactAt_of_le (by omega), ok_bind, hentries, validateAdler32ChecksumValue,
      rejectIf_neg _ (by simp)]

/-- Entries with their checksum behind them pass. -/
theorem validatePresentTableEntriesChecksum_of_bytes {file : SegmentFile}
    (pre entries post : Bytes) (label : String)
    (hfile : file.bytes = pre ++ (entries ++ (toLE 4 (adler32 entries) ++ post))) :
    validatePresentTableEntriesChecksum file pre.length entries.length
      (pre.length + entries.length) label = .ok () := by
  have hlength : file.bytes.length = pre.length + (entries.length + (4 + post.length)) := by
    rw [hfile]
    simp
  have hentries : slice file.bytes pre.length entries.length = entries := by
    have hmiddle := slice_append_middle pre entries (toLE 4 (adler32 entries) ++ post)
    rw [hfile, ← List.append_assoc]
    exact hmiddle
  have hchecksum : slice file.bytes (pre.length + entries.length) 4 = toLE 4 (adler32 entries) := by
    have hmiddle := slice_append_middle (pre ++ entries) (toLE 4 (adler32 entries)) post
    rw [length_toLE, List.length_append] at hmiddle
    rw [hfile, ← List.append_assoc, ← List.append_assoc]
    exact hmiddle
  exact validatePresentTableEntriesChecksum_of_slice label (by omega) hentries hchecksum

/-- The count and the base offset in the header of a table section. -/
def readEwf1TableHeader (file : SegmentFile) (table : Ewf1Section) : Result (Nat × Nat) := do
  rejectIf (table.dataSize < 24) (.malformed "EWF1 table section is too short")
  let data ← file.readExactAt table.dataOffset 24
  validatePresentAdler32Checksum data 20 20 "EWF1 table header"
  return (leAt data 0 4, leAt data 8 8)

/-- The range of a table section with `entryCount` entries. -/
def ewf1TableRange (file : SegmentFile) (sections : List Ewf1Section) (segmentIndex nextChunk : Nat)
    (profile : Ewf1RangeProfile) (table : Ewf1Section) (entryCount baseOffset : Nat) :
    Result TableRange := do
  let entryBytes ← okOr (.malformed "EWF1 table entry bytes overflow") (checkedMul entryCount 4)
  let entriesOffset ← okOr (.malformed "EWF1 table entry offset overflow")
    (checkedAdd table.dataOffset 24)
  let entriesEnd ← okOr (.malformed "EWF1 table entry range overflow")
    (checkedAdd entriesOffset entryBytes)
  let sectionEnd ← okOr (.malformed "EWF1 table section range overflow")
    (checkedAdd table.dataOffset table.dataSize)
  rejectIf (sectionEnd < entriesEnd) (.malformed "EWF1 table entries exceed section")
  let firstEntryOffset ← (if baseOffset = 0 then
      (file.readExactAt entriesOffset 4).map fun raw => some (fromLE raw &&& 0x7fffffff)
    else .ok none)
  -- Chunk data directly behind the entries leaves no room for their checksum.
  let resident := firstEntryOffset == some entriesEnd
  (if entriesEnd + 4 ≤ sectionEnd ∧ ¬ resident then
    validatePresentTableEntriesChecksum file entriesOffset entryBytes entriesEnd
      "EWF1 table entries"
  else .ok ())
  let (dataBase, dataEnd) ← (match (matchingSectorsSection sections baseOffset).or
      (firstEntryOffset.bind (sectorsSectionContainingOffset sections)) with
    | some sectors => (okOr (.malformed "EWF1 sectors range overflow")
        (checkedAdd sectors.dataOffset sectors.dataSize)).map fun dataEnd => (baseOffset, dataEnd)
    | none => do
      let residentDataStart ← (if resident then .ok entriesEnd
        else okOr (.malformed "EWF1 table-resident data offset overflow")
          (checkedAdd entriesEnd 4))
      rejectIf (sectionEnd < residentDataStart)
        (.malformed "EWF1 table-resident data starts beyond table section")
      return (0, sectionEnd))
  return {
    kind := .ewf1
    segmentIndex
    firstChunk := nextChunk
    chunkCount := entryCount
    entriesOffset
    baseOffset := dataBase
    dataEnd := some dataEnd
    ewf1AllowLargeCompressedChunks := profile.allowLargeCompressedChunks
    ewf1CompressionMethod := some profile.compressionMethod
    ewf2CompressionMethod := none }

def isTableSection (candidate : Ewf1Section) : Bool :=
  candidate.desc.sectionType = ascii "table" || candidate.desc.sectionType = ascii "table2"

/-- The loop of `parse_ewf1_ranges` over the table sections. A `table2` with the count and the
base offset of the `table` before it is its copy. -/
def parseEwf1RangesFrom (file : SegmentFile) (sections : List Ewf1Section) (segmentIndex : Nat)
    (profile : Ewf1RangeProfile) :
    List Ewf1Section → Nat → Option (Bool × Nat × Nat) → Result (List TableRange)
  | [], _, _ => .ok []
  | table :: tables, nextChunk, previousTable => do
    let (entryCount, baseOffset) ← readEwf1TableHeader file table
    if entryCount = 0 ∨ (table.desc.sectionType = ascii "table2" ∧
        previousTable = some (true, entryCount, baseOffset)) then
      parseEwf1RangesFrom file sections segmentIndex profile tables nextChunk previousTable
    else do
      let range ← ewf1TableRange file sections segmentIndex nextChunk profile table entryCount
        baseOffset
      let nextChunk ← okOr (.malformed "EWF1 table chunk count overflow")
        (checkedAdd nextChunk entryCount)
      let ranges ← parseEwf1RangesFrom file sections segmentIndex profile tables nextChunk
        (some (table.desc.sectionType = ascii "table", entryCount, baseOffset))
      return range :: ranges

def parseEwf1Ranges (file : SegmentFile) (sections : List Ewf1Section)
    (segmentIndex firstChunk logicalSize : Nat) (profile : Ewf1RangeProfile) :
    Result (List TableRange) := do
  let ranges ← parseEwf1RangesFrom file sections segmentIndex profile
    (sections.filter isTableSection) firstChunk none
  rejectIf (ranges = [] ∧ 0 < logicalSize) (.malformed "EWF1 table coverage is missing")
  return ranges

end EwfImage
