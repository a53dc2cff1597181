import EwfImage.Format.Ewf1
import EwfImage.Format.Ewf2
import EwfImage.Image.Sections

/-!
# Sections and table ranges of an EWF2 segment

A segment has its descriptors either ahead of the section data or behind it. The
reader first walks forward through leading descriptors; when the bytes behind the file
header are not one, it walks back from the last descriptor of the file along the
offsets of the previous ones.

What counts as a leading descriptor depends on the strictness: a strict reader asks for a
checksum and a known type, a lenient one for less. An error while walking forward is one of
opening unless it only says that the bytes are no descriptor. Both walks end, since each turn
moves on by the size of a descriptor.
-/

namespace EwfImage

open Fallible Ewf2 LittleEndian Slice Word

/-- Structural validation policy. -/
inductive OpenStrictness
  | strict
  | lenient
  deriving DecidableEq

inductive Ewf2SectionLayout
  | leadingDescriptor
  | trailingDescriptor
  deriving DecidableEq

structure Ewf2Section where
  desc : SectionDescriptor
  dataOffset : Nat
  dataSize : Nat
  layout : Ewf2SectionLayout
  deriving DecidableEq

def isValidEwf2Descriptor (desc : SectionDescriptor) (strictness : OpenStrictness) : Bool :=
  desc.descriptorSize = sectionDescriptorSize && (strictness = .lenient || !desc.sectionType.isUnknown)

def ewf2SectionPaddingSize (desc : SectionDescriptor) : Result Nat := do
  rejectIf (desc.dataSize < desc.paddingSize)
    (.malformed "EWF2 section padding size exceeds data size")
  return desc.paddingSize

def Ewf2.SectionType.name : SectionType → String
  | .deviceInformation => "DeviceInformation"
  | .caseData => "CaseData"
  | .sectorData => "SectorData"
  | .sectorTable => "SectorTable"
  | .errorTable => "ErrorTable"
  | .sessionTable => "SessionTable"
  | .incrementData => "IncrementData"
  | .md5Hash => "Md5Hash"
  | .sha1Hash => "Sha1Hash"
  | .restartData => "RestartData"
  | .encryptionKeys => "EncryptionKeys"
  | .memoryExtentsTable => "MemoryExtentsTable"
  | .next => "Next"
  | .finalInformation => "FinalInformation"
  | .done => "Done"
  | .analyticalData => "AnalyticalData"
  | .singleFilesData => "SingleFilesData"
  | .singleFilesTable => "SingleFilesTable"
  | .singleFilesMd5HashTable => "SingleFilesMd5HashTable"
  | .singleFilesUnknownTable => "SingleFilesUnknownTable"
  | .unknown value => s!"Unknown({value})"

def rejectEncryptedEwf2Section (desc : SectionDescriptor) : Result Unit := do
  rejectIf (desc.sectionType = .encryptionKeys)
    (.unsupported "encrypted EWF2 image with encryption keys section")
  let name := desc.sectionType.name
  rejectIf desc.encrypted (.unsupported s!"encrypted EWF2 {name} section")

section Scan

variable (md5 : Bytes → Bytes) (file : SegmentFile) (strictness : OpenStrictness)

def validateEwf2SectionIntegrityHash (desc : SectionDescriptor) (dataOffset : Nat) :
    Result Unit :=
  if desc.hasIntegrityHash then do
    let data ← file.readExactAt dataOffset desc.dataSize
    rejectIf (md5 data ≠ desc.dataIntegrityHash)
      (.malformed "EWF2 section data integrity hash mismatch")
  else .ok ()

/-! ## Leading descriptors -/

/-- What the reader makes of the bytes at a place for a leading descriptor. -/
inductive LeadingStep
  /-- No descriptor; an error when others came before. -/
  | reject (reason : String)
  | found (entry : Ewf2Section) (next : Nat)

def leadingStep (offset : Nat) : Result LeadingStep :=
  if (checkedAdd offset sectionDescriptorSize).all (file.bytes.length < ·) then
    .ok (.reject "EWF2 leading section descriptor exceeds file")
  else do
    let buf ← file.readExactAt offset sectionDescriptorSize
    match SectionDescriptor.parse buf offset with
    | .error _ => return .reject "EWF2 leading section descriptor is invalid"
    | .ok desc =>
      if isValidEwf2Descriptor desc strictness then do
        Ewf1.validatePresentAdler32Checksum buf 60 60 "EWF2 section descriptor"
        let dataOffset ← okOr (.malformed "EWF2 section data offset overflow")
          (checkedAdd offset desc.descriptorSize)
        let dataEnd ← okOr (.malformed "EWF2 section advance overflow")
          (checkedAdd dataOffset desc.dataSize)
        if file.bytes.length < dataEnd then return .reject "EWF2 section data exceeds file"
        else do
          let paddingSize ← ewf2SectionPaddingSize desc
          let nextOffset ← okOr (.malformed "EWF2 section padding overflow")
            (checkedAdd dataEnd paddingSize)
          rejectIf (file.bytes.length < nextOffset)
            (.malformed "EWF2 section padding exceeds file")
          rejectEncryptedEwf2Section desc
          validateEwf2SectionIntegrityHash md5 file desc dataOffset
          return .found ⟨desc, dataOffset, desc.dataSize, .leadingDescriptor⟩ nextOffset
      else return .reject "EWF2 leading section descriptor is invalid"

theorem leadingStep_found {offset next : Nat} {entry : Ewf2Section}
    (h : leadingStep md5 file strictness offset = .ok (.found entry next)) :
    offset < file.bytes.length ∧ entry.layout = .leadingDescriptor := by
  unfold leadingStep at h
  split at h
  · cases h
  · rename_i hfits
    have hpos : 0 < sectionDescriptorSize := by decide
    have hlt : offset < file.bytes.length := by
      cases hadd : checkedAdd offset sectionDescriptorSize with
      | none => simp [hadd] at hfits
      | some last =>
        obtain ⟨_, rfl⟩ := checkedAdd_eq_some.mp hadd
        simp only [hadd, Option.all_some, decide_eq_true_eq] at hfits
        omega
    refine ⟨hlt, ?_⟩
    obtain ⟨buf, _, h⟩ := bind_eq_ok.mp h
    split at h
    · cases h
    · split at h
      · simp only [bind_eq_ok] at h
        obtain ⟨_, _, _, _, _, _, h⟩ := h
        split at h
        · cases h
        · simp only [bind_eq_ok, pure_eq_ok, Except.ok.injEq, LeadingStep.found.injEq] at h
          obtain ⟨_, _, _, _, _, _, _, _, _, _, rfl, _⟩ := h
          rfl
      · cases h

/-- The loop of `scan_ewf2_leading_sections` from `offset`; the segment does not have the layout
when not even its first descriptor is one. -/
def scanEwf2LeadingFrom (offset : Nat) (isFirst : Bool) : Result (Option (List Ewf2Section)) :=
  match _hstep : leadingStep md5 file strictness offset with
  | .error e => .error e
  | .ok (.reject reason) => if isFirst then .ok none else .error (.malformed reason)
  | .ok (.found entry next) =>
    if entry.desc.sectionType.isTerminal then .ok (some [entry])
    else if _hnext : next ≤ offset then
      .error (.malformed "EWF2 leading section chain does not advance")
    else (scanEwf2LeadingFrom next false).map (·.map (entry :: ·))
termination_by file.bytes.length - offset
decreasing_by
  have hlt := (leadingStep_found md5 file strictness _hstep).1
  omega

/-- A leading section that is not the last one is followed by what is scanned behind it. -/
theorem scanEwf2LeadingFrom_found {offset next : Nat} {entry : Ewf2Section} (isFirst : Bool)
    (hstep : leadingStep md5 file strictness offset = .ok (.found entry next))
    (hterminal : entry.desc.sectionType.isTerminal = false) (hnext : offset < next) :
    scanEwf2LeadingFrom md5 file strictness offset isFirst =
      (scanEwf2LeadingFrom md5 file strictness next false).map (·.map (entry :: ·)) := by
  rw [scanEwf2LeadingFrom, hstep]
  dsimp only
  rw [hterminal, if_neg Bool.false_ne_true, dif_neg (by omega)]

def scanEwf2LeadingSections : Result (Option (List Ewf2Section)) :=
  scanEwf2LeadingFrom md5 file strictness fileHeaderSize true

/-! ## Trailing descriptors -/

/-- The section whose trailing descriptor is at `offset`. -/
def readEwf2TrailingSection (offset : Nat) : Result Ewf2Section := do
  let buf ← file.readExactAt offset sectionDescriptorSize
  let desc ← SectionDescriptor.parse buf offset
  rejectIf (¬ isValidEwf2Descriptor desc strictness)
    (.malformed "EWF2 trailing section descriptor is invalid")
  Ewf1.validatePresentAdler32Checksum buf 60 60 "EWF2 section descriptor"
  let _ ← ewf2SectionPaddingSize desc
  let dataOffset ← (if desc.previousOffset = 0 then .ok fileHeaderSize
    else okOr (.malformed "EWF2 previous section offset overflow")
      (checkedAdd desc.previousOffset sectionDescriptorSize))
  rejectIf (dataOffset < fileHeaderSize)
    (.malformed "EWF2 trailing section data precedes file header")
  let dataEnd ← okOr (.malformed "EWF2 trailing section data overflow")
    (checkedAdd dataOffset desc.dataSize)
  rejectIf (offset < dataEnd) (.malformed "EWF2 trailing section data exceeds descriptor")
  (if desc.previousOffset ≠ 0 then do
    rejectIf (desc.offset ≤ desc.previousOffset)
      (.malformed "EWF2 previous section offset is not before current section")
    let previousEnd ← okOr (.malformed "EWF2 previous section offset overflow")
      (checkedAdd desc.previousOffset sectionDescriptorSize)
    rejectIf (offset < previousEnd)
      (.malformed "EWF2 previous section overlaps current section descriptor")
  else .ok ())
  rejectEncryptedEwf2Section desc
  validateEwf2SectionIntegrityHash md5 file desc dataOffset
  return ⟨desc, dataOffset, desc.dataSize, .trailingDescriptor⟩

/-- The loop of `scan_ewf2_trailing_sections` with the sections behind `offset` found. -/
def scanEwf2TrailingFrom : Nat → Nat → List Ewf2Section → Result (List Ewf2Section)
  | 0, _, _ => .error (.malformed "EWF2 trailing section descriptor chain is too long")
  | left + 1, offset, found => do
    let entry ← readEwf2TrailingSection md5 file strictness offset
    if entry.desc.previousOffset = 0 then return entry :: found
    else scanEwf2TrailingFrom left entry.desc.previousOffset (entry :: found)

def scanEwf2TrailingSections : Result (List Ewf2Section) := do
  let offset ← okOr (.malformed "EWF2 file is too short")
    (checkedSub file.bytes.length sectionDescriptorSize)
  let maxSections := (file.bytes.length - fileHeaderSize) / sectionDescriptorSize + 1
  scanEwf2TrailingFrom md5 file strictness maxSections offset []

def scanEwf2Sections : Result (List Ewf2Section) := do
  rejectIf (file.bytes.length < fileHeaderSize + sectionDescriptorSize)
    (.malformed "EWF2 file is too short")
  match ← scanEwf2LeadingSections md5 file strictness with
  | some sections => return sections
  | none => scanEwf2TrailingSections md5 file strictness

end Scan

/-! ## Table ranges -/

/-- The range of a sector table; a table without entries has none. -/
def ewf2TableRange (file : SegmentFile) (segmentIndex : Nat) (method : Ewf2.CompressionMethod)
    (table : Ewf2Section) : Result (Option TableRange) := do
  let minimumTableHeaderSize := match table.layout with
    | .leadingDescriptor => tableHeaderSize
    | .trailingDescriptor => tableHeaderV2Size
  rejectIf (table.dataSize < minimumTableHeaderSize)
    (.malformed "EWF2 sector table is too short")
  let headerReadSize := if tableHeaderV2Size ≤ table.dataSize then tableHeaderV2Size
    else minimumTableHeaderSize
  let data ← file.readExactAt table.dataOffset headerReadSize
  Ewf1.validatePresentAdler32Checksum data 16 16 "EWF2 table header"
  let header ← TableHeader.parse (data.take tableHeaderSize)
  if header.entryCount = 0 then return none
  else do
    let entriesBytes ← okOr (.malformed "EWF2 table entry bytes overflow")
      (checkedMul header.entryCount tableEntrySize)
    let tableHeaderAndPaddingSize ← (match table.layout with
      | .trailingDescriptor => .ok tableHeaderV2Size
      | .leadingDescriptor => (okOr (.malformed "EWF2 table size overflow")
          (checkedAdd tableHeaderV2Size entriesBytes)).map fun fullSize =>
            if fullSize ≤ table.dataSize then tableHeaderV2Size else tableHeaderSize)
    let entriesOffset ← okOr (.malformed "EWF2 table entry offset overflow")
      (checkedAdd table.dataOffset tableHeaderAndPaddingSize)
    let entriesEnd ← okOr (.malformed "EWF2 table entry range overflow")
      (checkedAdd entriesOffset entriesBytes)
    let sectionEnd ← okOr (.malformed "EWF2 table section range overflow")
      (checkedAdd table.dataOffset table.dataSize)
    rejectIf (sectionEnd < entriesEnd) (.malformed "EWF2 table entries exceed section")
    (if (checkedAdd entriesEnd tableFooterSize).any (· ≤ sectionEnd) then
      validatePresentTableEntriesChecksum file entriesOffset entriesBytes entriesEnd
        "EWF2 table entries"
    else .ok ())
    return some {
      kind := .ewf2
      segmentIndex
      firstChunk := header.firstChunk
      chunkCount := header.entryCount
      entriesOffset
      baseOffset := 0
      dataEnd := none
      ewf1AllowLargeCompressedChunks := false
      ewf1CompressionMethod := none
      ewf2CompressionMethod := some method.toU16 }

/-- The loop of `parse_ewf2_ranges` over the sector tables. -/
def parseEwf2RangesFrom (file : SegmentFile) (segmentIndex : Nat) (method : Ewf2.CompressionMethod) :
    List Ewf2Section → Result (List TableRange)
  | [] => .ok []
  | table :: tables => do
    let range ← ewf2TableRange file segmentIndex method table
    let ranges ← parseEwf2RangesFrom file segmentIndex method tables
    return range.toList ++ ranges

def parseEwf2Ranges (file : SegmentFile) (sections : List Ewf2Section)
    (segmentIndex logicalSize : Nat) (method : Ewf2.CompressionMethod) : Result (List TableRange) := do
  let ranges ← parseEwf2RangesFrom file segmentIndex method
    (sections.filter (·.desc.sectionType = .sectorTable))
  rejectIf (ranges = [] ∧ 0 < logicalSize) (.malformed "EWF2 image has no sector table")
  return ranges

end EwfImage
