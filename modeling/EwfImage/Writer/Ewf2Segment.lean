import EwfImage.Format.Ewf2
import EwfImage.Writer.SegmentOutput

/-!
# Writing an EWF2 segment

Every section is its data with a descriptor behind it that holds the offset of the
descriptor before. All places are planned before anything is written. The texts and
tables of the metadata sections are parameters; their compression is not, since the
reader looks at the first bytes of a segment.

The plan and the writing are separate passes over the same list of payloads, as in the source,
and the cursor of the writing is checked against the plan. The digest of a section is a
parameter; a section without one has zeros in its place.
-/

namespace EwfImage

open Fallible Ewf2 LittleEndian Word

def TerminalSection.ewf2Type : TerminalSection → Ewf2.SectionType
  | .done => .done
  | .next => .next

structure Ewf2SegmentWriteContext where
  segmentNumber : UInt32
  firstChunk : UInt64
  totalChunkCount : UInt32
  sectorCount : Nat
  terminalSection : TerminalSection

/-- The payloads of the metadata sections, before compression where the section is compressed. -/
structure Ewf2PayloadEncoders where
  deviceInformation : WriteOptions → Nat → Nat → Bytes
  caseData : WriteOptions → Nat → Bytes
  errorTable : List AcquisitionError → Result (Option Bytes)
  sessionTable : List SectorRange → List SectorRange → Result (Option Bytes)
  memoryExtentsTable : List MemoryExtent → Option Bytes
  singleFilesData : Bytes → Result Bytes
  singleFilesTable0x21 : WriteOptions → Option Bytes
  singleFilesMd5HashTable : WriteOptions → Option Bytes
  singleFilesTable0x23 : WriteOptions → Option Bytes
  hash : Bytes → Bytes
  utf16leWithBom : String → Bytes

/-! ## Compressed metadata -/

def ewf2MetadataSectionPayload (codec : Codec) (payload : Bytes) (compression : WriteCompression)
    (level : WriteCompressionLevel) : Result Bytes :=
  match compression with
  | .none | .zlib => .ok (codec.zlibEncode level payload)
  | .bzip2 => do
    let level ← bzip2Compression level
    return codec.bzip2Encode level payload

/-- The device information is a zlib stream also in a BZip2 image. -/
def ewf2DeviceInformationSectionPayload (codec : Codec) (payload : Bytes)
    (options : WriteOptions) : Result Bytes :=
  let compression := if options.compression = .bzip2 then .zlib else options.compression
  ewf2MetadataSectionPayload codec payload compression options.compressionValues.level

def ewf2StringSectionPayload (codec : Codec) (encoders : Ewf2PayloadEncoders) (text : String)
    (options : WriteOptions) : Result Bytes :=
  ewf2MetadataSectionPayload codec (encoders.utf16leWithBom text) options.compression
    options.compressionValues.level

/-! ## Planned sections -/

/-- A section with its data and the name it has in errors. -/
structure Ewf2Payload where
  sectionType : Ewf2.SectionType
  label : String
  data : Bytes

structure Ewf2SectionPlan where
  dataOffset : Nat
  previousDescOffset : Nat
  deriving DecidableEq

/-- The cursor of the plan: where the next section starts and the last descriptor. -/
structure Ewf2PlanState where
  currentOffset : Nat := fileHeaderSize
  previousDescOffset : Nat := 0
  deriving DecidableEq

def writerCheckedAdd (left right : Nat) (label : String) : Result Nat :=
  okOr (.malformed s!"writer {label} offset overflow") (checkedAdd left right)

def planEwf2Section (state : Ewf2PlanState) (dataSize : Nat) (label : String) :
    Result (Ewf2SectionPlan × Ewf2PlanState) := do
  let dataOffset := state.currentOffset
  let descOffset ← writerCheckedAdd dataOffset dataSize label
  let currentOffset ← writerCheckedAdd descOffset sectionDescriptorSize "EWF2 next section"
  return (⟨dataOffset, state.previousDescOffset⟩, ⟨currentOffset, descOffset⟩)

def planEwf2Sections : List Ewf2Payload → Ewf2PlanState →
    Result (List Ewf2SectionPlan × Ewf2PlanState)
  | [], state => .ok ([], state)
  | entry :: entries, state => do
    let (plan, state) ← planEwf2Section state entry.data.length entry.label
    let (plans, state) ← planEwf2Sections entries state
    return (plan :: plans, state)

def writeEwf2Section (sectionType : Ewf2.SectionType) (payload : Bytes) (plan : Ewf2SectionPlan)
    (out : SegmentOutput Ewf2.SectionType) : SegmentOutput Ewf2.SectionType :=
  (out.writeAll payload).writeDescriptor sectionType
    (sectionDesc sectionType payload.length plan.previousDescOffset)

def writeEwf2Sections (out : SegmentOutput Ewf2.SectionType)
    (sections : List (Ewf2Payload × Ewf2SectionPlan)) : SegmentOutput Ewf2.SectionType :=
  sections.foldl (fun out (entry, plan) => writeEwf2Section entry.sectionType entry.data plan out) out

def optionalPayload (sectionType : Ewf2.SectionType) (label : String) (data : Option Bytes) :
    List Ewf2Payload :=
  data.toList.map (⟨sectionType, label, ·⟩)

/-- The sections ahead of the sector data. -/
def ewf2FrontSections (codec : Codec) (encoders : Ewf2PayloadEncoders) (options : WriteOptions)
    (context : Ewf2SegmentWriteContext) : Result (List Ewf2Payload) := do
  let chunkCount := context.totalChunkCount.toNat
  let isFirst := context.segmentNumber = 1
  let isDone := context.terminalSection = .done
  let deviceInformation ← ewf2DeviceInformationSectionPayload codec
    (encoders.deviceInformation options context.sectorCount chunkCount) options
  let caseData ← ewf2MetadataSectionPayload codec (encoders.caseData options chunkCount)
    options.compression options.compressionValues.level
  let errorTable ← (if isFirst then encoders.errorTable options.acquisitionErrors else .ok none)
  let sessionTable ← (if isFirst then encoders.sessionTable options.sessions options.tracks
    else .ok none)
  let memoryExtentsTable := if isFirst then encoders.memoryExtentsTable options.memoryExtents
    else none
  let incrementData := if isFirst then options.ewf2IncrementData else []
  let singleFilesData ← (match options.singleFiles with
    | some catalog => if isDone then (encoders.singleFilesData catalog).map some else .ok none
    | none => .ok none)
  let doneOnly (table : Option Bytes) : Option Bytes := if isDone then table else none
  return [⟨.deviceInformation, "EWF2 device information", deviceInformation⟩,
      ⟨.caseData, "EWF2 case data", caseData⟩] ++
    optionalPayload .errorTable "EWF2 error table" errorTable ++
    optionalPayload .sessionTable "EWF2 session table" sessionTable ++
    optionalPayload .memoryExtentsTable "EWF2 memory extents table" memoryExtentsTable ++
    incrementData.map (⟨.incrementData, "EWF2 increment data", ·⟩) ++
    optionalPayload .singleFilesData "EWF2 single files data" singleFilesData ++
    optionalPayload .singleFilesTable "EWF2 single files 0x21 table"
      (doneOnly (encoders.singleFilesTable0x21 options)) ++
    optionalPayload .singleFilesMd5HashTable "EWF2 single files MD5 hash table"
      (doneOnly (encoders.singleFilesMd5HashTable options)) ++
    optionalPayload .singleFilesUnknownTable "EWF2 single files 0x23 table"
      (doneOnly (encoders.singleFilesTable0x23 options))

/-- The sections behind the sector table; only the last segment has any. -/
def ewf2BackSections (codec : Codec) (encoders : Ewf2PayloadEncoders) (options : WriteOptions)
    (context : Ewf2SegmentWriteContext) : Result (List Ewf2Payload) :=
  if context.terminalSection = .done then do
    let text (data : Option String) : Result (Option Bytes) := match data with
      | some data => (ewf2StringSectionPayload codec encoders data options).map some
      | none => .ok none
    let analyticalData ← text options.ewf2AnalyticalData
    let restartData ← text options.ewf2RestartData
    return optionalPayload .md5Hash "EWF2 MD5 hash" (options.hashes.md5.map encoders.hash) ++
      optionalPayload .sha1Hash "EWF2 SHA1 hash" (options.hashes.sha1.map encoders.hash) ++
      optionalPayload .finalInformation "EWF2 final information" options.ewf2FinalInformation ++
      optionalPayload .analyticalData "EWF2 analytical data" analyticalData ++
      optionalPayload .restartData "EWF2 restart data" restartData
  else .ok []

/-! ## The sector table -/

/-- The sum of the stored sizes, from `total`. -/
def chunkPayloadSize : List ChunkDescriptor → Nat → Result Nat
  | [], total => .ok total
  | chunk :: chunks, total => do
    let total ← okOr (.malformed "writer EWF2 chunk payload size overflow")
      (checkedAdd total chunk.dataSize)
    chunkPayloadSize chunks total

/-- The entries of the chunks when the next one is at `chunkOffset`. -/
def ewf2TableEntries : List ChunkDescriptor → Nat → Result Bytes
  | [], _ => .ok []
  | chunk :: chunks, chunkOffset => do
    rejectIf (u32Limit ≤ chunk.dataSize)
      (.unsupported "EWF2 writer chunk data size exceeds u32")
    let entry := tableEntry (chunk.patternFill.getD (UInt64.ofNat chunkOffset)) chunk.dataSize
      chunk.compressed chunk.hasChecksum chunk.patternFill.isSome
    let chunkOffset ← writerCheckedAdd chunkOffset chunk.dataSize "EWF2 chunk data offset"
    let entries ← ewf2TableEntries chunks chunkOffset
    return entry ++ entries

def ewf2TableData (firstChunk chunkCount dataOffset : Nat) (chunks : List ChunkDescriptor) :
    Result Bytes := do
  let entries ← ewf2TableEntries chunks dataOffset
  return Ewf2.tableHeader firstChunk chunkCount ++ entries ++ toLE 4 (adler32 entries) ++
    List.replicate (tableFooterSize - 4) 0

/-! ## The segment -/

def ewf2Signature (format : WriteFormat) : Bytes :=
  if format = .ewf2Logical then lef2Signature else ex01Signature

def ewf2FileHeader (options : WriteOptions) (segmentNumber : UInt32) : Bytes :=
  ewf2Signature options.format ++ ([2, 1] ++
    (toLE 2 (ewf2CompressionMethod options.compression).toNat ++
      (toLE 4 segmentNumber.toNat ++ (options.setIdentifier.getD SetIdentifier.zero).val)))

/-- `write_ewf2_segment`. An EWF1 format, for which the source panics, is not accepted. -/
def writeEwf2Segment (codec : Codec) (encoders : Ewf2PayloadEncoders) (spool : Bytes)
    (chunks : List ChunkDescriptor) (options : WriteOptions) (context : Ewf2SegmentWriteContext) :
    Result (SegmentOutput Ewf2.SectionType) := do
  rejectIf (¬ isEwf2Format options.format) .aborted
  rejectIf (u32Limit ≤ chunks.length)
    (.unsupported "EWF2 writer segment chunk count exceeds u32")
  let front ← ewf2FrontSections codec encoders options context
  let back ← ewf2BackSections codec encoders options context
  let tableEntryBytes ← okOr (.malformed "writer EWF2 table entry size overflow")
    (checkedMul chunks.length tableEntrySize)
  let tableDataSize ← okOr (.malformed "writer EWF2 table size overflow")
    ((checkedAdd tableHeaderV2Size tableEntryBytes).bind (checkedAdd · tableFooterSize))
  let payloadSize ← chunkPayloadSize chunks 0
  let (frontPlans, state) ← planEwf2Sections front {}
  let (sectorsPlan, state) ← planEwf2Section state payloadSize "EWF2 sector data"
  let (tablePlan, state) ← planEwf2Section state tableDataSize "EWF2 sector table"
  let (backPlans, state) ← planEwf2Sections back state
  let (terminalPlan, _) ← planEwf2Section state 0 "EWF2 terminal"
  let out : SegmentOutput Ewf2.SectionType := SegmentOutput.empty.writeAll
    (ewf2FileHeader options context.segmentNumber)
  let out := writeEwf2Sections out (front.zip frontPlans)
  let out ← copyChunks spool chunks out
  let out := out.writeDescriptor .sectorData
    (sectionDesc .sectorData payloadSize sectorsPlan.previousDescOffset)
  let tableData ← ewf2TableData context.firstChunk.toNat chunks.length sectorsPlan.dataOffset chunks
  let out := writeEwf2Section .sectorTable tableData tablePlan out
  let out := writeEwf2Sections out (back.zip backPlans)
  return writeEwf2Section context.terminalSection.ewf2Type [] terminalPlan out

end EwfImage
