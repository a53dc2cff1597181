import EwfImage.Format.Ewf1
import EwfImage.Writer.SegmentOutput

/-!
# Writing an EWF1 segment

The sizes and the next-offsets of all sections are computed ahead of the data. The
chunks are cut into table groups, each a `sectors` section with its table and, except
for SMART, a copy of the table. The payloads of the metadata sections are parameters:
the layout uses only their bytes.

`volumeData` is patched field by field as in the source, with the places as numbers. Every sum
of an offset is checked. The first and the last segment have sections of their own, which the
context of a call selects.
-/

namespace EwfImage

open Fallible Ewf1 LittleEndian Slice Word

def TerminalSection.ewf1Type : TerminalSection → Bytes
  | .done => ascii "done"
  | .next => ascii "next"

structure Ewf1SegmentSections where
  header : Bool
  digest : Bool
  errors : Bool
  sessions : Bool

def Ewf1SegmentSections.forSegment (isFirst isLast : Bool) : Ewf1SegmentSections where
  header := isFirst
  digest := isLast
  errors := isFirst
  sessions := isFirst

structure Ewf1SegmentWriteContext where
  segmentNumber : UInt16
  chunkCount : UInt32
  sectorCount : Nat
  sections : Ewf1SegmentSections
  terminalSection : TerminalSection

/-- The encoders of the metadata sections. -/
structure Ewf1PayloadEncoders where
  header : WriteOptions → Result (Option Bytes)
  header2 : WriteOptions → Result (Option Bytes)
  xheader : WriteOptions → Result (Option Bytes)
  session : WriteOptions → Result (Option Bytes)
  ltree : WriteOptions → Result (Option Bytes)
  error2 : WriteOptions → Result (Option Bytes)
  digest : WriteOptions → Result (Option Bytes)
  xhash : WriteOptions → Result (Option Bytes)

/-! ## The volume section -/

def ewf1MediaTypeByte : MediaType → UInt8
  | .removable => 0x00
  | .fixed => 0x01
  | .optical => 0x03
  | .singleFiles => 0x0e
  | .memory => 0x10
  | .unknown value => value

def ewf1MediaTypeValue (format : WriteFormat) (mediaType : Option MediaType) : UInt8 :=
  match mediaType with
  | some mediaType => ewf1MediaTypeByte mediaType
  | none => if format = .ewf1Logical then 0x0e else 0x00

def ewf1MediaFlagsValue (format : WriteFormat) (profile : WriteMediaProfile) : UInt8 :=
  0x01 ||| (if format = .ewf1Physical then 0x02 else 0) |||
    (if profile.fastbloc then 0x04 else 0) ||| (if profile.tableau then 0x08 else 0)

def ewf1CompressionLevelValue : WriteCompressionLevel → UInt8
  | .default | .none => 0
  | .fast => 1
  | .best => 2

def volumeDataSizeOf (format : WriteFormat) : Nat :=
  if format = .ewf1Smart then smartVolumeSize else volumeDataSize

/-- Overwrite the bytes from `offset`. -/
def patch (bytes : Bytes) (offset : Nat) (data : Bytes) : Bytes :=
  bytes.mapIdx fun i byte => if offset ≤ i then data.getD (i - offset) byte else byte

@[simp] theorem length_patch (bytes : Bytes) (offset : Nat) (data : Bytes) :
    (patch bytes offset data).length = bytes.length :=
  List.length_mapIdx

def volumeData (options : WriteOptions) (chunkCount : UInt32) (sectorCount : Nat) :
    Result Bytes := do
  let smart := options.format = .ewf1Smart
  let volume := List.replicate (volumeDataSizeOf options.format) 0
  let volume := if smart then patch volume 0 [1]
    else patch (patch volume 0 [ewf1MediaTypeValue options.format options.mediaProfile.mediaType])
      36 [ewf1MediaFlagsValue options.format options.mediaProfile]
  let volume := patch volume 4 (toLE 4 chunkCount.toNat)
  let volume := patch volume 8 (toLE 4 options.sectorsPerChunk.toNat)
  let volume := patch volume 12 (toLE 4 options.bytesPerSector.toNat)
  let volume := patch volume 52 [ewf1CompressionLevelValue options.compressionValues.level]
  rejectIf (smart ∧ u32Limit ≤ sectorCount)
    (.unsupported "EWF-S01 writer sector count exceeds u32")
  let volume := if smart then patch (patch volume 16 (toLE 4 sectorCount)) 85 (ascii "SMART")
    else patch volume 16 (toLE 8 sectorCount)
  let volume := match options.setIdentifier with
    | some identifier => if smart then volume else patch volume 64 identifier.val
    | none => volume
  let granularity := if smart then none else options.mediaProfile.errorGranularity
  rejectIf (granularity.any (u32Limit ≤ ·))
    (.unsupported "EWF1 writer error granularity exceeds u32")
  let volume := match granularity with
    | some granularity => patch volume 56 (toLE 4 granularity)
    | none => volume
  let body := volume.take (volume.length - 4)
  return body ++ toLE 4 (adler32 body)

/-! ## Table groups -/

def ewf1TableGroupMaxPayload : Nat := 0x7fffffff

def ewf1TableGroupMaxEntries : Nat := 16375

structure Ewf1TableGroup where
  firstChunk : Nat
  endChunk : Nat
  payloadSize : Nat
  deriving DecidableEq

structure Ewf1TableGroupState where
  groupCount : Nat := 0
  currentEntryCount : Nat := 0
  currentPayloadSize : Nat := 0
  deriving DecidableEq

def Ewf1TableGroupState.addChunk (state : Ewf1TableGroupState)
    (dataSize maxEntries maxPayload : Nat) : Result Ewf1TableGroupState := do
  let proposedPayloadSize ← okOr (.malformed "writer table group payload overflow")
    (checkedAdd state.currentPayloadSize dataSize)
  if state.currentEntryCount ≠ 0 ∧
      (maxEntries ≤ state.currentEntryCount ∨ maxPayload < proposedPayloadSize) then do
    let groupCount ← okOr (.malformed "writer table group count overflow")
      (checkedAdd state.groupCount 1)
    return { groupCount, currentEntryCount := 1, currentPayloadSize := dataSize }
  else do
    let currentEntryCount ← okOr (.malformed "writer table group entry count overflow")
      (checkedAdd state.currentEntryCount 1)
    return {
      groupCount := max state.groupCount 1
      currentEntryCount
      currentPayloadSize := proposedPayloadSize }

/-- The loop of `ewf1_table_groups` over the chunks from `index`. -/
def ewf1TableGroupsFrom (maxEntries maxPayload : Nat) :
    List ChunkDescriptor → Nat → Nat → Ewf1TableGroupState → Result (List Ewf1TableGroup)
  | [], index, firstChunk, state =>
    .ok [{ firstChunk, endChunk := index, payloadSize := state.currentPayloadSize }]
  | chunk :: chunks, index, firstChunk, state => do
    let nextState ← state.addChunk chunk.dataSize maxEntries maxPayload
    if state.groupCount < nextState.groupCount ∧ state.currentEntryCount ≠ 0 then do
      let groups ← ewf1TableGroupsFrom maxEntries maxPayload chunks (index + 1) index nextState
      return { firstChunk, endChunk := index, payloadSize := state.currentPayloadSize } :: groups
    else ewf1TableGroupsFrom maxEntries maxPayload chunks (index + 1) firstChunk nextState

def ewf1TableGroups (chunks : List ChunkDescriptor) (maxEntries maxPayload : Nat) :
    Result (List Ewf1TableGroup) :=
  ewf1TableGroupsFrom maxEntries maxPayload chunks 0 0 {}

structure Ewf1TableGroupLayout where
  firstChunk : Nat
  endChunk : Nat
  payloadSize : Nat
  sectorsDescOffset : Nat
  sectorsDataOffset : Nat
  tableDescOffset : Nat
  tableDataSize : Nat
  table2DescOffset : Option Nat
  endOffset : Nat
  deriving DecidableEq

def Ewf1TableGroup.layout (group : Ewf1TableGroup) (cursor tableFooterBytes : Nat)
    (writesTable2 : Bool) : Result Ewf1TableGroupLayout := do
  let tableEntryBytes ← okOr (.malformed "writer table entry size overflow")
    (checkedMul (group.endChunk - group.firstChunk) 4)
  let tableDataSize ← okOr (.malformed "writer table data size overflow")
    ((checkedAdd 24 tableEntryBytes).bind (checkedAdd · tableFooterBytes))
  let sectorsDescOffset := cursor
  let sectorsDataOffset ← okOr (.malformed "writer sectors data offset overflow")
    (checkedAdd sectorsDescOffset sectionDescriptorSize)
  let tableDescOffset ← okOr (.malformed "writer table descriptor offset overflow")
    (checkedAdd sectorsDataOffset group.payloadSize)
  let tableEndOffset ← okOr (.malformed "writer table section range overflow")
    ((checkedAdd tableDescOffset sectionDescriptorSize).bind (checkedAdd · tableDataSize))
  let (table2DescOffset, endOffset) ← (if writesTable2 then do
      let endOffset ← okOr (.malformed "writer table2 section range overflow")
        ((checkedAdd tableEndOffset sectionDescriptorSize).bind (checkedAdd · tableDataSize))
      return (some tableEndOffset, endOffset)
    else .ok (none, tableEndOffset))
  return {
    firstChunk := group.firstChunk
    endChunk := group.endChunk
    payloadSize := group.payloadSize
    sectorsDescOffset
    sectorsDataOffset
    tableDescOffset
    tableDataSize
    table2DescOffset
    endOffset }

def layoutTableGroups (tableFooterBytes : Nat) (writesTable2 : Bool) :
    List Ewf1TableGroup → Nat → Result (List Ewf1TableGroupLayout)
  | [], _ => .ok []
  | group :: groups, cursor => do
    let layout ← group.layout cursor tableFooterBytes writesTable2
    let layouts ← layoutTableGroups tableFooterBytes writesTable2 groups layout.endOffset
    return layout :: layouts

def ewf1TableGroupLayouts (chunks : List ChunkDescriptor)
    (firstSectorsDescOffset tableFooterBytes : Nat) (writesTable2 : Bool) :
    Result (List Ewf1TableGroupLayout) := do
  let groups ← ewf1TableGroups chunks ewf1TableGroupMaxEntries ewf1TableGroupMaxPayload
  layoutTableGroups tableFooterBytes writesTable2 groups firstSectorsDescOffset

/-! ## Tables -/

def tableHeader (chunkCount sectorsDataOffset : Nat) : Bytes :=
  let body := toLE 4 chunkCount ++ List.replicate 4 0 ++ toLE 8 sectorsDataOffset ++
    List.replicate 4 0
  body ++ toLE 4 (adler32 body)

/-- The entries of a table, when the next chunk starts at `relativeOffset`. -/
def ewf1TableEntries : List ChunkDescriptor → Nat → Result Bytes
  | [], _ => .ok []
  | chunk :: chunks, relativeOffset => do
    rejectIf (u32Limit ≤ relativeOffset)
      (.unsupported "EWF1 writer raw chunk offset exceeds u32")
    rejectIf (relativeOffset &&& compressedBit ≠ 0)
      (.unsupported "EWF1 writer raw chunk offset exceeds 31 bits")
    let entry := if chunk.compressed then relativeOffset ||| compressedBit else relativeOffset
    let relativeOffset ← okOr (.malformed "writer chunk offset overflow")
      (checkedAdd relativeOffset chunk.dataSize)
    let entries ← ewf1TableEntries chunks relativeOffset
    return toLE 4 entry ++ entries

/-- `append_ewf1_table_data` to an empty vector. -/
def ewf1TableData (chunkCount sectorsDataOffset : Nat) (chunks : List ChunkDescriptor)
    (includeFooter : Bool) : Result Bytes := do
  let entries ← ewf1TableEntries chunks 0
  let footer := if includeFooter then toLE 4 (adler32 entries) else []
  return tableHeader chunkCount sectorsDataOffset ++ entries ++ footer

/-! ## The segment -/

/-- The descriptor offset behind an optional section at `offset`. -/
def descOffsetBehind (label : String) (offset : Nat) : Option Bytes → Result Nat
  | none => .ok offset
  | some payload => okOr (.malformed s!"writer {label} descriptor offset overflow")
      ((checkedAdd offset sectionDescriptorSize).bind (checkedAdd · payload.length))

def writeSection (sectionType : Bytes) (next : Nat) (payload : Bytes) (out : SegmentOutput Bytes) :
    SegmentOutput Bytes :=
  (out.writeDescriptor sectionType
    (sectionDesc sectionType next (sectionDescriptorSize + payload.length))).writeAll payload

def writeOptionalSection (sectionType : Bytes) (next : Nat) (payload : Option Bytes)
    (out : SegmentOutput Bytes) : SegmentOutput Bytes :=
  match payload with
  | none => out
  | some payload => writeSection sectionType next payload out

def groupChunks (chunks : List ChunkDescriptor) (layout : Ewf1TableGroupLayout) :
    List ChunkDescriptor :=
  (chunks.take layout.endChunk).drop layout.firstChunk

/-- One table group: the `sectors` section, its table and the copy of the table. -/
def writeTableGroup (spool : Bytes) (chunks : List ChunkDescriptor) (tableFooterBytes : Nat)
    (layout : Ewf1TableGroupLayout) (nextGroupDescOffset : Nat) (out : SegmentOutput Bytes) :
    Result (SegmentOutput Bytes) := do
  let group := groupChunks chunks layout
  rejectIf (u32Limit ≤ group.length)
    (.unsupported "EWF1 writer table group chunk count exceeds u32")
  let out := out.writeDescriptor (ascii "sectors")
    (sectionDesc (ascii "sectors") layout.tableDescOffset
      (sectionDescriptorSize + layout.payloadSize))
  let out ← copyChunks spool group out
  let out := out.writeDescriptor (ascii "table")
    (sectionDesc (ascii "table") (layout.table2DescOffset.getD nextGroupDescOffset)
      (sectionDescriptorSize + layout.tableDataSize))
  let tableData ← ewf1TableData group.length layout.sectorsDataOffset group (tableFooterBytes ≠ 0)
  let out := out.writeAll tableData
  if layout.table2DescOffset.isSome then do
    let out := out.writeDescriptor (ascii "table2")
      (sectionDesc (ascii "table2") nextGroupDescOffset
        (sectionDescriptorSize + layout.tableDataSize))
    let table2Data ← ewf1TableData group.length layout.sectorsDataOffset group true
    return out.writeAll table2Data
  else return out

def writeTableGroups (spool : Bytes) (chunks : List ChunkDescriptor)
    (tableFooterBytes afterTablesDescOffset : Nat) :
    List Ewf1TableGroupLayout → SegmentOutput Bytes → Result (SegmentOutput Bytes)
  | [], out => .ok out
  | layout :: layouts, out => do
    let next := (layouts.head?.map (·.sectorsDescOffset)).getD afterTablesDescOffset
    let out ← writeTableGroup spool chunks tableFooterBytes layout next out
    writeTableGroups spool chunks tableFooterBytes afterTablesDescOffset layouts out

def ewf1Signature (format : WriteFormat) : Bytes :=
  if format = .ewf1Logical then lvfSignature else evfSignature

/-- The offset of the first section present among `sections`, else `last`. -/
def firstPresent (last : Nat) : List (Option Bytes × Nat) → Nat
  | [] => last
  | (payload, offset) :: sections => if payload.isSome then offset else firstPresent last sections

/-- `write_ewf1_segment`. An EWF2 format, for which the source panics, is not accepted. -/
def writeEwf1Segment (encoders : Ewf1PayloadEncoders) (spool : Bytes)
    (chunks : List ChunkDescriptor) (options : WriteOptions) (context : Ewf1SegmentWriteContext) :
    Result (SegmentOutput Bytes) := do
  rejectIf (isEwf2Format options.format) .aborted
  rejectIf (u32Limit ≤ chunks.length)
    (.unsupported "EWF1 writer segment chunk count exceeds u32")
  let selected (chosen : Bool) (encoder : WriteOptions → Result (Option Bytes)) :
      Result (Option Bytes) := if chosen then encoder options else .ok none
  let header ← selected context.sections.header encoders.header
  let header2 ← selected context.sections.header encoders.header2
  let xheader ← selected context.sections.header encoders.xheader
  let digest ← selected context.sections.digest encoders.digest
  let xhash ← selected context.sections.digest encoders.xhash
  let error2 ← selected context.sections.errors encoders.error2
  let session ← selected context.sections.sessions encoders.session
  let ltree ← selected (context.sections.digest && options.format = .ewf1Logical) encoders.ltree
  let headerDescOffset := fileHeaderSize
  let header2DescOffset ← descOffsetBehind "volume" headerDescOffset header
  let xheaderDescOffset ← descOffsetBehind "volume" header2DescOffset header2
  let volumeDescOffset ← descOffsetBehind "volume" xheaderDescOffset xheader
  let volumeDataOffset := volumeDescOffset + sectionDescriptorSize
  let sessionDescOffset := volumeDataOffset + volumeDataSizeOf options.format
  let sectorsDescOffset ← descOffsetBehind "sectors" sessionDescOffset session
  let tableFooterBytes := if options.format = .ewf1Smart then 0 else 4
  let writesTable2 := options.format = .ewf1Physical || options.format = .ewf1Logical
  let groupLayouts ← ewf1TableGroupLayouts chunks sectorsDescOffset tableFooterBytes writesTable2
  let ltreeDescOffset := (groupLayouts.getLast?.map (·.endOffset)).getD sectorsDescOffset
  let error2DescOffset ← descOffsetBehind "error2" ltreeDescOffset ltree
  let digestDescOffset ← descOffsetBehind "digest" error2DescOffset error2
  let xhashDescOffset ← descOffsetBehind "xhash" digestDescOffset digest
  let doneDescOffset ← descOffsetBehind "done" xhashDescOffset xhash
  let afterTables := firstPresent doneDescOffset [(ltree, ltreeDescOffset),
    (error2, error2DescOffset), (digest, digestDescOffset), (xhash, xhashDescOffset)]
  let afterLtree := firstPresent doneDescOffset [(error2, error2DescOffset),
    (digest, digestDescOffset), (xhash, xhashDescOffset)]
  let afterError2 := firstPresent doneDescOffset [(digest, digestDescOffset),
    (xhash, xhashDescOffset)]
  let afterDigest := firstPresent doneDescOffset [(xhash, xhashDescOffset)]
  let out : SegmentOutput Bytes := SegmentOutput.empty.writeAll
    (ewf1Signature options.format ++ [1] ++ toLE 2 context.segmentNumber.toNat ++ toLE 2 0)
  let out := writeOptionalSection (ascii "header")
    (firstPresent volumeDescOffset [(header2, header2DescOffset), (xheader, xheaderDescOffset)])
    header out
  let out := writeOptionalSection (ascii "header2")
    (firstPresent volumeDescOffset [(xheader, xheaderDescOffset)]) header2 out
  let out := writeOptionalSection (ascii "xheader") volumeDescOffset xheader out
  let out := out.writeDescriptor (ascii "volume") (sectionDesc (ascii "volume")
    (if session.isSome then sessionDescOffset else sectorsDescOffset)
    (sectionDescriptorSize + volumeDataSizeOf options.format))
  let volume ← volumeData options context.chunkCount context.sectorCount
  let out := out.writeAll volume
  let out := writeOptionalSection (ascii "session") sectorsDescOffset session out
  let out ← writeTableGroups spool chunks tableFooterBytes afterTables groupLayouts out
  let out := writeOptionalSection (ascii "ltree") afterLtree ltree out
  let out := writeOptionalSection (ascii "error2") afterError2 error2 out
  let out := writeOptionalSection (ascii "digest") afterDigest digest out
  let out := writeOptionalSection (ascii "xhash") doneDescOffset xhash out
  return out.writeDescriptor context.terminalSection.ewf1Type
    (sectionDesc context.terminalSection.ewf1Type doneDescOffset sectionDescriptorSize)

end EwfImage
