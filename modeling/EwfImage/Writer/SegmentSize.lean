import EwfImage.Writer.Ewf1SegmentCorrect
import EwfImage.Writer.Ewf2SegmentCorrect
import Mathlib.Tactic.Ring

/-!
# The size of a segment

The size that a segment will have is estimated from the number of its chunks, the bytes
they take up and the number of its tables. The estimate counts the sections of the first
and of the last segment for every segment, so it is never too low.

The main results are `length_writeEwf1Segment_le` and `length_writeEwf2Segment_le`: no written
segment with these chunks is longer than the estimate. `length_writeEwf1Segment` is the exact
length. The encoders are parameters and are asked twice, once for the estimate, with equal
answers.
-/

namespace EwfImage

open Fallible Word

/-! ## The estimates -/

def checkedSum (label : String) (parts : List Nat) : Result Nat :=
  parts.foldlM (fun total part =>
    okOr (.malformed s!"writer {label} overflow") (checkedAdd total part)) 0

def estimatedEwf1SectionSize (dataSize : Nat) : Result Nat :=
  okOr (.malformed "writer estimated EWF1 section size overflow")
    (checkedAdd Ewf1.sectionDescriptorSize dataSize)

def estimatedEwf2SectionSize (dataSize : Nat) : Result Nat :=
  okOr (.malformed "writer estimated EWF2 section size overflow")
    (checkedAdd Ewf2.sectionDescriptorSize dataSize)

/-- The estimate of a section that is left out is zero. -/
def estimatedOptional (sectionSize : Nat → Result Nat) : Option Bytes → Result Nat
  | none => .ok 0
  | some payload => sectionSize payload.length

def estimatedEwf1SegmentSize (encoders : Ewf1PayloadEncoders)
    (chunkCount chunkPayloadSize tableGroupCount : Nat) (options : WriteOptions) : Result Nat := do
  let tableEntryBytes ← okOr (.malformed "writer table entry size overflow")
    (checkedMul chunkCount 4)
  let tableFooterBytes := if options.format = .ewf1Smart then 0 else 4
  let tableGroupOverhead ← okOr (.malformed "writer table group overhead overflow")
    ((checkedAdd Ewf1.sectionDescriptorSize 24).bind (checkedAdd · tableFooterBytes))
  let tableSectionsSize ← okOr (.malformed "writer table sections size overflow")
    ((checkedMul tableGroupCount tableGroupOverhead).bind (checkedAdd · tableEntryBytes))
  let sectorsSectionsSize ← okOr (.malformed "writer sectors sections size overflow")
    ((checkedMul tableGroupCount Ewf1.sectionDescriptorSize).bind (checkedAdd · chunkPayloadSize))
  let writesTable2 := options.format = .ewf1Physical ∨ options.format = .ewf1Logical
  let optionalSize (encoder : WriteOptions → Result (Option Bytes)) : Result Nat := do
    let payload ← encoder options
    estimatedOptional estimatedEwf1SectionSize payload
  let headerSize ← optionalSize encoders.header
  let header2Size ← optionalSize encoders.header2
  let xheaderSize ← optionalSize encoders.xheader
  let sessionSize ← optionalSize encoders.session
  let ltreeSize ← (if options.format = .ewf1Logical then optionalSize encoders.ltree else .ok 0)
  let error2Size ← optionalSize encoders.error2
  let digestSize ← optionalSize encoders.digest
  let xhashSize ← optionalSize encoders.xhash
  let volumeSize ← estimatedEwf1SectionSize (volumeDataSizeOf options.format)
  checkedSum "estimated EWF1 segment size" [
    Ewf1.fileHeaderSize,
    headerSize,
    header2Size,
    xheaderSize,
    volumeSize,
    sessionSize,
    tableSectionsSize,
    if writesTable2 then tableSectionsSize else 0,
    ltreeSize,
    sectorsSectionsSize,
    error2Size,
    digestSize,
    xhashSize,
    Ewf1.sectionDescriptorSize]

def estimatedIncrementDataSize (incrementData : List Bytes) : Result Nat :=
  incrementData.foldlM (fun total payload => do
    let sectionSize ← estimatedEwf2SectionSize payload.length
    okOr (.malformed "writer estimated EWF2 increment data size overflow")
      (checkedAdd total sectionSize)) 0

def estimatedEwf2SegmentSize (codec : Codec) (encoders : Ewf2PayloadEncoders)
    (chunkCount chunkPayloadSize : Nat) (options : WriteOptions)
    (sectorCount totalChunkCount : Nat) : Result Nat := do
  let deviceInformation ← ewf2DeviceInformationSectionPayload codec
    (encoders.deviceInformation options sectorCount totalChunkCount) options
  let caseData ← ewf2MetadataSectionPayload codec (encoders.caseData options totalChunkCount)
    options.compression options.compressionValues.level
  let errorTable ← encoders.errorTable options.acquisitionErrors
  let sessionTable ← encoders.sessionTable options.sessions options.tracks
  let memoryExtentsTable := encoders.memoryExtentsTable options.memoryExtents
  let singleFilesTable0x21 := encoders.singleFilesTable0x21 options
  let singleFilesMd5HashTable := encoders.singleFilesMd5HashTable options
  let singleFilesTable0x23 := encoders.singleFilesTable0x23 options
  let incrementDataSize ← estimatedIncrementDataSize options.ewf2IncrementData
  let md5Hash := options.hashes.md5.map encoders.hash
  let sha1Hash := options.hashes.sha1.map encoders.hash
  let optionalSize := estimatedOptional estimatedEwf2SectionSize
  let finalInformationSize ← optionalSize options.ewf2FinalInformation
  let text (data : Option String) : Result (Option Bytes) := match data with
    | some data => (ewf2StringSectionPayload codec encoders data options).map some
    | none => .ok none
  let analyticalData ← text options.ewf2AnalyticalData
  let restartData ← text options.ewf2RestartData
  let tableEntryBytes ← okOr (.malformed "writer EWF2 table entry size overflow")
    (checkedMul chunkCount Ewf2.tableEntrySize)
  let tableDataSize ← okOr (.malformed "writer EWF2 table size overflow")
    ((checkedAdd Ewf2.tableHeaderV2Size tableEntryBytes).bind (checkedAdd · Ewf2.tableFooterSize))
  let deviceInformationSize ← estimatedEwf2SectionSize deviceInformation.length
  let caseDataSize ← estimatedEwf2SectionSize caseData.length
  let errorTableSize ← optionalSize errorTable
  let sessionTableSize ← optionalSize sessionTable
  let memoryExtentsTableSize ← optionalSize memoryExtentsTable
  let singleFilesTable0x21Size ← optionalSize singleFilesTable0x21
  let singleFilesMd5HashTableSize ← optionalSize singleFilesMd5HashTable
  let singleFilesTable0x23Size ← optionalSize singleFilesTable0x23
  let tableSize ← estimatedEwf2SectionSize tableDataSize
  let chunksSize ← estimatedEwf2SectionSize chunkPayloadSize
  let md5HashSize ← optionalSize md5Hash
  let sha1HashSize ← optionalSize sha1Hash
  let analyticalDataSize ← optionalSize analyticalData
  let restartDataSize ← optionalSize restartData
  let singleFilesData ← (match options.singleFiles with
    | some catalog => (encoders.singleFilesData catalog).map some
    | none => .ok none)
  let singleFilesDataSize ← optionalSize singleFilesData
  checkedSum "estimated EWF2 segment size" [
    Ewf2.fileHeaderSize,
    deviceInformationSize,
    caseDataSize,
    errorTableSize,
    sessionTableSize,
    memoryExtentsTableSize,
    incrementDataSize,
    singleFilesTable0x21Size,
    singleFilesMd5HashTableSize,
    singleFilesTable0x23Size,
    tableSize,
    chunksSize,
    md5HashSize,
    sha1HashSize,
    finalInformationSize,
    analyticalDataSize,
    restartDataSize,
    singleFilesDataSize,
    Ewf2.sectionDescriptorSize]

def estimatedSegmentSize (codec : Codec) (ewf1 : Ewf1PayloadEncoders) (ewf2 : Ewf2PayloadEncoders)
    (chunkCount chunkPayloadSize ewf1TableGroupCount : Nat) (options : WriteOptions)
    (sectorCount totalChunkCount : Nat) : Result Nat :=
  if isEwf2Format options.format then
    estimatedEwf2SegmentSize codec ewf2 chunkCount chunkPayloadSize options sectorCount
      totalChunkCount
  else estimatedEwf1SegmentSize ewf1 chunkCount chunkPayloadSize ewf1TableGroupCount options

/-! ## What the estimates add up to -/

theorem foldlM_checkedAdd_eq {e : EwfError} {parts : List Nat} {start total : Nat}
    (h : parts.foldlM (fun total part => okOr e (checkedAdd total part)) start = .ok total) :
    total = start + parts.sum := by
  induction parts generalizing start with
  | nil =>
    cases h
    rfl
  | cons part parts ih =>
    simp only [List.foldlM_cons, bind_eq_ok, okOr_eq_ok, checkedAdd_eq_some] at h
    obtain ⟨_, ⟨_, rfl⟩, hrest⟩ := h
    rw [ih hrest, List.sum_cons, Nat.add_assoc]

theorem checkedSum_eq {label : String} {parts : List Nat} {total : Nat}
    (h : checkedSum label parts = .ok total) : total = parts.sum := by
  rw [foldlM_checkedAdd_eq h, Nat.zero_add]

theorem estimatedEwf1SectionSize_eq {dataSize size : Nat}
    (h : estimatedEwf1SectionSize dataSize = .ok size) :
    size = Ewf1.sectionDescriptorSize + dataSize := by
  simp only [estimatedEwf1SectionSize, okOr_eq_ok, checkedAdd_eq_some] at h
  exact h.2.symm

theorem estimatedEwf2SectionSize_eq {dataSize size : Nat}
    (h : estimatedEwf2SectionSize dataSize = .ok size) :
    size = Ewf2.sectionDescriptorSize + dataSize := by
  simp only [estimatedEwf2SectionSize, okOr_eq_ok, checkedAdd_eq_some] at h
  exact h.2.symm

theorem estimatedOptional_ewf1_eq {payload : Option Bytes} {size : Nat}
    (h : estimatedOptional estimatedEwf1SectionSize payload = .ok size) :
    size = Ewf1.optionalSize payload := by
  cases payload with
  | none =>
    cases h
    rfl
  | some payload => exact estimatedEwf1SectionSize_eq h

/-! ## The bytes of an EWF1 segment -/

/-- The payloads of the metadata sections of one segment. -/
structure Ewf1Metadata where
  header : Option Bytes
  header2 : Option Bytes
  xheader : Option Bytes
  session : Option Bytes
  ltree : Option Bytes
  error2 : Option Bytes
  digest : Option Bytes
  xhash : Option Bytes

/-- The payload of a section that is encoded where it is chosen. -/
def Selected (options : WriteOptions) (chosen : Bool)
    (encoder : WriteOptions → Result (Option Bytes)) (payload : Option Bytes) : Prop :=
  (if chosen then encoder options else .ok none) = .ok payload

/-- The payloads that a segment with these sections has. -/
structure Ewf1Metadata.Encoded (encoders : Ewf1PayloadEncoders) (options : WriteOptions)
    (sections : Ewf1SegmentSections) (metadata : Ewf1Metadata) : Prop where
  header : Selected options sections.header encoders.header metadata.header
  header2 : Selected options sections.header encoders.header2 metadata.header2
  xheader : Selected options sections.header encoders.xheader metadata.xheader
  session : Selected options sections.sessions encoders.session metadata.session
  ltree : Selected options (sections.digest && options.format = .ewf1Logical) encoders.ltree
    metadata.ltree
  error2 : Selected options sections.errors encoders.error2 metadata.error2
  digest : Selected options sections.digest encoders.digest metadata.digest
  xhash : Selected options sections.digest encoders.xhash metadata.xhash

def Ewf1Metadata.size (metadata : Ewf1Metadata) : Nat :=
  Ewf1.optionalSize metadata.header + Ewf1.optionalSize metadata.header2 +
    Ewf1.optionalSize metadata.xheader + Ewf1.optionalSize metadata.session +
    Ewf1.optionalSize metadata.ltree + Ewf1.optionalSize metadata.error2 +
    Ewf1.optionalSize metadata.digest + Ewf1.optionalSize metadata.xhash

/-- The bytes that every table group needs beside its entries: the descriptor of its chunks and,
for each copy of its table, a descriptor, the header and the footer. -/
def tableGroupOverhead (format : WriteFormat) : Nat :=
  if format = .ewf1Smart then 76 + (76 + 24) else 76 + 2 * (76 + 24 + 4)

/-- The bytes of the entry of a chunk in all copies of its table. -/
def tableEntryCopies (format : WriteFormat) : Nat := if format = .ewf1Smart then 4 else 8

/-- The size of a segment with these metadata sections, chunks and tables. -/
def ewf1SegmentLength (format : WriteFormat) (metadata chunkCount chunkPayloadSize
    tableGroupCount : Nat) : Nat :=
  Ewf1.fileHeaderSize + metadata + (Ewf1.sectionDescriptorSize + volumeDataSizeOf format) +
    tableGroupCount * tableGroupOverhead format + tableEntryCopies format * chunkCount +
    chunkPayloadSize + Ewf1.sectionDescriptorSize

/-- The sections of a segment that is the first and the last one. -/
def Ewf1SegmentSections.all : Ewf1SegmentSections := .forSegment true true

theorem writesTable2_iff {format : WriteFormat} (hformat : isEwf2Format format = false) :
    (format = .ewf1Physical ∨ format = .ewf1Logical) ↔ format ≠ .ewf1Smart := by
  cases format <;> simp [isEwf2Format] at hformat ⊢

theorem sum_ewf1Parts {format : WriteFormat} (hformat : isEwf2Format format = false)
    {m₁ m₂ m₃ m₄ m₅ m₆ m₇ m₈ chunkCount payload groups footer tables : Nat}
    (hfooter : footer = if format = .ewf1Smart then 0 else 4)
    (htables : tables = groups * (76 + 24 + footer) + chunkCount * 4) :
    [Ewf1.fileHeaderSize, m₁, m₂, m₃, Ewf1.sectionDescriptorSize + volumeDataSizeOf format, m₄, tables,
      if format = .ewf1Physical ∨ format = .ewf1Logical then tables else 0, m₅,
      groups * 76 + payload, m₆, m₇, m₈, Ewf1.sectionDescriptorSize].sum =
    ewf1SegmentLength format (m₁ + m₂ + m₃ + m₄ + m₅ + m₆ + m₇ + m₈) chunkCount payload groups := by
  simp only [writesTable2_iff hformat, List.sum_cons, List.sum_nil]
  by_cases hsmart : format = .ewf1Smart
  · rw [if_neg (by simp [hsmart])]
    rw [hfooter, if_pos hsmart] at htables
    simp only [ewf1SegmentLength, tableGroupOverhead, tableEntryCopies, hsmart, if_true, htables]
    ring
  · rw [if_pos hsmart]
    rw [hfooter, if_neg hsmart] at htables
    simp only [ewf1SegmentLength, tableGroupOverhead, tableEntryCopies, hsmart, if_false, htables]
    ring

theorem estimatedEwf1SegmentSize_eq {encoders : Ewf1PayloadEncoders}
    {chunkCount chunkPayloadSize tableGroupCount estimate : Nat} {options : WriteOptions}
    (hformat : isEwf2Format options.format = false)
    (h : estimatedEwf1SegmentSize encoders chunkCount chunkPayloadSize tableGroupCount options =
      .ok estimate) :
    ∃ metadata : Ewf1Metadata, metadata.Encoded encoders options .all ∧
      estimate = ewf1SegmentLength options.format metadata.size chunkCount chunkPayloadSize
        tableGroupCount := by
  simp only [estimatedEwf1SegmentSize, bind_eq_ok, okOr_eq_ok, checkedMul_eq_some,
    Option.bind_eq_some_iff, checkedAdd_eq_some] at h
  obtain ⟨_, ⟨_, rfl⟩, _, ⟨_, ⟨_, rfl⟩, _, rfl⟩, _, ⟨_, ⟨_, rfl⟩, _, rfl⟩, _, ⟨_, ⟨_, rfl⟩, _, rfl⟩,
    _, ⟨header, hheader, heq1⟩, _, ⟨header2, hheader2, heq2⟩, _, ⟨xheader, hxheader, heq3⟩,
    _, ⟨session, hsession, heq4⟩, ltreeSize, hltree, _, ⟨error2, herror2, heq6⟩,
    _, ⟨digest, hdigest, heq7⟩, _, ⟨xhash, hxhash, heq8⟩, _, hvolume, hsum⟩ := h
  have hltreeSize : ∃ ltree, Selected options (true && options.format = .ewf1Logical) encoders.ltree
      ltree ∧ ltreeSize = Ewf1.optionalSize ltree := by
    by_cases hlogical : options.format = .ewf1Logical
    · rw [if_pos hlogical] at hltree
      obtain ⟨ltree, hpayload, hsize⟩ := bind_eq_ok.mp hltree
      exact ⟨ltree, by simpa [Selected, hlogical] using hpayload, estimatedOptional_ewf1_eq hsize⟩
    · rw [if_neg hlogical] at hltree
      cases hltree
      exact ⟨none, by simp [Selected, hlogical], rfl⟩
  obtain ⟨ltree, hselected, rfl⟩ := hltreeSize
  refine ⟨⟨header, header2, xheader, session, ltree, error2, digest, xhash⟩,
    ⟨hheader, hheader2, hxheader, hsession, hselected, herror2, hdigest, hxhash⟩, ?_⟩
  replace hsum := checkedSum_eq hsum
  rw [estimatedOptional_ewf1_eq heq1, estimatedOptional_ewf1_eq heq2, estimatedOptional_ewf1_eq heq3,
    estimatedOptional_ewf1_eq heq4, estimatedOptional_ewf1_eq heq6, estimatedOptional_ewf1_eq heq7,
    estimatedOptional_ewf1_eq heq8, estimatedEwf1SectionSize_eq hvolume] at hsum
  rw [hsum]
  exact sum_ewf1Parts hformat rfl rfl

/-! ### What the writer emits -/

/-- The bytes that a table group takes up. -/
def tableGroupLength (format : WriteFormat) (chunks : List ChunkDescriptor) : Nat :=
  tableGroupOverhead format + tableEntryCopies format * chunks.length + storedSize chunks

theorem length_writeOptionalSection {sectionType : Bytes} {next : Nat} {payload : Option Bytes}
    {out : SegmentOutput Bytes} (htype : sectionType.length ≤ 16) :
    (writeOptionalSection sectionType next payload out).bytes.length =
      out.bytes.length + Ewf1.optionalSize payload := by
  cases payload with
  | none => rfl
  | some payload =>
    have hdesc := Ewf1.length_sectionDesc next (Ewf1.sectionDescriptorSize + payload.length) htype
    simp only [writeOptionalSection, writeSection, SegmentOutput.bytes_writeAll,
      SegmentOutput.bytes_writeDescriptor, List.length_append, hdesc, Ewf1.optionalSize]
    omega

theorem length_writeTableGroup {format : WriteFormat} {spool : Bytes}
    {chunks : List ChunkDescriptor} {layout : Ewf1TableGroupLayout} {footerBytes next : Nat}
    {out out' : SegmentOutput Bytes} (hfooter : footerBytes = if format = .ewf1Smart then 0 else 4)
    (htable2 : layout.table2DescOffset.isSome = decide (format ≠ .ewf1Smart))
    (h : writeTableGroup spool chunks footerBytes layout next out = .ok out') :
    out'.bytes.length = out.bytes.length + tableGroupLength format (groupChunks chunks layout) := by
  simp only [writeTableGroup, bind_eq_ok, rejectIf_eq_ok, pure_eq_ok] at h
  obtain ⟨_, _, copied, hcopied, table, htable, h⟩ := h
  obtain ⟨data, hholds, hbytes, -, -⟩ := copyChunks_spec hcopied
  have hdata := hholds.length
  have htableLength := Ewf1.length_ewf1TableData htable
  have hsize : Ewf1.sectionDescriptorSize = 76 := rfl
  have hsectors := Ewf1.length_sectionDesc layout.tableDescOffset
    (Ewf1.sectionDescriptorSize + layout.payloadSize) (show (Ewf1.ascii "sectors").length ≤ 16 by decide)
  have htableDesc := Ewf1.length_sectionDesc (layout.table2DescOffset.getD next)
    (Ewf1.sectionDescriptorSize + layout.tableDataSize) (show (Ewf1.ascii "table").length ≤ 16 by decide)
  by_cases hsmart : format = .ewf1Smart
  · rw [if_neg (by simp [htable2, hsmart])] at h
    cases h
    rw [if_neg (by simp [hfooter, hsmart])] at htableLength
    simp only [SegmentOutput.bytes_writeAll, SegmentOutput.bytes_writeDescriptor,
      List.length_append, hbytes, hsectors, htableDesc, hdata, htableLength, tableGroupLength,
      tableGroupOverhead, tableEntryCopies, if_pos hsmart]
    omega
  · rw [if_pos (by simp [htable2, hsmart])] at h
    obtain ⟨table2, htable2Data, h⟩ := bind_eq_ok.mp h
    cases h
    rw [if_pos (by simp [hfooter, hsmart])] at htableLength
    have htable2Length := Ewf1.length_ewf1TableData htable2Data
    rw [if_pos rfl] at htable2Length
    have htable2Desc := Ewf1.length_sectionDesc next
      (Ewf1.sectionDescriptorSize + layout.tableDataSize)
      (show (Ewf1.ascii "table2").length ≤ 16 by decide)
    simp only [SegmentOutput.bytes_writeAll, SegmentOutput.bytes_writeDescriptor,
      List.length_append, hbytes, hsectors, htableDesc, htable2Desc, hdata, htableLength,
      htable2Length, tableGroupLength, tableGroupOverhead, tableEntryCopies, if_neg hsmart]
    omega

/-- The groups take up their overhead and, together, the entries and bytes of all chunks. -/
theorem length_writeTableGroups {format : WriteFormat} {spool : Bytes}
    {chunks : List ChunkDescriptor} {groups : List Ewf1TableGroup}
    {layouts : List Ewf1TableGroupLayout} {footerBytes after start cursor maxPayload : Nat}
    {writesTable2 : Bool} {out out' : SegmentOutput Bytes}
    (hfooter : footerBytes = if format = .ewf1Smart then 0 else 4)
    (htable2 : writesTable2 = decide (format ≠ .ewf1Smart))
    (hcuts : Ewf1.Cuts chunks maxPayload start groups)
    (hlayouts : layoutTableGroups footerBytes writesTable2 groups cursor = .ok layouts)
    (h : writeTableGroups spool chunks footerBytes after layouts out = .ok out') :
    out'.bytes.length = out.bytes.length + groups.length * tableGroupOverhead format +
      tableEntryCopies format * (chunks.length - start) + storedSize (chunks.drop start) := by
  induction groups generalizing layouts start cursor out with
  | nil =>
    have hstart : start = chunks.length := hcuts
    cases hlayouts
    cases h
    simp [hstart]
  | cons group groups ih =>
    obtain ⟨hfirst, hge, hle, -, -, hrest⟩ := hcuts
    obtain ⟨layout, hlayout, hlayouts⟩ := bind_eq_ok.mp hlayouts
    obtain ⟨others, hothers, hlayouts⟩ := bind_eq_ok.mp hlayouts
    cases hlayouts
    obtain ⟨middle, hgroup, h⟩ := bind_eq_ok.mp h
    obtain ⟨hlayoutFirst, hlayoutEnd, -, -, -, -, -, hcopy, -⟩ := Ewf1.layout_eq hlayout
    have hsome : layout.table2DescOffset.isSome = decide (format ≠ .ewf1Smart) := by
      rw [hcopy, ← htable2]
      cases writesTable2 <;> rfl
    have hmiddle := length_writeTableGroup hfooter hsome hgroup
    have hpart : groupChunks chunks layout = (chunks.take group.endChunk).drop start := by
      rw [groupChunks, hlayoutFirst, hlayoutEnd, hfirst]
    have hsplit : storedSize (chunks.drop start) =
        storedSize ((chunks.take group.endChunk).drop start) +
          storedSize (chunks.drop group.endChunk) := by
      rw [← storedSize_append]
      conv_lhs => rw [← List.take_append_drop group.endChunk chunks,
        List.drop_append_of_le_length (by rw [List.length_take]; omega)]
    have hcount : chunks.length - start =
        (group.endChunk - start) + (chunks.length - group.endChunk) := by omega
    rw [hpart, tableGroupLength, Ewf1.length_drop_take start hle] at hmiddle
    rw [ih hrest hothers h, hmiddle, hsplit, hcount, List.length_cons]
    ring

/-- The size of a written EWF1 segment. -/
theorem length_writeEwf1Segment {encoders : Ewf1PayloadEncoders} {spool : Bytes}
    {chunks : List ChunkDescriptor} {options : WriteOptions} {context : Ewf1SegmentWriteContext}
    {out : SegmentOutput Bytes}
    (h : writeEwf1Segment encoders spool chunks options context = .ok out) :
    ∃ (metadata : Ewf1Metadata) (groups : List Ewf1TableGroup),
      metadata.Encoded encoders options context.sections ∧
      ewf1TableGroups chunks ewf1TableGroupMaxEntries ewf1TableGroupMaxPayload = .ok groups ∧
      out.bytes.length = ewf1SegmentLength options.format metadata.size chunks.length
        (storedSize chunks) groups.length := by
  simp only [writeEwf1Segment, bind_eq_ok, rejectIf_eq_ok, pure_eq_ok, Except.ok.injEq] at h
  obtain ⟨_, hformat, _, _, header, hheader, header2, hheader2, xheader, hxheader, digest, hdigest,
    xhash, hxhash, error2, herror2, session, hsession, ltree, hltree, header2Desc, -, xheaderDesc, -,
    volumeDesc, -, sectorsDesc, -, layouts, hlayouts, error2Desc, -, digestDesc, -, xhashDesc, -,
    doneDesc, -, volume, hvolume, grouped, hgrouped, rfl⟩ := h
  obtain ⟨groups, hgroups, hlayouts⟩ := bind_eq_ok.mp hlayouts
  refine ⟨⟨header, header2, xheader, session, ltree, error2, digest, xhash⟩, groups,
    ⟨hheader, hheader2, hxheader, hsession, hltree, herror2, hdigest, hxhash⟩, hgroups, ?_⟩
  have hfooter : (if options.format = .ewf1Smart then 0 else 4) =
      if options.format = .ewf1Smart then 0 else 4 := rfl
  have htable2 : (decide (options.format = .ewf1Physical) || decide (options.format = .ewf1Logical)) =
      decide (options.format ≠ .ewf1Smart) := by
    rw [← Bool.decide_or]
    exact decide_eq_decide.mpr (writesTable2_iff (by simpa using hformat))
  have htables := length_writeTableGroups hfooter htable2 (Ewf1.ewf1TableGroups_cuts hgroups) hlayouts
    hgrouped
  have hsignature : (ewf1Signature options.format).length = 8 := by
    unfold ewf1Signature
    split <;> rfl
  have hvolumeLength := Ewf1.length_volumeData hvolume
  have hterminal : context.terminalSection.ewf1Type.length ≤ 16 := by
    cases context.terminalSection <;> decide
  simp only [SegmentOutput.bytes_writeDescriptor, List.length_append,
    Ewf1.length_sectionDesc _ _ hterminal]
  rw [length_writeOptionalSection (by decide), length_writeOptionalSection (by decide),
    length_writeOptionalSection (by decide), length_writeOptionalSection (by decide), htables,
    length_writeOptionalSection (by decide)]
  simp only [SegmentOutput.bytes_writeDescriptor, SegmentOutput.bytes_writeAll, List.length_append,
    Ewf1.length_sectionDesc _ _ (show (Ewf1.ascii "volume").length ≤ 16 by decide)]
  rw [length_writeOptionalSection (by decide), length_writeOptionalSection (by decide),
    length_writeOptionalSection (by decide)]
  simp only [SegmentOutput.bytes_writeAll, SegmentOutput.empty, List.length_append, hsignature,
    hvolumeLength, LittleEndian.length_toLE, List.drop_zero, Nat.sub_zero, ewf1SegmentLength,
    Ewf1Metadata.size, Ewf1.fileHeaderSize]
  simp only [List.length_nil, List.length_cons]
  ring

/-- A section that a segment leaves out only makes it shorter. -/
theorem Selected.size_le {options : WriteOptions} {chosen always : Bool}
    {encoder : WriteOptions → Result (Option Bytes)} {payload other : Option Bytes}
    (h : Selected options chosen encoder payload) (hall : Selected options always encoder other)
    (himp : chosen = true → always = true) :
    Ewf1.optionalSize payload ≤ Ewf1.optionalSize other := by
  cases chosen with
  | false =>
    cases h
    exact Nat.zero_le _
  | true =>
    rw [himp rfl] at hall
    have heq : payload = other := Except.ok.inj (h.symm.trans hall)
    rw [heq]

theorem Ewf1Metadata.Encoded.size_le {encoders : Ewf1PayloadEncoders} {options : WriteOptions}
    {sections : Ewf1SegmentSections} {metadata all : Ewf1Metadata}
    (h : metadata.Encoded encoders options sections) (hall : all.Encoded encoders options .all) :
    metadata.size ≤ all.size := by
  have hheader := h.header.size_le hall.header fun _ => rfl
  have hheader2 := h.header2.size_le hall.header2 fun _ => rfl
  have hxheader := h.xheader.size_le hall.xheader fun _ => rfl
  have hsession := h.session.size_le hall.session fun _ => rfl
  have hltree := h.ltree.size_le hall.ltree fun hchosen => by
    rw [Bool.and_eq_true] at hchosen
    rw [hchosen.2]
    rfl
  have herror2 := h.error2.size_le hall.error2 fun _ => rfl
  have hdigest := h.digest.size_le hall.digest fun _ => rfl
  have hxhash := h.xhash.size_le hall.xhash fun _ => rfl
  simp only [Ewf1Metadata.size]
  omega

/-- The estimate is at least the size of every segment with these chunks. -/
theorem length_writeEwf1Segment_le {encoders : Ewf1PayloadEncoders} {spool : Bytes}
    {chunks : List ChunkDescriptor} {options : WriteOptions} {context : Ewf1SegmentWriteContext}
    {out : SegmentOutput Bytes} {groups : List Ewf1TableGroup} {estimate : Nat}
    (hgroups : ewf1TableGroups chunks ewf1TableGroupMaxEntries ewf1TableGroupMaxPayload = .ok groups)
    (hestimate : estimatedEwf1SegmentSize encoders chunks.length (storedSize chunks) groups.length
      options = .ok estimate)
    (h : writeEwf1Segment encoders spool chunks options context = .ok out) :
    out.bytes.length ≤ estimate := by
  obtain ⟨metadata, groups', hmetadata, hgroups', hlength⟩ := length_writeEwf1Segment h
  cases hgroups.symm.trans hgroups'
  have hformat : isEwf2Format options.format = false := by
    simp only [writeEwf1Segment, bind_eq_ok, rejectIf_eq_ok] at h
    obtain ⟨_, hformat, -⟩ := h
    simpa using hformat
  obtain ⟨all, hall, hestimate⟩ := estimatedEwf1SegmentSize_eq hformat hestimate
  have hle := hmetadata.size_le hall
  rw [hlength, hestimate]
  simp only [ewf1SegmentLength]
  omega

/-! ## The bytes of an EWF2 segment -/

/-- The bytes that sections take up. -/
def ewf2PayloadsSize (payloads : List Ewf2Payload) : Nat :=
  (payloads.map fun payload => payload.data.length + Ewf2.sectionDescriptorSize).sum

@[simp] theorem ewf2PayloadsSize_append (xs ys : List Ewf2Payload) :
    ewf2PayloadsSize (xs ++ ys) = ewf2PayloadsSize xs + ewf2PayloadsSize ys := by
  simp [ewf2PayloadsSize]

theorem length_writeEwf2Section (sectionType : Ewf2.SectionType) (payload : Bytes)
    (plan : Ewf2SectionPlan) (out : SegmentOutput Ewf2.SectionType) :
    (writeEwf2Section sectionType payload plan out).bytes.length =
      out.bytes.length + (payload.length + Ewf2.sectionDescriptorSize) := by
  simp [writeEwf2Section]

theorem length_writeEwf2Sections {payloads : List Ewf2Payload} {plans : List Ewf2SectionPlan}
    {state next : Ewf2PlanState} {out : SegmentOutput Ewf2.SectionType}
    (h : planEwf2Sections payloads state = .ok (plans, next)) :
    (writeEwf2Sections out (payloads.zip plans)).bytes.length =
      out.bytes.length + ewf2PayloadsSize payloads := by
  induction payloads generalizing state plans out with
  | nil =>
    cases h
    rfl
  | cons payload payloads ih =>
    obtain ⟨⟨plan, middle⟩, -, h⟩ := bind_eq_ok.mp h
    obtain ⟨⟨plans, last⟩, hrest, h⟩ := bind_eq_ok.mp h
    cases h
    have hstep := @ih plans middle
      (writeEwf2Section payload.sectionType payload.data plan out) hrest
    rw [length_writeEwf2Section] at hstep
    simp only [writeEwf2Sections, List.zip_cons_cons, List.foldl_cons] at hstep ⊢
    rw [hstep]
    simp [ewf2PayloadsSize, Nat.add_assoc]

/-- The size of a written EWF2 segment. -/
theorem length_writeEwf2Segment {codec : Codec} {encoders : Ewf2PayloadEncoders} {spool : Bytes}
    {chunks : List ChunkDescriptor} {options : WriteOptions} {context : Ewf2SegmentWriteContext}
    {out : SegmentOutput Ewf2.SectionType}
    (h : writeEwf2Segment codec encoders spool chunks options context = .ok out) :
    ∃ front back, ewf2FrontSections codec encoders options context = .ok front ∧
      ewf2BackSections codec encoders options context = .ok back ∧
      out.bytes.length = Ewf2.fileHeaderSize + ewf2PayloadsSize front +
        (storedSize chunks + Ewf2.sectionDescriptorSize) +
        (Ewf2.tableHeaderV2Size + chunks.length * Ewf2.tableEntrySize + Ewf2.tableFooterSize +
          Ewf2.sectionDescriptorSize) +
        ewf2PayloadsSize back + Ewf2.sectionDescriptorSize := by
  simp only [writeEwf2Segment, bind_eq_ok, rejectIf_eq_ok, okOr_eq_ok, checkedMul_eq_some,
    Option.bind_eq_some_iff, checkedAdd_eq_some, pure_eq_ok, Except.ok.injEq] at h
  obtain ⟨_, _, _, _, front, hfront, back, hback, _, ⟨_, rfl⟩, _, ⟨_, ⟨_, rfl⟩, _, rfl⟩,
    payloadSize, hpayload, ⟨frontPlans, state₁⟩, hfrontPlans, ⟨sectorsPlan, state₂⟩, _,
    ⟨tablePlan, state₃⟩, _, ⟨backPlans, state₄⟩, hbackPlans, ⟨terminalPlan, state₅⟩,
    _, copied, hcopied, table, htable, rfl⟩ := h
  obtain ⟨_, _, _, htableLength⟩ := Ewf2.ewf2TableData_eq htable
  obtain ⟨data, hholds, hbytes, -, -⟩ := copyChunks_spec hcopied
  refine ⟨front, back, hfront, hback, ?_⟩
  rw [length_writeEwf2Section, length_writeEwf2Sections hbackPlans, length_writeEwf2Section,
    SegmentOutput.bytes_writeDescriptor, hbytes]
  simp only [List.length_append, length_writeEwf2Sections hfrontPlans, hholds.length,
    SegmentOutput.bytes_writeAll, SegmentOutput.empty, Ewf2.length_ewf2FileHeader, htableLength,
    Ewf2.length_sectionDesc, List.length_nil]
  ring

def ewf2OptionalSize : Option Bytes → Nat
  | none => 0
  | some payload => payload.length + Ewf2.sectionDescriptorSize

@[simp] theorem ewf2PayloadsSize_optionalPayload (sectionType : Ewf2.SectionType) (label : String)
    (data : Option Bytes) :
    ewf2PayloadsSize (optionalPayload sectionType label data) = ewf2OptionalSize data := by
  cases data <;> simp [optionalPayload, ewf2PayloadsSize, ewf2OptionalSize]

theorem estimatedOptional_ewf2_eq {payload : Option Bytes} {size : Nat}
    (h : estimatedOptional estimatedEwf2SectionSize payload = .ok size) :
    size = ewf2OptionalSize payload := by
  cases payload with
  | none =>
    cases h
    rfl
  | some payload =>
    rw [estimatedEwf2SectionSize_eq h, ewf2OptionalSize, Nat.add_comm]

theorem estimatedIncrementDataSize_eq {incrementData : List Bytes} {size : Nat}
    (h : estimatedIncrementDataSize incrementData = .ok size) :
    size = ewf2PayloadsSize (incrementData.map (⟨.incrementData, "EWF2 increment data", ·⟩)) := by
  have hfold : ∀ start, incrementData.foldlM (fun total payload => do
      let sectionSize ← estimatedEwf2SectionSize payload.length
      okOr (.malformed "writer estimated EWF2 increment data size overflow")
        (checkedAdd total sectionSize)) start = .ok size →
      size = start + ewf2PayloadsSize
        (incrementData.map (⟨.incrementData, "EWF2 increment data", ·⟩)) := by
    clear h
    induction incrementData with
    | nil =>
      intro start h
      cases h
      rfl
    | cons payload incrementData ih =>
      intro start h
      simp only [List.foldlM_cons, bind_eq_ok, okOr_eq_ok, checkedAdd_eq_some] at h
      obtain ⟨_, ⟨sectionSize, hsection, _, rfl⟩, hrest⟩ := h
      rw [ih _ hrest, estimatedEwf2SectionSize_eq hsection]
      simp only [ewf2PayloadsSize, List.map_cons, List.sum_cons]
      omega
  rw [hfold 0 h, Nat.zero_add]

/-- A section that is written only under a condition. -/
theorem ewf2OptionalSize_ite_le (condition : Prop) [Decidable condition] (data : Option Bytes) :
    ewf2OptionalSize (if condition then data else none) ≤ ewf2OptionalSize data := by
  split
  · exact Nat.le_refl _
  · exact Nat.zero_le _

theorem ewf2OptionalSize_le_of_ite {condition : Prop} [Decidable condition]
    {encoded : Result (Option Bytes)} {data all : Option Bytes}
    (h : (if condition then encoded else .ok none) = .ok data) (hall : encoded = .ok all) :
    ewf2OptionalSize data ≤ ewf2OptionalSize all := by
  split at h
  · cases h.symm.trans hall
    exact Nat.le_refl _
  · cases h
    exact Nat.zero_le _

/-- The text of an application data section, encoded where there is one. -/
def ewf2Text (codec : Codec) (encoders : Ewf2PayloadEncoders) (options : WriteOptions) :
    Option String → Result (Option Bytes)
  | some data => (ewf2StringSectionPayload codec encoders data options).map some
  | none => .ok none

/-- The payloads of all metadata sections that can fail to be encoded. -/
structure Ewf2Metadata where
  deviceInformation : Bytes
  caseData : Bytes
  errorTable : Option Bytes
  sessionTable : Option Bytes
  singleFilesData : Option Bytes
  analyticalData : Option Bytes
  restartData : Option Bytes

structure Ewf2Metadata.Encoded (codec : Codec) (encoders : Ewf2PayloadEncoders)
    (options : WriteOptions) (sectorCount totalChunkCount : Nat) (metadata : Ewf2Metadata) : Prop where
  deviceInformation : ewf2DeviceInformationSectionPayload codec
    (encoders.deviceInformation options sectorCount totalChunkCount) options =
      .ok metadata.deviceInformation
  caseData : ewf2MetadataSectionPayload codec (encoders.caseData options totalChunkCount)
    options.compression options.compressionValues.level = .ok metadata.caseData
  errorTable : encoders.errorTable options.acquisitionErrors = .ok metadata.errorTable
  sessionTable : encoders.sessionTable options.sessions options.tracks = .ok metadata.sessionTable
  singleFilesData : (match options.singleFiles with
    | some catalog => (encoders.singleFilesData catalog).map some
    | none => .ok none) = .ok metadata.singleFilesData
  analyticalData : ewf2Text codec encoders options options.ewf2AnalyticalData =
    .ok metadata.analyticalData
  restartData : ewf2Text codec encoders options options.ewf2RestartData = .ok metadata.restartData

/-- The size of all sections ahead of the sector data. -/
def Ewf2Metadata.frontSize (encoders : Ewf2PayloadEncoders) (options : WriteOptions)
    (metadata : Ewf2Metadata) : Nat :=
  (metadata.deviceInformation.length + Ewf2.sectionDescriptorSize) +
    (metadata.caseData.length + Ewf2.sectionDescriptorSize) +
    ewf2OptionalSize metadata.errorTable + ewf2OptionalSize metadata.sessionTable +
    ewf2OptionalSize (encoders.memoryExtentsTable options.memoryExtents) +
    ewf2PayloadsSize (options.ewf2IncrementData.map (⟨.incrementData, "EWF2 increment data", ·⟩)) +
    ewf2OptionalSize metadata.singleFilesData +
    ewf2OptionalSize (encoders.singleFilesTable0x21 options) +
    ewf2OptionalSize (encoders.singleFilesMd5HashTable options) +
    ewf2OptionalSize (encoders.singleFilesTable0x23 options)

/-- The size of all sections behind the sector table. -/
def Ewf2Metadata.backSize (encoders : Ewf2PayloadEncoders) (options : WriteOptions)
    (metadata : Ewf2Metadata) : Nat :=
  ewf2OptionalSize (options.hashes.md5.map encoders.hash) +
    ewf2OptionalSize (options.hashes.sha1.map encoders.hash) +
    ewf2OptionalSize options.ewf2FinalInformation + ewf2OptionalSize metadata.analyticalData +
    ewf2OptionalSize metadata.restartData

theorem ewf2FrontSections_size_le {codec : Codec} {encoders : Ewf2PayloadEncoders}
    {options : WriteOptions} {context : Ewf2SegmentWriteContext} {front : List Ewf2Payload}
    {metadata : Ewf2Metadata}
    (hall : metadata.Encoded codec encoders options context.sectorCount
      context.totalChunkCount.toNat)
    (h : ewf2FrontSections codec encoders options context = .ok front) :
    ewf2PayloadsSize front ≤ metadata.frontSize encoders options := by
  simp only [ewf2FrontSections, bind_eq_ok, pure_eq_ok, Except.ok.injEq] at h
  obtain ⟨device, hdevice, caseData, hcase, errorTable, herror, sessionTable, hsession,
    singleFiles, hsingle, rfl⟩ := h
  cases hdevice.symm.trans hall.deviceInformation
  cases hcase.symm.trans hall.caseData
  have hsingleLe : ewf2OptionalSize singleFiles ≤ ewf2OptionalSize metadata.singleFilesData := by
    have hencoded := hall.singleFilesData
    cases hcatalog : options.singleFiles with
    | none =>
      rw [hcatalog] at hsingle
      cases hsingle
      exact Nat.zero_le _
    | some catalog =>
      rw [hcatalog] at hsingle hencoded
      exact ewf2OptionalSize_le_of_ite hsingle hencoded
  have herrorLe := ewf2OptionalSize_le_of_ite herror hall.errorTable
  have hsessionLe := ewf2OptionalSize_le_of_ite hsession hall.sessionTable
  have hmemoryLe := ewf2OptionalSize_ite_le (context.segmentNumber = 1)
    (encoders.memoryExtentsTable options.memoryExtents)
  have hdoneLe := ewf2OptionalSize_ite_le (context.terminalSection = .done)
  have hincrementLe : ewf2PayloadsSize ((if context.segmentNumber = 1 then options.ewf2IncrementData
      else []).map (⟨.incrementData, "EWF2 increment data", ·⟩)) ≤
      ewf2PayloadsSize (options.ewf2IncrementData.map (⟨.incrementData, "EWF2 increment data", ·⟩)) := by
    split
    · exact Nat.le_refl _
    · exact Nat.zero_le _
  have h0x21 := hdoneLe (encoders.singleFilesTable0x21 options)
  have hmd5 := hdoneLe (encoders.singleFilesMd5HashTable options)
  have h0x23 := hdoneLe (encoders.singleFilesTable0x23 options)
  simp only [ewf2PayloadsSize_append, ewf2PayloadsSize_optionalPayload, Ewf2Metadata.frontSize]
  have hfixed : ewf2PayloadsSize [⟨.deviceInformation, "EWF2 device information",
      metadata.deviceInformation⟩, ⟨.caseData, "EWF2 case data", metadata.caseData⟩] =
      (metadata.deviceInformation.length + Ewf2.sectionDescriptorSize) +
        (metadata.caseData.length + Ewf2.sectionDescriptorSize) := by
    simp [ewf2PayloadsSize]
  rw [hfixed]
  gcongr

theorem ewf2BackSections_size_le {codec : Codec} {encoders : Ewf2PayloadEncoders}
    {options : WriteOptions} {context : Ewf2SegmentWriteContext} {back : List Ewf2Payload}
    {metadata : Ewf2Metadata}
    (hall : metadata.Encoded codec encoders options context.sectorCount
      context.totalChunkCount.toNat)
    (h : ewf2BackSections codec encoders options context = .ok back) :
    ewf2PayloadsSize back ≤ metadata.backSize encoders options := by
  unfold ewf2BackSections at h
  split at h
  · simp only [bind_eq_ok, pure_eq_ok, Except.ok.injEq] at h
    obtain ⟨analytical, hanalytical, restart, hrestart, rfl⟩ := h
    cases hanalytical.symm.trans hall.analyticalData
    cases hrestart.symm.trans hall.restartData
    simp only [ewf2PayloadsSize_append, ewf2PayloadsSize_optionalPayload, Ewf2Metadata.backSize]
    exact Nat.le_refl _
  · cases h
    exact Nat.zero_le _

theorem estimatedEwf2SegmentSize_eq {codec : Codec} {encoders : Ewf2PayloadEncoders}
    {chunkCount chunkPayloadSize sectorCount totalChunkCount estimate : Nat} {options : WriteOptions}
    (h : estimatedEwf2SegmentSize codec encoders chunkCount chunkPayloadSize options sectorCount
      totalChunkCount = .ok estimate) :
    ∃ metadata : Ewf2Metadata,
      metadata.Encoded codec encoders options sectorCount totalChunkCount ∧
      estimate = Ewf2.fileHeaderSize + metadata.frontSize encoders options +
        (chunkPayloadSize + Ewf2.sectionDescriptorSize) +
        (Ewf2.tableHeaderV2Size + chunkCount * Ewf2.tableEntrySize + Ewf2.tableFooterSize +
          Ewf2.sectionDescriptorSize) +
        metadata.backSize encoders options + Ewf2.sectionDescriptorSize := by
  simp only [estimatedEwf2SegmentSize, bind_eq_ok, okOr_eq_ok, checkedMul_eq_some,
    Option.bind_eq_some_iff, checkedAdd_eq_some] at h
  obtain ⟨device, hdevice, caseData, hcase, errorTable, herror, sessionTable, hsession,
    increment, hincrement, final, hfinal, analytical, hanalytical, restart, hrestart, entryBytes,
    ⟨_, hentryBytes⟩, tableSize, ⟨headed, ⟨_, hheaded⟩, _, htableSize⟩, s₁, h₁, s₂, h₂, s₃, h₃, s₄, h₄,
    s₅, h₅, s₆, h₆, s₇, h₇, s₈, h₈, s₉, h₉, s₁₀, h₁₀, s₁₁, h₁₁, s₁₂, h₁₂, s₁₃, h₁₃, s₁₄, h₁₄, single,
    hsingle, s₁₅, h₁₅, hsum⟩ := h
  refine ⟨⟨device, caseData, errorTable, sessionTable, single, analytical, restart⟩,
    ⟨hdevice, hcase, herror, hsession, hsingle, hanalytical, hrestart⟩, ?_⟩
  rw [checkedSum_eq hsum]
  rw [estimatedIncrementDataSize_eq hincrement, estimatedOptional_ewf2_eq hfinal,
    estimatedEwf2SectionSize_eq h₁, estimatedEwf2SectionSize_eq h₂, estimatedOptional_ewf2_eq h₃,
    estimatedOptional_ewf2_eq h₄, estimatedOptional_ewf2_eq h₅, estimatedOptional_ewf2_eq h₆,
    estimatedOptional_ewf2_eq h₇, estimatedOptional_ewf2_eq h₈, estimatedEwf2SectionSize_eq h₉,
    estimatedEwf2SectionSize_eq h₁₀, estimatedOptional_ewf2_eq h₁₁, estimatedOptional_ewf2_eq h₁₂,
    estimatedOptional_ewf2_eq h₁₃, estimatedOptional_ewf2_eq h₁₄, estimatedOptional_ewf2_eq h₁₅,
    ← htableSize, ← hheaded, ← hentryBytes]
  simp only [List.sum_cons, List.sum_nil, Ewf2Metadata.frontSize, Ewf2Metadata.backSize]
  ring

/-- The estimate is at least the size of every segment with these chunks. -/
theorem length_writeEwf2Segment_le {codec : Codec} {encoders : Ewf2PayloadEncoders} {spool : Bytes}
    {chunks : List ChunkDescriptor} {options : WriteOptions} {context : Ewf2SegmentWriteContext}
    {out : SegmentOutput Ewf2.SectionType} {estimate : Nat}
    (hestimate : estimatedEwf2SegmentSize codec encoders chunks.length (storedSize chunks) options
      context.sectorCount context.totalChunkCount.toNat = .ok estimate)
    (h : writeEwf2Segment codec encoders spool chunks options context = .ok out) :
    out.bytes.length ≤ estimate := by
  obtain ⟨front, back, hfront, hback, hlength⟩ := length_writeEwf2Segment h
  obtain ⟨metadata, hall, rfl⟩ := estimatedEwf2SegmentSize_eq hestimate
  have hfrontLe := ewf2FrontSections_size_le hall hfront
  have hbackLe := ewf2BackSections_size_le hall hback
  rw [hlength]
  gcongr

end EwfImage
