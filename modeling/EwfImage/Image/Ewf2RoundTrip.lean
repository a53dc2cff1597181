import EwfImage.Image.Index
import EwfImage.Image.Lookup
import EwfImage.Writer.Ewf2SegmentCorrect

/-!
# Reading back a written EWF2 segment

The first bytes behind the file header of a written segment are those of a zlib
stream, which name no section type, so a strict reader turns to the trailing
descriptors. It finds the sections that were written, and in the sector table one
entry for each chunk.

The main result is `readBack_of_writeEwf2Segment`, about every segment that the writer emits and
both strictnesses of the reader. A strict reader comes to the trailing descriptors, and so does
a lenient one unless the first bytes behind the file header are taken for a leading descriptor;
then it finds the written sections, and the lookup of each chunk gives its place, size and
flags, unless the chunk is a pattern that was not marked as compressed. The digest of the
sections and the compression of their texts are parameters; `not_readBack_of_any_segment` shows
both exceptions.
-/

namespace EwfImage.Ewf2

open Fallible LittleEndian Slice Word Tiling

/-- Every zlib stream starts with a compression method and flags, and the two bytes are a
multiple of 31. -/
def ZlibHeader (codec : Codec) : Prop :=
  ∀ level data, ∃ cmf flg rest, codec.zlibEncode level data = cmf :: flg :: rest ∧
    cmf.toNat % 16 = 8 ∧ (cmf.toNat * 256 + flg.toNat) % 31 = 0

section Leading

variable (md5 : Bytes → Bytes) (file : SegmentFile) (strictness : OpenStrictness)

/-- The bytes behind the file header are not taken for a leading descriptor, so that the scan goes
on with the chain at the end of the file. -/
def LeadingRejected : Prop :=
  ∃ reason, leadingStep md5 file strictness fileHeaderSize = .ok (.reject reason)

theorem scanEwf2LeadingSections_of_rejected (h : LeadingRejected md5 file strictness) :
    scanEwf2LeadingSections md5 file strictness = .ok none := by
  obtain ⟨reason, hstep⟩ := h
  rw [scanEwf2LeadingSections, scanEwf2LeadingFrom]
  split
  · rename_i e hfailed
    rw [hstep] at hfailed
    cases hfailed
  · rfl
  · rename_i entry next hfound
    rw [hstep] at hfound
    cases hfound

/-- Behind a leading section the walk ends at a terminal one or fails. -/
theorem scanEwf2LeadingFrom_ne_none (offset : Nat) :
    scanEwf2LeadingFrom md5 file strictness offset false ≠ .ok none := by
  generalize hfirst : false = isFirst
  fun_induction scanEwf2LeadingFrom md5 file strictness offset isFirst with
  | case1 => simp
  | case2 => cases hfirst
  | case3 => simp
  | case4 => simp
  | case5 => simp
  | case6 offset isFirst entry next _ _ _ ih =>
    have hrest := ih rfl
    cases hscan : scanEwf2LeadingFrom md5 file strictness next false with
    | error e => simp [Except.map]
    | ok rest =>
      cases rest with
      | none => exact absurd hscan hrest
      | some rest => simp [Except.map]

/-- Otherwise whatever sections are returned have leading descriptors. -/
theorem layout_of_scanEwf2LeadingSections {result : Option (List Ewf2Section)}
    (hnot : ¬ LeadingRejected md5 file strictness)
    (h : scanEwf2LeadingSections md5 file strictness = .ok result) :
    ∃ entry rest, result = some (entry :: rest) ∧ entry.layout = .leadingDescriptor := by
  rw [scanEwf2LeadingSections, scanEwf2LeadingFrom] at h
  split at h
  · cases h
  · rename_i reason hrejected
    exact absurd ⟨reason, hrejected⟩ hnot
  · rename_i entry next hfound
    have hlayout := (leadingStep_found md5 file strictness hfound).2
    split at h
    · cases h
      exact ⟨entry, [], rfl, hlayout⟩
    · split at h
      · cases h
      · cases hrest : scanEwf2LeadingFrom md5 file strictness next false with
        | error e =>
          rw [hrest] at h
          cases h
        | ok rest =>
          rw [hrest] at h
          simp only [Except.map, Except.ok.injEq] at h
          subst h
          cases rest with
          | none => exact absurd hrest (scanEwf2LeadingFrom_ne_none md5 file strictness next)
          | some rest => exact ⟨entry, rest, rfl, hlayout⟩

theorem layout_of_scanEwf2Sections {sections : List Ewf2Section}
    (hnot : ¬ LeadingRejected md5 file strictness)
    (h : scanEwf2Sections md5 file strictness = .ok sections) :
    ∃ found ∈ sections, found.layout = .leadingDescriptor := by
  obtain ⟨_, _, hrest⟩ := bind_eq_ok.mp h
  obtain ⟨result, hleading, hrest⟩ := bind_eq_ok.mp hrest
  obtain ⟨entry, rest, rfl, hlayout⟩ :=
    layout_of_scanEwf2LeadingSections md5 file strictness hnot hleading
  have hsections : entry :: rest = sections := Except.ok.inj hrest
  rw [← hsections]
  exact ⟨entry, List.mem_cons_self, hlayout⟩

/-- A descriptor of an unknown type is rejected by a strict reader, one of another size by every
reader. -/
theorem leadingRejected_of_invalid
    (hlength : fileHeaderSize + sectionDescriptorSize ≤ file.bytes.length)
    (h : leAt file.bytes (fileHeaderSize + 24) 4 ≠ sectionDescriptorSize ∨
      strictness = .strict ∧ (SectionType.ofNat (leAt file.bytes fileHeaderSize 4)).isUnknown = true) :
    LeadingRejected md5 file strictness := by
  have hbound := file.length_lt
  refine ⟨"EWF2 leading section descriptor is invalid", ?_⟩
  have hfits : checkedAdd fileHeaderSize sectionDescriptorSize =
      some (fileHeaderSize + sectionDescriptorSize) :=
    checkedAdd_eq_some.mpr ⟨by omega, rfl⟩
  have hbuf : (slice file.bytes fileHeaderSize sectionDescriptorSize).length =
      sectionDescriptorSize :=
    length_slice_of_le hlength
  unfold leadingStep
  rw [hfits, if_neg (by simpa using hlength), readExactAt_of_le hlength, ok_bind]
  unfold SectionDescriptor.parse
  rw [rejectIf_neg _ (by omega), ok_bind]
  simp only [pure_eq_ok]
  rw [if_neg]
  have htype : leAt (slice file.bytes fileHeaderSize sectionDescriptorSize) 0 4 =
      leAt file.bytes fileHeaderSize 4 := by
    rw [leAt, slice_slice (by decide), Nat.add_zero, leAt]
  have hsize : leAt (slice file.bytes fileHeaderSize sectionDescriptorSize) 24 4 =
      leAt file.bytes (fileHeaderSize + 24) 4 := by
    rw [leAt, slice_slice (by decide), leAt]
  rw [isValidEwf2Descriptor]
  dsimp only
  rw [htype, hsize]
  rcases h with hother | ⟨rfl, hunknown⟩
  · simp [hother]
  · simp [hunknown]

end Leading

/-! ## The sections of a written segment -/

/-- The first two bytes of a zlib stream are not the type of a section. -/
theorem isUnknown_of_zlibHeader {cmf flg : UInt8} {rest : Bytes} (hmethod : cmf.toNat % 16 = 8)
    (hcheck : (cmf.toNat * 256 + flg.toNat) % 31 = 0) :
    (SectionType.ofNat (fromLE (cmf :: flg :: rest))).isUnknown = true := by
  apply SectionType.isUnknown_ofNat
  intro sectionType hknown heq
  have hlt := SectionType.code_lt hknown
  simp only [fromLE] at heq
  have hflg : flg.toNat = 0 := by omega
  have hcmf : cmf.toNat = 8 ∨ cmf.toNat = 24 := by omega
  rw [hflg] at hcheck
  rcases hcmf with hcmf | hcmf
  · rw [hcmf] at hcheck
    cases hcheck
  · rw [hcmf] at hcheck
    cases hcheck

/-- The sections of a segment are those that were written, each with its data ahead of its
descriptor, one behind the other up to the end of the file, and the last one is the terminal
section. -/
structure ListsSections (file : SegmentFile) (out : SegmentOutput SectionType)
    (terminal : TerminalSection) (sections : List Ewf2Section) : Prop where
  emitted : sections.map (fun found => (found.desc.sectionType, found.desc.offset)) =
    out.descriptors
  contiguous : Tiles (·.dataOffset) sectionSpan fileHeaderSize sections file.bytes.length
  placed : ∀ found ∈ sections, found.layout = .trailingDescriptor ∧
    found.desc.offset = found.dataOffset + found.dataSize ∧ found.desc.dataSize = found.dataSize ∧
    found.desc.paddingSize = 0
  last : sections.getLast?.map (·.desc.sectionType) = some terminal.ewf2Type

section Segment

variable {codec : Codec} {spool : Bytes} {file : SegmentFile} {out : SegmentOutput SectionType}
  {chunks : List ChunkDescriptor} {options : WriteOptions} {context : Ewf2SegmentWriteContext}
  {front back : List ChainEntry} {data table : Bytes}

theorem SegmentShape.readable
    (h : SegmentShape codec spool out chunks options context front back data table) :
    ∀ entry ∈ segmentEntries front back data table context.terminalSection, entry.Readable := by
  intro entry hentry
  simp only [segmentEntries, List.mem_append, List.mem_cons, List.not_mem_nil, or_false] at hentry
  rcases hentry with ((hentry | rfl | rfl) | hentry) | rfl
  · exact (SectionType.readable_of_isMetadata _ (h.metadata entry (by simp [hentry]))).1
  · exact ⟨rfl, by simp⟩
  · exact ⟨rfl, by simp⟩
  · exact (SectionType.readable_of_isMetadata _ (h.metadata entry (by simp [hentry]))).1
  · cases context.terminalSection <;> exact ⟨rfl, by simp [TerminalSection.ewf2Type]⟩

theorem SegmentShape.length
    (h : SegmentShape codec spool out chunks options context front back data table)
    (hfile : file.bytes = out.bytes) :
    file.bytes.length = fileHeaderSize +
      chainSize (segmentEntries front back data table context.terminalSection) := by
  rw [hfile, h.bytes, List.length_append, length_chainBytes, length_ewf2FileHeader]

theorem SegmentShape.length_ge
    (h : SegmentShape codec spool out chunks options context front back data table)
    (hfile : file.bytes = out.bytes) :
    fileHeaderSize + sectionDescriptorSize ≤ file.bytes.length := by
  have hlength := h.length hfile
  have hsize := length_le_chainSize (segmentEntries front back data table context.terminalSection)
  have hcount : 1 ≤ (segmentEntries front back data table context.terminalSection).length := by
    simp only [segmentEntries, List.length_append, List.length_cons]
    omega
  have hmul := Nat.mul_le_mul_left sectionDescriptorSize hcount
  omega

theorem SegmentShape.listsSections
    (h : SegmentShape codec spool out chunks options context front back data table)
    (hfile : file.bytes = out.bytes) :
    ListsSections file out context.terminalSection (locate fileHeaderSize 0
      (segmentEntries front back data table context.terminalSection)) := by
  refine ⟨?_, ?_, ?_, ?_⟩
  · rw [descriptors_locate, h.descriptors]
  · rw [h.length hfile]
    exact locate_tiles _ _ _
  · intro found hfound
    obtain ⟨entry, _, start, before, rfl⟩ := mem_locate hfound
    exact ⟨rfl, rfl, rfl, rfl⟩
  · rw [segmentEntries, locate_append]
    simp [locate, ChainEntry.located, plainDescriptor]

/-- Behind the file header are the first bytes of a zlib stream. -/
theorem SegmentShape.leadingRejected_of_strict (md5 : Bytes → Bytes) (hzlib : ZlibHeader codec)
    (h : SegmentShape codec spool out chunks options context front back data table)
    (hfile : file.bytes = out.bytes) : LeadingRejected md5 file .strict := by
  refine leadingRejected_of_invalid md5 file .strict (h.length_ge hfile) (.inr ⟨rfl, ?_⟩)
  obtain ⟨text, others, hfront⟩ := h.device
  obtain ⟨cmf, flg, rest, hstream, hmethod, hcheck⟩ := hzlib options.compressionValues.level text
  have hheader := length_ewf2FileHeader options context.segmentNumber
  have hbytes : ∃ behind, file.bytes =
      ewf2FileHeader options context.segmentNumber ++ cmf :: flg :: behind := by
    rw [hfile, h.bytes, segmentEntries, hfront, hstream]
    exact ⟨_, rfl⟩
  obtain ⟨behind, hbytes⟩ := hbytes
  have hfield : leAt file.bytes fileHeaderSize 4 = fromLE (cmf :: flg :: behind.take 2) := by
    rw [leAt, hbytes, slice_append_right (by omega), hheader, Nat.sub_self]
    rfl
  rw [hfield]
  exact isUnknown_of_zlibHeader hmethod hcheck

theorem SegmentShape.scan_iff (md5 : Bytes → Bytes) (strictness : OpenStrictness)
    (h : SegmentShape codec spool out chunks options context front back data table)
    (hfile : file.bytes = out.bytes) :
    scanEwf2Sections md5 file strictness = .ok (locate fileHeaderSize 0
        (segmentEntries front back data table context.terminalSection)) ↔
      LeadingRejected md5 file strictness := by
  by_cases hrejected : LeadingRejected md5 file strictness
  · have hlength := h.length_ge hfile
    have htrailing := scanEwf2TrailingSections_chain md5 strictness
      (length_ewf2FileHeader options context.segmentNumber) h.readable (by simp [segmentEntries])
      (hfile.trans h.bytes)
    unfold scanEwf2Sections
    rw [rejectIf_neg _ (by omega), ok_bind,
      scanEwf2LeadingSections_of_rejected md5 file strictness hrejected, ok_bind, htrailing]
    exact iff_of_true rfl hrejected
  · refine iff_of_false ?_ hrejected
    intro hscan
    obtain ⟨found, hfound, hlayout⟩ :=
      layout_of_scanEwf2Sections md5 file strictness hrejected hscan
    obtain ⟨_, _, _, _, rfl⟩ := mem_locate hfound
    cases hlayout

/-! ## The range of the sector table -/

theorem parse_ewf2FileHeader (options : WriteOptions) (segmentNumber : UInt32) :
    (FileHeader.parse (ewf2FileHeader options segmentNumber)).map (·.compressionMethod) =
      .ok (.ofU16 (ewf2CompressionMethod options.compression)) := by
  have hlength := length_ewf2FileHeader options segmentNumber
  have hsignature : (ewf2Signature options.format).length = 8 := by
    unfold ewf2Signature
    split <;> rfl
  have hfirst : slice (ewf2FileHeader options segmentNumber) 0 8 = ewf2Signature options.format := by
    rw [ewf2FileHeader, slice_append_left (by omega), ← hsignature, slice_all]
  have hfield : leAt (ewf2FileHeader options segmentNumber) 10 2 =
      (ewf2CompressionMethod options.compression).toNat := by
    rw [leAt, ewf2FileHeader, slice_append_right (by omega), hsignature,
      slice_append_right (by simp), ← leAt]
    exact leAt_toLE _ (UInt16.toNat_lt _)
  have hknown : ¬ (ewf2Signature options.format ≠ ex01Signature ∧
      ewf2Signature options.format ≠ lef2Signature) := by
    unfold ewf2Signature
    split <;> decide
  unfold FileHeader.parse
  rw [rejectIf_neg _ (by omega), ok_bind]
  dsimp only
  rw [hfirst, rejectIf_neg _ hknown, ok_bind, hfield]
  simp [Except.map]

/-- The data of the sector table stands behind the sections ahead of it. -/
theorem SegmentShape.table_bytes
    (h : SegmentShape codec spool out chunks options context front back data table)
    (hfile : file.bytes = out.bytes) :
    ∃ pre post, file.bytes = pre ++ (table ++ post) ∧
      pre.length = fileHeaderSize + chainSize (front ++ [⟨.sectorData, data⟩]) := by
  refine ⟨ewf2FileHeader options context.segmentNumber ++
    chainBytes fileHeaderSize 0 (front ++ [⟨.sectorData, data⟩]), ?_⟩
  have hentries : segmentEntries front back data table context.terminalSection =
      (front ++ [⟨.sectorData, data⟩]) ++ (⟨.sectorTable, table⟩ ::
        (back ++ [⟨context.terminalSection.ewf2Type, []⟩])) := by
    simp [segmentEntries]
  rw [hfile, h.bytes, hentries, chainBytes_append, chainBytes]
  simp only [List.append_assoc]
  refine ⟨_, rfl, ?_⟩
  rw [List.length_append, length_chainBytes, length_ewf2FileHeader]

theorem SegmentShape.filter_sectorTable
    (h : SegmentShape codec spool out chunks options context front back data table) :
    (locate fileHeaderSize 0 (segmentEntries front back data table
        context.terminalSection)).filter (·.desc.sectionType = .sectorTable) =
      [(⟨.sectorTable, table⟩ : ChainEntry).located
        (fileHeaderSize + chainSize (front ++ [⟨.sectorData, data⟩]))
        (lastDescriptor fileHeaderSize 0 (front ++ [⟨.sectorData, data⟩]))] := by
  have hentries : segmentEntries front back data table context.terminalSection =
      (front ++ [⟨.sectorData, data⟩]) ++ (⟨.sectorTable, table⟩ ::
        (back ++ [⟨context.terminalSection.ewf2Type, []⟩])) := by
    simp [segmentEntries]
  have hothers : ∀ (entries : List ChainEntry) (offset previous : Nat),
      (∀ entry ∈ entries, entry.sectionType ≠ .sectorTable) →
      (locate offset previous entries).filter (·.desc.sectionType = .sectorTable) = [] := by
    intro entries offset previous hall
    rw [List.filter_eq_nil_iff]
    intro found hfound
    obtain ⟨entry, hentry, _, _, rfl⟩ := mem_locate hfound
    simp [ChainEntry.located, plainDescriptor, hall entry hentry]
  have hmetadata : ∀ entry ∈ front ++ back, entry.sectionType ≠ .sectorTable := fun entry hentry =>
    (SectionType.readable_of_isMetadata [] (h.metadata entry hentry)).2
  have hbefore : ∀ entry ∈ front ++ [(⟨.sectorData, data⟩ : ChainEntry)],
      entry.sectionType ≠ .sectorTable := by
    intro entry hentry
    rcases List.mem_append.mp hentry with hentry | hentry
    · exact hmetadata entry (List.mem_append_left _ hentry)
    · rw [List.mem_singleton.mp hentry]
      simp
  have hbehind : ∀ entry ∈ back ++ [(⟨context.terminalSection.ewf2Type, []⟩ : ChainEntry)],
      entry.sectionType ≠ .sectorTable := by
    intro entry hentry
    rcases List.mem_append.mp hentry with hentry | hentry
    · exact hmetadata entry (List.mem_append_right _ hentry)
    · rw [List.mem_singleton.mp hentry]
      cases context.terminalSection <;> simp [TerminalSection.ewf2Type]
  rw [hentries, locate_append, List.filter_append, hothers _ _ _ hbefore, List.nil_append, locate,
    List.filter_cons_of_pos (by simp [ChainEntry.located, plainDescriptor]),
    hothers _ _ _ hbehind]

/-- The range of a written sector table. -/
def writtenRange (segmentIndex firstChunk chunkCount tableOffset : Nat) (method : CompressionMethod) :
    TableRange where
  kind := .ewf2
  segmentIndex
  firstChunk
  chunkCount
  entriesOffset := tableOffset + tableHeaderV2Size
  baseOffset := 0
  dataEnd := none
  ewf1AllowLargeCompressedChunks := false
  ewf1CompressionMethod := none
  ewf2CompressionMethod := some method.toU16

theorem ewf2TableRange_written {pre post : Bytes} {firstChunk dataOffset : Nat}
    (segmentIndex previous : Nat) (method : CompressionMethod)
    (htable : ewf2TableData firstChunk chunks.length dataOffset chunks = .ok table)
    (hfile : file.bytes = pre ++ (table ++ post)) (hfirst : firstChunk < u64Limit)
    (hcount : chunks.length < u32Limit) :
    ewf2TableRange file segmentIndex method
        ((⟨.sectorTable, table⟩ : ChainEntry).located pre.length previous) =
      .ok (if chunks.length = 0 then none
        else some (writtenRange segmentIndex firstChunk chunks.length pre.length method)) := by
  have hbound := file.length_lt
  obtain ⟨entries, hentries, hparts, hsize⟩ := ewf2TableData_eq htable
  have hentriesLength := length_ewf2TableEntries hentries
  have hheaderLength := length_tableHeader firstChunk chunks.length
  have hlength : file.bytes.length = pre.length + (table.length + post.length) := by
    rw [hfile]
    simp
  have hheader : slice file.bytes pre.length tableHeaderV2Size =
      tableHeader firstChunk chunks.length := by
    have hmiddle := slice_append_middle pre (tableHeader firstChunk chunks.length)
      (entries ++ toLE 4 (adler32 entries) ++ List.replicate (tableFooterSize - 4) 0 ++ post)
    rw [hheaderLength] at hmiddle
    rw [hfile, hparts]
    simpa [List.append_assoc] using hmiddle
  have hchecksum : Ewf1.validatePresentAdler32Checksum (tableHeader firstChunk chunks.length) 16 16
      "EWF2 table header" = .ok () :=
    Ewf1.validatePresentAdler32Checksum_of_bytes _ _ _ (length_tableHeaderBody _ _)
  have hdataOffset : ((⟨.sectorTable, table⟩ : ChainEntry).located pre.length previous).dataOffset =
    pre.length := rfl
  have hdataSize : ((⟨.sectorTable, table⟩ : ChainEntry).located pre.length previous).dataSize =
    table.length := rfl
  have hlayout : ((⟨.sectorTable, table⟩ : ChainEntry).located pre.length previous).layout =
    .trailingDescriptor := rfl
  generalize (⟨.sectorTable, table⟩ : ChainEntry).located pre.length previous = found at *
  have hparse := parse_tableHeader hfirst hcount
  unfold ewf2TableRange
  rw [hlayout, hdataSize, hdataOffset]
  dsimp only
  rw [rejectIf_neg _ (by omega), ok_bind, if_pos (by omega), readExactAt_of_le (by omega), ok_bind,
    hheader, hchecksum, ok_bind, hparse, ok_bind]
  dsimp only
  by_cases hnone : chunks.length = 0
  · simp [hnone]
  · rw [if_neg hnone, if_neg hnone]
    have hentriesBytes : checkedMul chunks.length tableEntrySize = some entries.length := by
      rw [checkedMul_eq_some]
      omega
    have hplace : (pre ++ tableHeader firstChunk chunks.length).length =
        pre.length + tableHeaderV2Size := by
      rw [List.length_append, hheaderLength]
    have hentriesAt : file.bytes = pre ++ tableHeader firstChunk chunks.length ++
        (entries ++ (toLE 4 (adler32 entries) ++
          (List.replicate (tableFooterSize - 4) 0 ++ post))) := by
      rw [hfile, hparts]
      simp only [List.append_assoc]
    have hvalid := validatePresentTableEntriesChecksum_of_bytes _ _ _ "EWF2 table entries" hentriesAt
    rw [hplace] at hvalid
    have hbehind : tableHeaderV2Size + entries.length + tableFooterSize = table.length := by omega
    have hfooter : 0 < tableFooterSize := by decide
    rw [hentriesBytes, okOr_some, ok_bind, ok_bind, checkedAdd_of_lt (by omega), okOr_some, ok_bind,
      checkedAdd_of_lt (by omega), okOr_some, ok_bind, checkedAdd_of_lt (by omega), okOr_some,
      ok_bind, rejectIf_neg _ (by omega), ok_bind, checkedAdd_of_lt (by omega), Option.any_some,
      if_pos (by simp; omega), hvalid, ok_bind]
    rfl

/-! ## The chunks -/

/-- The kind of a written chunk. -/
def writtenKind (method : CompressionMethod) (chunk : ChunkDescriptor) : ChunkKind :=
  if chunk.patternFill.isSome then .patternFill
  else if chunk.compressed then .compressed method
  else .raw

theorem flagKind_eq_writtenKind (method : CompressionMethod) (chunk : ChunkDescriptor) :
    flagKind method chunk.compressed chunk.patternFill.isSome = writtenKind method chunk ↔
      (chunk.patternFill.isSome → chunk.compressed) := by
  unfold flagKind writtenKind
  cases chunk.compressed <;> cases chunk.patternFill.isSome <;> simp

/-- A table entry of a chunk that was written at `placement`. The kind is a matter of its own. -/
structure Describes (entry : TableEntry) (placement : Nat) (chunk : ChunkDescriptor) : Prop where
  offset : entry.chunkDataOffset = chunk.patternFill.getD (UInt64.ofNat placement)
  size : entry.chunkDataSize.toNat = chunk.dataSize
  checksum : entry.flags &&& chunkFlagHasChecksum ≠ 0 ↔ chunk.hasChecksum

/-- The ranges lead to exactly the chunks of a segment: they cover the numbers of its chunks and no
others, each chunk has its spooled bytes at its placement, and the entry that the range has for it
describes the chunk there. -/
structure FindsChunks (spool : Bytes) (file : SegmentFile) (out : SegmentOutput SectionType)
    (chunks : List ChunkDescriptor) (readTable : Nat → Nat → Nat → Result Bytes)
    (firstChunk : Nat) (method : CompressionMethod) (ranges : List TableRange) : Prop where
  covers : TableRange.covers ranges firstChunk (firstChunk + chunks.length)
  others : ∀ chunkId, chunkId < firstChunk ∨ firstChunk + chunks.length ≤ chunkId →
    coveringRange ranges chunkId = none
  found : ∀ i chunk, chunks[i]? = some chunk → ∃ placement range entry,
    out.placements[i]? = some placement ∧ placement < u64Limit ∧
      slice file.bytes placement chunk.dataSize = slice spool chunk.dataOffset chunk.dataSize ∧
      coveringRange ranges (firstChunk + i) = some range ∧ range.firstChunk ≤ firstChunk + i ∧
      readEwf2TableEntry readTable range (firstChunk + i - range.firstChunk) = .ok entry ∧
      Describes entry placement chunk ∧
      (entry.kind = writtenKind method chunk ↔ (chunk.patternFill.isSome → chunk.compressed))

theorem ofU16_toU16_ewf2CompressionMethod (compression : WriteCompression) :
    CompressionMethod.ofU16
        (CompressionMethod.ofU16 (ewf2CompressionMethod compression)).toU16 =
      .ofU16 (ewf2CompressionMethod compression) := by
  cases compression <;> decide

/-- The entry of chunk `i` in a written table. -/
theorem readEwf2TableEntry_written {pre post : Bytes}
    {readTable : Nat → Nat → Nat → Result Bytes} {segmentIndex firstChunk dataOffset i : Nat}
    {chunk : ChunkDescriptor} {method : CompressionMethod}
    (htable : ewf2TableData firstChunk chunks.length dataOffset chunks = .ok table)
    (hfile : file.bytes = pre ++ (table ++ post)) (hread : readTable segmentIndex = file.readExactAt)
    (hmethod : CompressionMethod.ofU16 method.toU16 = method) (hi : chunks[i]? = some chunk) :
    ∃ entry, readEwf2TableEntry readTable
        (writtenRange segmentIndex firstChunk chunks.length pre.length method) i = .ok entry ∧
      Describes entry (dataOffset + storedSize (chunks.take i)) chunk ∧
      (entry.kind = writtenKind method chunk ↔ (chunk.patternFill.isSome → chunk.compressed)) := by
  have hbound := file.length_lt
  have hlt : i < chunks.length := (List.getElem?_eq_some_iff.mp hi).1
  obtain ⟨entries, hentries, hparts, hsize⟩ := ewf2TableData_eq htable
  have hentriesLength := length_ewf2TableEntries hentries
  have hheaderLength := length_tableHeader firstChunk chunks.length
  obtain ⟨hwidth, hentry⟩ := ewf2TableEntries_getElem hentries hi
  have hlength : file.bytes.length = pre.length + (table.length + post.length) := by
    rw [hfile]
    simp
  have hend : i * tableEntrySize + tableEntrySize ≤ chunks.length * tableEntrySize := by
    have hmul := Nat.mul_le_mul_right tableEntrySize hlt
    rw [Nat.succ_mul] at hmul
    exact hmul
  have hslice : slice file.bytes (pre.length + tableHeaderV2Size + i * tableEntrySize)
      tableEntrySize = slice entries (i * tableEntrySize) tableEntrySize := by
    have hplace : (pre ++ tableHeader firstChunk chunks.length).length =
        pre.length + tableHeaderV2Size := by
      rw [List.length_append, hheaderLength]
    have hentriesAt : file.bytes = pre ++ tableHeader firstChunk chunks.length ++
        (entries ++ (toLE 4 (adler32 entries) ++
          (List.replicate (tableFooterSize - 4) 0 ++ post))) := by
      rw [hfile, hparts]
      simp only [List.append_assoc]
    rw [hentriesAt, slice_append_right (by omega), hplace, Nat.add_sub_cancel_left,
      slice_append_left (by omega)]
  have hoffset : tableEntryOffset
      (writtenRange segmentIndex firstChunk chunks.length pre.length method) i tableEntrySize =
      .ok (pre.length + tableHeaderV2Size + i * tableEntrySize) := by
    unfold tableEntryOffset
    rw [checkedMul_of_lt (by omega), okOr_some, ok_bind]
    simp only [writtenRange]
    rw [checkedAdd_of_lt (by omega), okOr_some]
  obtain ⟨_, hchecksum, _⟩ :=
    entryFlags_spec method chunk.compressed chunk.hasChecksum chunk.patternFill.isSome
  unfold readEwf2TableEntry
  rw [hoffset, ok_bind]
  simp only [writtenRange]
  rw [hread, readExactAt_of_le (by omega), ok_bind, okOr_some, ok_bind, hslice, hentry, hmethod,
    parse_tableEntry method _ _ _ hwidth]
  refine ⟨_, rfl, ⟨rfl, ?_, hchecksum⟩, flagKind_eq_writtenKind method chunk⟩
  exact UInt32.toNat_ofNat_of_lt' hwidth

/-- The sector data stands behind the sections ahead of it. -/
theorem SegmentShape.data_bytes
    (h : SegmentShape codec spool out chunks options context front back data table)
    (hfile : file.bytes = out.bytes) :
    ∃ pre post, file.bytes = pre ++ (data ++ post) ∧
      pre.length = fileHeaderSize + chainSize front := by
  refine ⟨ewf2FileHeader options context.segmentNumber ++ chainBytes fileHeaderSize 0 front, ?_⟩
  have hentries : segmentEntries front back data table context.terminalSection =
      front ++ (⟨.sectorData, data⟩ :: (⟨.sectorTable, table⟩ ::
        (back ++ [⟨context.terminalSection.ewf2Type, []⟩]))) := by
    simp [segmentEntries]
  rw [hfile, h.bytes, hentries, chainBytes_append, chainBytes]
  simp only [List.append_assoc]
  refine ⟨_, rfl, ?_⟩
  rw [List.length_append, length_chainBytes, length_ewf2FileHeader]

/-- Chunk `i` is where it was placed. -/
theorem SegmentShape.chunk_bytes {i : Nat} {chunk : ChunkDescriptor}
    (h : SegmentShape codec spool out chunks options context front back data table)
    (hfile : file.bytes = out.bytes) (hi : chunks[i]? = some chunk) :
    fileHeaderSize + chainSize front + storedSize (chunks.take i) < u64Limit ∧
      slice file.bytes (fileHeaderSize + chainSize front + storedSize (chunks.take i))
        chunk.dataSize = slice spool chunk.dataOffset chunk.dataSize := by
  have hbound := file.length_lt
  obtain ⟨pre, post, hbytes, hpre⟩ := h.data_bytes hfile
  have hsplit : storedSize (chunks.take i) + chunk.dataSize ≤ data.length := by
    have hlt : i < chunks.length := (List.getElem?_eq_some_iff.mp hi).1
    have hparts : chunks = chunks.take i ++ (chunk :: chunks.drop (i + 1)) := by
      have hget := (List.getElem?_eq_some_iff.mp hi).2
      rw [← hget, List.getElem_cons_drop, List.take_append_drop]
    rw [h.holds.length]
    conv_rhs => rw [hparts]
    rw [storedSize_append, storedSize_cons]
    omega
  have hlength : file.bytes.length = pre.length + (data.length + post.length) := by
    rw [hbytes]
    simp
  rw [← hpre]
  constructor
  · omega
  · rw [hbytes, slice_append_right (by omega), Nat.add_sub_cancel_left,
      slice_append_left hsplit]
    exact h.holds.stored i chunk hi

theorem SegmentShape.findsChunks {method : CompressionMethod}
    (readTable : Nat → Nat → Nat → Result Bytes) (segmentIndex logicalSize : Nat)
    (h : SegmentShape codec spool out chunks options context front back data table)
    (hfile : file.bytes = out.bytes) (hread : readTable segmentIndex = file.readExactAt)
    (hmethod : CompressionMethod.ofU16 method.toU16 = method)
    (hbound : context.firstChunk.toNat + chunks.length < u64Limit)
    (hcoverage : chunks ≠ [] ∨ logicalSize = 0) :
    ∃ ranges, parseEwf2Ranges file (locate fileHeaderSize 0
          (segmentEntries front back data table context.terminalSection)) segmentIndex logicalSize
        method = .ok ranges ∧
      FindsChunks spool file out chunks readTable context.firstChunk.toNat method ranges := by
  obtain ⟨pre, post, hbytes, hpre⟩ := h.table_bytes hfile
  have hrange := ewf2TableRange_written segmentIndex
    (lastDescriptor fileHeaderSize 0 (front ++ [⟨.sectorData, data⟩])) method h.described hbytes
    (by omega) h.count
  unfold parseEwf2Ranges
  rw [h.filter_sectorTable, ← hpre]
  simp only [parseEwf2RangesFrom]
  rw [hrange, ok_bind, ok_bind]
  by_cases hnone : chunks.length = 0
  · have hempty : chunks = [] := List.length_eq_zero_iff.mp hnone
    rw [if_pos hnone]
    have hzero : logicalSize = 0 := by
      rcases hcoverage with hchunks | hzero
      · exact absurd hempty hchunks
      · exact hzero
    refine ⟨[], ?_, ?_, ?_, ?_⟩
    · simp [hzero]
    · rw [hnone]
      rfl
    · intro chunkId _
      rfl
    · intro i chunk hi
      rw [hempty] at hi
      cases hi
  · rw [if_neg hnone]
    have hcovers : TableRange.covers [writtenRange segmentIndex context.firstChunk.toNat
        chunks.length pre.length method] context.firstChunk.toNat
        (context.firstChunk.toNat + chunks.length) :=
      ⟨rfl, Nat.pos_of_ne_zero hnone, rfl⟩
    refine ⟨[writtenRange segmentIndex context.firstChunk.toNat chunks.length pre.length method],
      ?_, hcovers, ?_, ?_⟩
    · simp
    · intro chunkId hout
      exact coveringRange_eq_none hcovers hbound hout
    · intro i chunk hi
      have hlt : i < chunks.length := (List.getElem?_eq_some_iff.mp hi).1
      obtain ⟨hplace, hslice⟩ := h.chunk_bytes hfile hi
      obtain ⟨entry, hread, hdescribes, hkind⟩ :=
        readEwf2TableEntry_written h.described hbytes hread hmethod hi
      refine ⟨_, _, entry, ?_, hplace, hslice,
        coveringRange_eq_some hcovers hbound List.mem_cons_self (Nat.le_add_right _ _)
          (Nat.add_lt_add_left hlt _), Nat.le_add_right _ _, ?_, hdescribes, hkind⟩
      · rw [h.placements]
        exact consecutive_getElem? hlt
      · simp only [writtenRange, Nat.add_sub_cancel_left]
        exact hread

end Segment

/-- What the writer puts into a segment the reader finds, through the sections at its end: scanning
lists the sections that were written exactly when the bytes behind the file header are not taken for
a leading descriptor, indexing their tables gives ranges for exactly the chunks of the segment, and
looking a chunk up leads to its bytes. -/
theorem readBack_of_writeEwf2Segment {codec : Codec} {encoders : Ewf2PayloadEncoders}
    {spool : Bytes} {chunks : List ChunkDescriptor} {options : WriteOptions}
    {context : Ewf2SegmentWriteContext} {out : SegmentOutput SectionType} {file : SegmentFile}
    {readTable : Nat → Nat → Nat → Result Bytes} {segmentIndex : Nat} (md5 : Bytes → Bytes)
    (strictness : OpenStrictness) (hzlib : ZlibHeader codec)
    (h : writeEwf2Segment codec encoders spool chunks options context = .ok out)
    (hfile : file.bytes = out.bytes) (hread : readTable segmentIndex = file.readExactAt)
    (hbound : context.firstChunk.toNat + chunks.length < u64Limit) :
    ∃ sections, ListsSections file out context.terminalSection sections ∧
      (scanEwf2Sections md5 file strictness = .ok sections ↔
        LeadingRejected md5 file strictness) ∧
      (strictness = .strict ∨ leAt file.bytes (fileHeaderSize + 24) 4 ≠ sectionDescriptorSize →
        LeadingRejected md5 file strictness) ∧
      ∃ header, FileHeader.parse (slice file.bytes 0 fileHeaderSize) = .ok header ∧
        header.compressionMethod = .ofU16 (ewf2CompressionMethod options.compression) ∧
        ∀ logicalSize, chunks ≠ [] ∨ logicalSize = 0 → ∃ ranges,
          parseEwf2Ranges file sections segmentIndex logicalSize header.compressionMethod =
            .ok ranges ∧
          FindsChunks spool file out chunks readTable context.firstChunk.toNat
            header.compressionMethod ranges := by
  obtain ⟨front, back, data, table, hshape⟩ := writeEwf2Segment_shape h
  refine ⟨_, hshape.listsSections hfile, hshape.scan_iff md5 strictness hfile, ?_, ?_⟩
  · rintro (rfl | hsize)
    · exact hshape.leadingRejected_of_strict md5 hzlib hfile
    · exact leadingRejected_of_invalid md5 file strictness (hshape.length_ge hfile) (.inl hsize)
  · have hheader : slice file.bytes 0 fileHeaderSize =
        ewf2FileHeader options context.segmentNumber := by
      have hlength := length_ewf2FileHeader options context.segmentNumber
      rw [hfile, hshape.bytes, slice_append_left (by omega), ← hlength, slice_all]
    have hparse := parse_ewf2FileHeader options context.segmentNumber
    rw [hheader]
    cases hfound : FileHeader.parse (ewf2FileHeader options context.segmentNumber) with
    | error e =>
      rw [hfound] at hparse
      cases hparse
    | ok header =>
      rw [hfound] at hparse
      have hmethod : header.compressionMethod =
          .ofU16 (ewf2CompressionMethod options.compression) := Except.ok.inj hparse
      refine ⟨header, rfl, hmethod, ?_⟩
      intro logicalSize hcoverage
      exact hshape.findsChunks _ _ _ hfile hread
        (by rw [hmethod]; exact ofU16_toU16_ewf2CompressionMethod options.compression) hbound
        hcoverage

/-! ## Segments that are read as something else -/

/-- A codec that stores the data behind a zlib header. -/
def storedCodec : Codec where
  zlibEncode := fun _ data => 0x78 :: 0x01 :: data
  bzip2Encode := fun _ data => 0x42 :: data
  zlibDecoder := fun encoded => ⟨encoded.drop 2, none⟩
  bzip2Decoder := fun encoded => ⟨encoded.tail, none⟩
  zstdDecoder := fun _ _ => .error "unsupported"

theorem zlibHeader_storedCodec : ZlibHeader storedCodec :=
  fun _ data => ⟨0x78, 0x01, data, rfl, by decide, by decide⟩

/-- The given device information and nothing else. -/
def onlyDeviceInformation (text : Bytes) : Ewf2PayloadEncoders where
  deviceInformation := fun _ _ _ => text
  caseData := fun _ _ => []
  errorTable := fun _ => .ok none
  sessionTable := fun _ _ => .ok none
  memoryExtentsTable := fun _ => none
  singleFilesData := .ok
  singleFilesTable0x21 := fun _ => none
  singleFilesMd5HashTable := fun _ => none
  singleFilesTable0x23 := fun _ => none
  hash := id
  utf16leWithBom := fun _ => []

/-- With two bytes of a zlib header in front, the size field of a descriptor holds its size. -/
def descriptorLike : Bytes :=
  List.replicate 22 0 ++ toLE 4 sectionDescriptorSize ++ List.replicate 36 0

def pairSegment : Ewf2SegmentWriteContext where
  segmentNumber := 1
  firstChunk := 0
  totalChunkCount := 2
  sectorCount := 2
  terminalSection := .done

/-- An image with chunks of one byte. -/
def oneByteEwf2 : WriteOptions where
  format := .ewf2Physical
  sectorsPerChunk := 1
  bytesPerSector := 1

/-- A raw chunk and a pattern that is not marked as compressed. -/
def unmarkedPattern : List ChunkDescriptor :=
  [⟨0, 5, false, true, none⟩, ⟨0, 0, false, false, some 7⟩]

/-- A lenient reader takes the device information for a leading descriptor. -/
theorem unmarkedPattern_written :
    ∃ (out : SegmentOutput SectionType) (file : SegmentFile),
      writeEwf2Segment storedCodec (onlyDeviceInformation descriptorLike) [7, 8, 0, 8, 0]
        unmarkedPattern oneByteEwf2 pairSegment = .ok out ∧ file.bytes = out.bytes ∧
      ¬ LeadingRejected id file .lenient := by
  have hfound : (do
      let out ← writeEwf2Segment storedCodec (onlyDeviceInformation descriptorLike) [7, 8, 0, 8, 0]
        unmarkedPattern oneByteEwf2 pairSegment
      if h : out.bytes.length < u64Limit then
        (leadingStep id ⟨out.bytes, h⟩ .lenient fileHeaderSize).map fun step =>
          match step with
          | .found _ _ => true
          | .reject _ => false
      else .ok false : Result Bool) = .ok true := by
    decide +kernel
  obtain ⟨out, hwritten, hfound⟩ := bind_eq_ok.mp hfound
  split at hfound
  · rename_i hlength
    refine ⟨out, ⟨out.bytes, hlength⟩, hwritten, rfl, ?_⟩
    rintro ⟨reason, hreject⟩
    rw [hreject] at hfound
    cases hfound
  · cases hfound

/-- The segment is read back by a strict reader. -/
theorem readBack_of_writeEwf2Segment_unmarked :
    ∃ (out : SegmentOutput SectionType) (file : SegmentFile),
      writeEwf2Segment storedCodec (onlyDeviceInformation descriptorLike) [7, 8, 0, 8, 0]
        unmarkedPattern oneByteEwf2 pairSegment = .ok out ∧
      ∃ sections, ListsSections file out .done sections ∧
        (scanEwf2Sections id file .strict = .ok sections ↔ LeadingRejected id file .strict) ∧
        (OpenStrictness.strict = .strict ∨
            leAt file.bytes (fileHeaderSize + 24) 4 ≠ sectionDescriptorSize →
          LeadingRejected id file .strict) ∧
        ∃ header, FileHeader.parse (slice file.bytes 0 fileHeaderSize) = .ok header ∧
          header.compressionMethod = .ofU16 (ewf2CompressionMethod oneByteEwf2.compression) ∧
          ∀ logicalSize, unmarkedPattern ≠ [] ∨ logicalSize = 0 → ∃ ranges,
            parseEwf2Ranges file sections 0 logicalSize header.compressionMethod = .ok ranges ∧
            FindsChunks [7, 8, 0, 8, 0] file out unmarkedPattern (fun _ => file.readExactAt) 0
              header.compressionMethod ranges := by
  obtain ⟨out, file, hwritten, hfile, -⟩ := unmarkedPattern_written
  have hread : (fun (_ : Nat) => file.readExactAt) 0 = file.readExactAt := rfl
  exact ⟨out, file, hwritten, readBack_of_writeEwf2Segment id .strict zlibHeader_storedCodec
    hwritten hfile hread (by decide)⟩

/-- A pattern that is not marked as compressed is read as a raw chunk, and a lenient reader may
take the device information for a leading descriptor. -/
theorem not_readBack_of_any_segment :
    (¬ ∀ (codec : Codec) (encoders : Ewf2PayloadEncoders) (spool : Bytes)
      (chunks : List ChunkDescriptor) (options : WriteOptions) (context : Ewf2SegmentWriteContext)
      (out : SegmentOutput SectionType) (file : SegmentFile) (md5 : Bytes → Bytes)
      (logicalSize : Nat), ZlibHeader codec →
      writeEwf2Segment codec encoders spool chunks options context = .ok out →
      file.bytes = out.bytes → context.firstChunk.toNat + chunks.length < u64Limit →
      chunks ≠ [] ∨ logicalSize = 0 →
      ∃ sections ranges, scanEwf2Sections md5 file .strict = .ok sections ∧
        parseEwf2Ranges file sections 0 logicalSize
          (.ofU16 (ewf2CompressionMethod options.compression)) = .ok ranges ∧
        ∀ i chunk, chunks[i]? = some chunk → ∃ range entry,
          coveringRange ranges (context.firstChunk.toNat + i) = some range ∧
          readEwf2TableEntry (fun _ => file.readExactAt) range
            (context.firstChunk.toNat + i - range.firstChunk) = .ok entry ∧
          entry.kind = writtenKind (.ofU16 (ewf2CompressionMethod options.compression)) chunk) ∧
    ¬ ∀ (codec : Codec) (encoders : Ewf2PayloadEncoders) (spool : Bytes)
      (chunks : List ChunkDescriptor) (options : WriteOptions) (context : Ewf2SegmentWriteContext)
      (out : SegmentOutput SectionType) (file : SegmentFile) (md5 : Bytes → Bytes)
      (strictness : OpenStrictness), ZlibHeader codec →
      writeEwf2Segment codec encoders spool chunks options context = .ok out →
      file.bytes = out.bytes →
      ∃ sections, scanEwf2Sections md5 file strictness = .ok sections ∧
        ListsSections file out context.terminalSection sections := by
  obtain ⟨out, file, hwritten, hfile, hleading⟩ := unmarkedPattern_written
  obtain ⟨front, back, data, table, hshape⟩ := writeEwf2Segment_shape hwritten
  constructor
  · intro hall
    obtain ⟨sections, ranges, hscan, hparse, hchunks⟩ := hall _ _ _ _ _ _ out file id 2
      zlibHeader_storedCodec hwritten hfile (by decide) (.inl (by decide))
    have htrailing := (hshape.scan_iff id .strict hfile).mpr
      (hshape.leadingRejected_of_strict id zlibHeader_storedCodec hfile)
    have hsections := Except.ok.inj (hscan.symm.trans htrailing)
    subst hsections
    obtain ⟨ranges', hparse', hfinds⟩ := hshape.findsChunks (fun _ => file.readExactAt) 0 2 hfile
      rfl (ofU16_toU16_ewf2CompressionMethod oneByteEwf2.compression) (by decide) (.inl (by decide))
    have hranges := Except.ok.inj (hparse.symm.trans hparse')
    subst hranges
    obtain ⟨range, entry, hrange, hentry, hkind⟩ := hchunks 1 ⟨0, 0, false, false, some 7⟩ rfl
    obtain ⟨_, range', entry', _, _, _, hrange', _, hentry', _, hexact⟩ :=
      hfinds.found 1 ⟨0, 0, false, false, some 7⟩ rfl
    have hsame : range = range' := Option.some.inj (hrange.symm.trans hrange')
    subst hsame
    have hsameEntry : entry = entry' := Except.ok.inj (hentry.symm.trans hentry')
    subst hsameEntry
    exact absurd (hexact.mp hkind rfl) (by decide)
  · intro hall
    obtain ⟨sections, hscan, hlists⟩ := hall _ _ _ _ _ _ out file id .lenient
      zlibHeader_storedCodec hwritten hfile
    obtain ⟨found, hfound, hlayout⟩ := layout_of_scanEwf2Sections id file .lenient hleading hscan
    have htrailing := (hlists.placed found hfound).1
    rw [hlayout] at htrailing
    cases htrailing

end EwfImage.Ewf2
