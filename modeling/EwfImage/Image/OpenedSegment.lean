import EwfImage.Image.Ewf1SegmentRoundTrip
import EwfImage.Image.Opening
import EwfImage.Writer.Geometry
import EwfImage.Writer.SegmentSize

/-!
# Opening a written EWF1 segment

Opening finds the volume and the metadata sections of a written segment as they were
encoded, and table ranges that lead to its chunks. Only the metadata sections can keep it
from being opened.

The main result is `openSegment_written`, about every segment of an EWF1 writer but those of
SMART. It is used once for each segment of an image; `foldlM_readEntry_chain` is its loop over
the sections. The header encoders are parameters.
-/

namespace EwfImage.Ewf1

open Fallible LittleEndian Slice Tiling Word

/-! ## Sections of a chain in a file -/

/-- The file holds a chain of sections at an offset. -/
def HoldsChain (file : SegmentFile) (offset : Nat) (sections : List ChainSection) : Prop :=
  ∃ pre post, pre.length = offset ∧ file.bytes = pre ++ chainBytes offset sections ++ post

section Chains

variable {file : SegmentFile} {offset : Nat} {entry : ChainSection} {sections : List ChainSection}

theorem HoldsChain.tail (h : HoldsChain file offset (entry :: sections)) :
    HoldsChain file (offset + entry.size) sections := by
  obtain ⟨pre, post, rfl, hbytes⟩ := h
  refine ⟨pre ++ (sectionDesc entry.name.type (pre.length + entry.size) entry.size ++
    entry.payload), post, ?_, ?_⟩
  · rw [List.length_append, length_chainSection]
  · rw [hbytes, chainBytes]
    simp only [List.append_assoc]

theorem HoldsChain.read (h : HoldsChain file offset (entry :: sections)) :
    file.readExactAt (entry.located offset).dataOffset (entry.located offset).dataSize =
      .ok entry.payload := by
  obtain ⟨pre, post, rfl, hbytes⟩ := h
  obtain ⟨hslice, hfits⟩ := slice_chain pre [] sections entry post hbytes
  rw [chainSize_nil, Nat.add_zero] at hslice hfits
  change file.readExactAt (pre.length + sectionDescriptorSize) entry.payload.length = _
  rw [readExactAt_of_le (by rw [ChainSection.size] at hfits; omega), hslice]

/-- The first section with this property is where the chain has it. -/
theorem HoldsChain.find? (found : Ewf1Section → Bool) {before : List ChainSection}
    (h : HoldsChain file offset (before ++ entry :: sections))
    (hbefore : ∀ other ∈ before, ∀ start, found (other.located start) = false)
    (hentry : ∀ start, found (entry.located start) = true) (rest : List Ewf1Section) :
    ∃ start, (locate offset (before ++ entry :: sections) ++ rest).find? found =
        some (entry.located start) ∧
      file.readExactAt (entry.located start).dataOffset (entry.located start).dataSize =
        .ok entry.payload := by
  induction before generalizing offset with
  | nil =>
    refine ⟨offset, ?_, h.read⟩
    rw [List.nil_append, locate, List.cons_append, List.find?_cons_of_pos (hentry offset)]
  | cons other before ih =>
    obtain ⟨start, hfind, hread⟩ :=
      ih h.tail fun earlier hearlier => hbefore earlier (List.mem_cons_of_mem _ hearlier)
    refine ⟨start, ?_, hread⟩
    have hother := hbefore other List.mem_cons_self offset
    rw [List.cons_append, locate, List.cons_append, List.find?_cons_of_neg (by simp [hother])]
    exact hfind

end Chains

/-! ## The metadata of a chain -/

section Metadata

variable (codec : Codec) (decodeHeaderBytes : Bytes → List Char) (sectorCount : Option Nat)

/-- What a section of a chain adds to the metadata. -/
def readEntry (metadata : SegmentMetadata) (entry : ChainSection) : Result SegmentMetadata :=
  if IsMetadataSection entry.name.type then
    readMetadataPayload codec decodeHeaderBytes .zlib sectorCount metadata entry.name.type
      entry.payload
  else .ok metadata

variable {codec decodeHeaderBytes sectorCount}

theorem foldlM_readMetadataSection {file : SegmentFile} {offset : Nat}
    {sections : List ChainSection} (h : HoldsChain file offset sections)
    (metadata : SegmentMetadata) :
    (locate offset sections).foldlM
        (readMetadataSection codec decodeHeaderBytes file .zlib sectorCount) metadata =
      sections.foldlM (readEntry codec decodeHeaderBytes sectorCount) metadata := by
  induction sections generalizing offset metadata with
  | nil => rfl
  | cons entry sections ih =>
    have hentry : readMetadataSection codec decodeHeaderBytes file .zlib sectorCount metadata
        (entry.located offset) = readEntry codec decodeHeaderBytes sectorCount metadata entry := by
      rw [readMetadataSection, h.read, ok_bind]
      rfl
    rw [locate, List.foldlM_cons, List.foldlM_cons, hentry]
    exact bind_congr fun next => ih h.tail next

theorem foldlM_readEntry_of_other {sections : List ChainSection}
    (h : ∀ entry ∈ sections, ¬ IsMetadataSection entry.name.type) (metadata : SegmentMetadata) :
    sections.foldlM (readEntry codec decodeHeaderBytes sectorCount) metadata = .ok metadata := by
  induction sections with
  | nil => rfl
  | cons entry sections ih =>
    have hentry : readEntry codec decodeHeaderBytes sectorCount metadata entry = .ok metadata :=
      if_neg (h entry List.mem_cons_self)
    rw [List.foldlM_cons, hentry, ok_bind]
    exact ih fun other hother => h other (List.mem_cons_of_mem _ hother)

end Metadata

/-! ## The file header and the volume -/

/-- The file header of a written segment. -/
def writtenHeader (format : WriteFormat) (segmentNumber : UInt16) : Bytes :=
  ewf1Signature format ++ [1] ++ toLE 2 segmentNumber.toNat ++ toLE 2 0

theorem length_writtenHeader (format : WriteFormat) (segmentNumber : UInt16) :
    (writtenHeader format segmentNumber).length = fileHeaderSize := by
  have hsignature : (ewf1Signature format).length = 8 := by
    unfold ewf1Signature
    split <;> rfl
  simp [writtenHeader, hsignature, fileHeaderSize]

theorem parse_writtenHeader (format : WriteFormat) (segmentNumber : UInt16) :
    FileHeader.parse (writtenHeader format segmentNumber) =
      .ok ⟨segmentNumber.toNat, format = .ewf1Logical, 1⟩ := by
  have hlength := length_writtenHeader format segmentNumber
  have hsignature : (ewf1Signature format).length = 8 := by
    unfold ewf1Signature
    split <;> rfl
  have hfront : slice (writtenHeader format segmentNumber) 0 8 = ewf1Signature format := by
    rw [writtenHeader, List.append_assoc, List.append_assoc, slice_append_left (by omega)]
    conv_lhs => rw [← hsignature]
    exact slice_all _
  have hnumber : leAt (writtenHeader format segmentNumber) 9 2 = segmentNumber.toNat := by
    have hmiddle := slice_append_middle (ewf1Signature format ++ [1])
      (toLE 2 segmentNumber.toNat) (toLE 2 0)
    rw [List.length_append, hsignature, length_toLE] at hmiddle
    rw [writtenHeader, leAt]
    change fromLE (slice _ (8 + [(1 : UInt8)].length) 2) = _
    rw [hmiddle, fromLE_toLE_of_lt segmentNumber.toNat_lt]
  have hmarker : (writtenHeader format segmentNumber).getD 8 0 = 1 := by
    rw [writtenHeader, List.append_assoc, List.append_assoc, List.getD_eq_getElem?_getD,
      List.getElem?_append_right (by omega), hsignature]
    rfl
  have hknown : ewf1Signature format = evfSignature ∨ ewf1Signature format = lvfSignature := by
    unfold ewf1Signature
    split
    · exact .inr rfl
    · exact .inl rfl
  have hlogical : (ewf1Signature format = lvfSignature) ↔ format = .ewf1Logical := by
    unfold ewf1Signature
    by_cases hformat : format = .ewf1Logical
    · simp [hformat]
    · simp only [hformat, if_false, iff_false]
      decide
  unfold FileHeader.parse
  dsimp only
  rw [rejectIf_neg _ (by omega), ok_bind, hfront, rejectIf_neg _ (by tauto), ok_bind, hnumber,
    hmarker, pure_eq_ok]
  simp only [hlogical]

/-- No written section names a compression method. -/
theorem detect_written {sections : List ChainSection} {terminal : TerminalSection}
    {fileHeader : FileHeader} (hmarker : fileHeader.formatMarker = 1) (offset last : Nat) :
    detectEwf1CompressionMethod fileHeader (locate offset sections ++ [terminalAt terminal last]) =
      .ok .zlib := by
  have hnone : ∀ found ∈ locate offset sections ++ [terminalAt terminal last],
      found.desc.compressionMethod = none := by
    intro found hfound
    rcases List.mem_append.mp hfound with hlocated | hterminal
    · obtain ⟨entry, -, start, rfl, -⟩ := mem_locate hlocated
      rfl
    · rw [List.mem_singleton.mp hterminal]
      rfl
  have hmarkers : ((locate offset sections ++ [terminalAt terminal last]).filter
      (·.desc.sectionType = ascii "header")).filterMap (·.desc.compressionMethod) = [] := by
    rw [List.filterMap_eq_nil_iff]
    exact fun found hfound => hnone found (List.mem_of_mem_filter hfound)
  unfold detectEwf1CompressionMethod
  dsimp only
  rw [hmarker, if_pos (.inl rfl), ok_bind, hmarkers, List.foldlM_nil, pure_eq_ok, ok_bind,
    rejectIf_neg _ (by simp), ok_bind]
  rfl

theorem validate_volumeData {options : WriteOptions} {chunkCount : UInt32} {sectorCount : Nat}
    {volume : Bytes} (h : volumeData options chunkCount sectorCount = .ok volume)
    (sectionType : Bytes) : validatePresentEwf1MediaChecksum volume sectionType = .ok () := by
  have hbody : ∃ body, volume = body ++ toLE 4 (adler32 body) := by
    simp only [volumeData, bind_eq_ok, rejectIf_eq_ok, pure_eq_ok, Except.ok.injEq] at h
    obtain ⟨_, _, _, _, hbytes⟩ := h
    exact ⟨_, hbytes.symm⟩
  obtain ⟨body, rfl⟩ := hbody
  have hlength : (body ++ toLE 4 (adler32 body)).length - 4 = body.length := by
    rw [List.length_append, length_toLE, Nat.add_sub_cancel]
  unfold validatePresentEwf1MediaChecksum
  dsimp only
  rw [if_neg (by rw [List.length_append, length_toLE]; omega), hlength]
  exact validatePresentAdler32Checksum_append body _ rfl

/-- A written volume is opened with the geometry of the writer. -/
theorem parseEwf1Volume_written {options : WriteOptions} {chunkCount : UInt32} {sectorCount : Nat}
    {volume : Bytes} (h : volumeData options chunkCount sectorCount = .ok volume)
    (hsound : options.Sound)
    (hsize : options.sectorsPerChunk.toNat * options.bytesPerSector.toNat ≤ maxChunkSize)
    (hsectors : sectorCount * options.bytesPerSector.toNat < u64Limit)
    (hempty : sectorCount = 0 → chunkCount.toNat = 0) :
    ∃ parsed, parseEwf1Volume volume (ascii "volume") = .ok parsed ∧
      parsed.volume.sectorsPerChunk = options.sectorsPerChunk.toNat ∧
      parsed.volume.bytesPerSector = options.bytesPerSector.toNat ∧
      parsed.volume.sectorCount = sectorCount ∧
      parsed.volume.smart = decide (options.format = .ewf1Smart) ∧
      parsed.geometry = {
        chunkSize := options.sectorsPerChunk.toNat * options.bytesPerSector.toNat
        logicalSize := sectorCount * options.bytesPerSector.toNat } := by
  have hbps := hsound.bytesPerSector
  have hspc := hsound.sectorsPerChunk
  have hparse := parse_volumeData
    (Nat.lt_of_le_of_lt (Nat.le_mul_of_pos_right sectorCount hbps) hsectors) h
  have hmax : maxChunkSize < u64Limit := by decide
  have hpositive := Nat.mul_pos hspc hbps
  have hchunk : options.sectorsPerChunk.toNat * options.bytesPerSector.toNat < u64Limit := by omega
  have hgeometry : openGeometry volume = .ok {
      chunkSize := options.sectorsPerChunk.toNat * options.bytesPerSector.toNat
      logicalSize := sectorCount * options.bytesPerSector.toNat } := by
    unfold openGeometry Volume.chunkSize Volume.logicalSize
    rw [hparse, ok_bind, checkedMul_of_lt hchunk, okOr_some, ok_bind,
      validateChunkSize_eq_ok.mpr ⟨hpositive, hsize⟩, ok_bind, checkedMul_of_lt hsectors, okOr_some,
      ok_bind]
    by_cases hzero : sectorCount = 0
    · rw [if_neg (by simp [hzero]), hempty hzero, checkedMul_of_lt (by simp [u64Limit]), okOr_some,
        ok_bind, hzero, Nat.mul_zero, Nat.zero_mul]
      rfl
    · rw [if_pos (Nat.mul_pos (Nat.pos_of_ne_zero hzero) hbps), ok_bind]
      rfl
  have hsmart : decide (volume.length = smartVolumeSize) = decide (options.format = .ewf1Smart) := by
    rw [length_volumeData h, volumeDataSizeOf]
    by_cases hformat : options.format = .ewf1Smart
    · simp [hformat]
    · simp only [hformat, if_false, decide_false]
      decide
  unfold parseEwf1Volume VolumeProfile.parse
  rw [validate_volumeData h, ok_bind, hparse, ok_bind]
  dsimp only
  rw [pure_eq_ok, ok_bind]
  split
  · rename_i e herror
    rw [hgeometry] at herror
    cases herror
  · rename_i geometry hopened
    rw [hgeometry] at hopened
    cases hopened
    exact ⟨_, rfl, rfl, rfl, rfl, hsmart, rfl⟩

/-! ## Ranges -/

/-- The ranges of a segment are EWF1 ranges of its compression method. -/
structure RangesOf (segmentIndex : Nat) (profile : Ewf1RangeProfile) (range : TableRange) : Prop where
  kind : range.kind = .ewf1
  segmentIndex : range.segmentIndex = segmentIndex
  method : range.ewf1CompressionMethod = some profile.compressionMethod

theorem rangesOf_parseEwf1RangesFrom {file : SegmentFile} {sections tables : List Ewf1Section}
    {segmentIndex nextChunk : Nat} {profile : Ewf1RangeProfile}
    {previousTable : Option (Bool × Nat × Nat)} {ranges : List TableRange}
    (h : parseEwf1RangesFrom file sections segmentIndex profile tables nextChunk previousTable =
      .ok ranges) : ∀ range ∈ ranges, RangesOf segmentIndex profile range := by
  induction tables generalizing nextChunk previousTable ranges with
  | nil =>
    cases h
    intro range hrange
    cases hrange
  | cons table tables ih =>
    rw [parseEwf1RangesFrom, bind_eq_ok] at h
    obtain ⟨⟨entryCount, baseOffset⟩, -, h⟩ := h
    dsimp only at h
    split at h
    · exact ih h
    · simp only [bind_eq_ok, pure_eq_ok, Except.ok.injEq] at h
      obtain ⟨range, hrange, next, -, rest, hrest, rfl⟩ := h
      intro other hother
      rcases List.mem_cons.mp hother with rfl | hother
      · simp only [ewf1TableRange, bind_eq_ok, pure_eq_ok, Except.ok.injEq] at hrange
        obtain ⟨_, -, _, -, _, -, _, -, _, -, _, -, _, -, _, -, rfl⟩ := hrange
        exact ⟨rfl, rfl, rfl⟩
      · exact ih hrest other hother

theorem rangesOf_parseEwf1Ranges {file : SegmentFile} {sections : List Ewf1Section}
    {segmentIndex firstChunk logicalSize : Nat} {profile : Ewf1RangeProfile}
    {ranges : List TableRange}
    (h : parseEwf1Ranges file sections segmentIndex firstChunk logicalSize profile = .ok ranges) :
    ∀ range ∈ ranges, RangesOf segmentIndex profile range := by
  simp only [parseEwf1Ranges, bind_eq_ok, pure_eq_ok, Except.ok.injEq] at h
  obtain ⟨found, hfound, _, -, rfl⟩ := h
  exact rangesOf_parseEwf1RangesFrom hfound

/-! ## Chunk counts -/

theorem tableChunkCount_of_covers {ranges : List TableRange} {first last : Nat}
    (h : TableRange.covers ranges first last) (hlast : last < u64Limit) :
    tableChunkCount ranges = .ok (last - first) := by
  have hfrom : ∀ count, count + (last - first) < u64Limit →
      ranges.foldlM (fun count (range : TableRange) =>
        okOr (EwfError.malformed "EWF1 table chunk count overflow")
          (checkedAdd count range.chunkCount)) count = .ok (count + (last - first)) := by
    clear hlast
    induction ranges generalizing first with
    | nil =>
      intro count _
      have heq : first = last := h
      rw [heq, Nat.sub_self, Nat.add_zero]
      rfl
    | cons range ranges ih =>
      intro count hcount
      obtain ⟨hfirst, hpos, hrest⟩ := h
      have hle := Tiles.le hrest
      rw [List.foldlM_cons, checkedAdd_of_lt (by omega), okOr_some, ok_bind,
        ih hrest (count + range.chunkCount) (by omega)]
      congr 1
      omega
  have hzero := hfrom 0 (by omega)
  rw [Nat.zero_add] at hzero
  exact hzero

theorem discoverTableChunks_of_covers {ranges : List TableRange} {first last : Nat}
    (h : TableRange.covers ranges first last) (hlast : last < u64Limit) :
    discoverTableChunks first ranges = .ok last := by
  unfold discoverTableChunks
  induction ranges generalizing first with
  | nil => exact congrArg Except.ok h
  | cons range ranges ih =>
    obtain ⟨hfirst, hpos, hrest⟩ := h
    have hle := Tiles.le hrest
    rw [List.foldlM_cons, hfirst, checkedAdd_of_lt (by omega), okOr_some, ok_bind, pure_eq_ok,
      ok_bind, Nat.max_eq_right (Nat.le_add_right _ _)]
    exact ih hrest

/-! ## The segment -/

/-- The sections of a written segment in front of its chunks. -/
def sectionsBefore (metadata : Ewf1Metadata) (volume : Bytes) : List ChainSection :=
  optionalSection .header metadata.header ++ optionalSection .header2 metadata.header2 ++
    optionalSection .xheader metadata.xheader ++ [⟨.volume, volume⟩] ++
    optionalSection .session metadata.session

/-- The sections of a written segment behind its chunks. -/
def sectionsBehind (metadata : Ewf1Metadata) : List ChainSection :=
  optionalSection .ltree metadata.ltree ++ optionalSection .error2 metadata.error2 ++
    optionalSection .digest metadata.digest ++ optionalSection .xhash metadata.xhash

/-- The metadata sections of a written segment in their order. -/
def metadataSections (metadata : Ewf1Metadata) : List ChainSection :=
  optionalSection .header metadata.header ++ optionalSection .header2 metadata.header2 ++
    optionalSection .xheader metadata.xheader ++ optionalSection .session metadata.session ++
    sectionsBehind metadata

theorem name_of_mem_optionalSection {name : SectionName} {payload : Option Bytes}
    {entry : ChainSection} (h : entry ∈ optionalSection name payload) : entry.name = name := by
  obtain ⟨_, -, rfl⟩ := List.mem_map.mp h
  rfl

/-- The sections of the table groups hold no metadata and no volume. -/
theorem name_of_mem_groups {writesTable2 : Bool} {groups : List TableGroup} {entry : ChainSection}
    (h : entry ∈ groups.flatMap (·.sections writesTable2)) :
    entry.name = .sectors ∨ entry.name = .table ∨ entry.name = .table2 := by
  obtain ⟨group, -, hsection⟩ := List.mem_flatMap.mp h
  rcases List.mem_cons.mp hsection with rfl | hsection
  · exact .inl rfl
  · rcases List.mem_cons.mp hsection with rfl | hsection
    · exact .inr (.inl rfl)
    · refine .inr (.inr ?_)
      split at hsection
      · rw [List.mem_singleton.mp hsection]
      · cases hsection

theorem isVolumeSection_located (entry : ChainSection) (start : Nat) :
    isVolumeSection (entry.located start) = decide (entry.name = .volume) := by
  obtain ⟨name, payload⟩ := entry
  change (decide (name.type = ascii "volume") || decide (name.type = ascii "disk") ||
    decide (name.type = ascii "data")) = decide (name = .volume)
  cases name <;> decide

section Segment

variable {codec : Codec} {decodeHeaderBytes : Bytes → List Char} {sectorCount : Option Nat}

/-- Reading the chain of a segment reads its metadata sections. -/
theorem foldlM_readEntry_chain (metadata : Ewf1Metadata) (volume : Bytes) (writesTable2 : Bool)
    (groups : List TableGroup) (start : SegmentMetadata) :
    (sectionsBefore metadata volume ++ groups.flatMap (·.sections writesTable2) ++
        sectionsBehind metadata).foldlM (readEntry codec decodeHeaderBytes sectorCount) start =
      (metadataSections metadata).foldlM (readEntry codec decodeHeaderBytes sectorCount) start := by
  have hvolume : ∀ state, [ChainSection.mk .volume volume].foldlM
      (readEntry codec decodeHeaderBytes sectorCount) state = .ok state := fun state =>
    foldlM_readEntry_of_other (fun entry hentry => by
      rw [List.mem_singleton.mp hentry]
      exact (by decide : SectionName.volume.type ∉ metadataSectionTypes)) state
  have hgroups : ∀ state, (groups.flatMap (·.sections writesTable2)).foldlM
      (readEntry codec decodeHeaderBytes sectorCount) state = .ok state := fun state =>
    foldlM_readEntry_of_other (fun entry hentry => by
      rcases name_of_mem_groups hentry with hname | hname | hname <;> rw [hname] <;> decide) state
  simp only [metadataSections, sectionsBefore, List.foldlM_append, hvolume, hgroups, ok_bind,
    bind_assoc]

theorem terminalType_spec (terminal : TerminalSection) :
    terminal.ewf1Type ∉ metadataSectionTypes ∧
      (terminal.ewf1Type ≠ ascii "next" ↔ terminal = .done) := by
  cases terminal <;> decide

theorem readXwaysEncryption_written {file : SegmentFile} {format : WriteFormat}
    {segmentNumber : UInt16} {rest : Bytes}
    (hbytes : file.bytes = writtenHeader format segmentNumber ++ rest) :
    file.readExactAt 0 fileHeaderSize = .ok (writtenHeader format segmentNumber) ∧
      readXwaysEncryption file = .ok none := by
  have hlength := length_writtenHeader format segmentNumber
  have hfile : fileHeaderSize ≤ file.bytes.length := by
    rw [hbytes, List.length_append]
    omega
  have hread : file.readExactAt 0 fileHeaderSize = .ok (writtenHeader format segmentNumber) := by
    rw [readExactAt_of_le (by omega), hbytes, slice_append_left (by omega), ← hlength, slice_all]
  refine ⟨hread, ?_⟩
  unfold readXwaysEncryption
  have hmarker : (1 : UInt8) ≠ xwaysEncryptedZlibMarker ∧ (1 : UInt8) ≠ xwaysEncryptedZstdMarker := by
    decide
  rw [if_neg (by omega), hread, ok_bind, parse_writtenHeader, ok_bind, if_pos hmarker, ite_self]

end Segment

/-- A written segment is opened as the next one when its metadata sections are read. Its ranges
lead to its chunks. -/
theorem openSegment_written {encoders : Ewf1PayloadEncoders} {spool : Bytes}
    {chunks : List ChunkDescriptor} {options : WriteOptions} {context : Ewf1SegmentWriteContext}
    {out : SegmentOutput Bytes} {file : SegmentFile} {segmentIndex firstChunk : Nat}
    (codec : Codec) (decodeHeaderBytes : Bytes → List Char) (hint : FormatProfile)
    (inherited : Option Ewf1MediaGeometry) (readTable : Nat → Nat → Nat → Result Bytes)
    (hread : readTable segmentIndex = file.readExactAt)
    (h : writeEwf1Segment encoders spool chunks options context = .ok out)
    (hfile : file.bytes = out.bytes) (hsound : options.Sound)
    (hnumber : context.segmentNumber.toNat = segmentIndex + 1)
    (hsize : options.sectorsPerChunk.toNat * options.bytesPerSector.toNat ≤ maxChunkSize)
    (hsectors : context.sectorCount * options.bytesPerSector.toNat < u64Limit)
    (hempty : context.sectorCount = 0 → context.chunkCount.toNat = 0)
    (hcoverage : chunks ≠ [] ∨ context.sectorCount = 0)
    (hbound : firstChunk + chunks.length < u64Limit) :
    ∃ metadata volume parsed ranges,
      metadata.Encoded encoders options context.sections ∧
      volumeData options context.chunkCount context.sectorCount = .ok volume ∧
      parseEwf1Volume volume (ascii "volume") = .ok parsed ∧
      FindsChunks spool file out chunks readTable segmentIndex firstChunk
        (options.sectorsPerChunk.toNat * options.bytesPerSector.toNat)
        ⟨options.format = .ewf1Smart, .zlib⟩ ranges ∧
      (∀ range ∈ ranges, RangesOf segmentIndex ⟨options.format = .ewf1Smart, .zlib⟩ range) ∧
      openSegment codec decodeHeaderBytes hint file segmentIndex firstChunk inherited =
        ((metadataSections metadata).foldlM
          (readEntry codec decodeHeaderBytes (some context.sectorCount))
          { profile := initialProfile (options.format = .ewf1Logical) (options.format = .ewf1Smart)
              true hint }).map fun read => {
            segmentNumber := segmentIndex + 1
            compressionMethod := .zlib
            volume := some parsed
            media := parsed.media (options.format = .ewf1Logical) .zlib
            acquisitionComplete := context.terminalSection = .done
            metadata := read
            ranges
            tableChunkCount := chunks.length } := by
  obtain ⟨header, header2, xheader, session, ltree, error2, digest, xhash, volume, groups, hheader,
    hheader2, hxheader, hsession, hltree, herror2, hdigest, hxhash, hvolume, hshape⟩ :=
    writeEwf1Segment_sections h
  obtain ⟨parsed, hparsed, hspc, hbps, hcount, hsmart, hgeometry⟩ :=
    parseEwf1Volume_written hvolume hsound hsize hsectors hempty
  obtain ⟨ranges, hranges, hfinds⟩ := hshape.findsChunks readTable segmentIndex
    firstChunk (options.sectorsPerChunk.toNat * options.bytesPerSector.toNat)
    (context.sectorCount * options.bytesPerSector.toNat) ⟨options.format = .ewf1Smart, .zlib⟩ hfile
    hread hbound (hcoverage.imp_right fun hzero => by rw [hzero, Nat.zero_mul]) hsize
  refine ⟨⟨header, header2, xheader, session, ltree, error2, digest, xhash⟩, volume, parsed, ranges,
    ⟨hheader, hheader2, hxheader, hsession, hltree, herror2, hdigest, hxhash⟩, hvolume, hparsed,
    hfinds, rangesOf_parseEwf1Ranges hranges, ?_⟩
  generalize hmetadata : Ewf1Metadata.mk header header2 xheader session ltree error2 digest xhash =
    metadata
  have hscan := hshape.scan hfile
  have hbefore : optionalSection .header header ++ optionalSection .header2 header2 ++
      optionalSection .xheader xheader ++ [⟨.volume, volume⟩] ++ optionalSection .session session =
        sectionsBefore metadata volume := by
    rw [← hmetadata]
    rfl
  have hbehind : optionalSection .ltree ltree ++ optionalSection .error2 error2 ++
      optionalSection .digest digest ++ optionalSection .xhash xhash = sectionsBehind metadata := by
    rw [← hmetadata]
    rfl
  have hbytes := hfile.trans hshape.bytes
  rw [hbefore, hbehind] at hscan hranges hbytes
  obtain ⟨hheaderRead, hencryption⟩ := readXwaysEncryption_written
    (hbytes.trans (List.append_assoc _ _ _))
  generalize hchain : sectionsBefore metadata volume ++
    groups.flatMap (·.sections (options.format ≠ .ewf1Smart)) ++ sectionsBehind metadata = chain at *
  generalize hterminal : terminalAt context.terminalSection (fileHeaderSize + chainSize chain) =
    terminal at *
  have hholds : HoldsChain file fileHeaderSize chain :=
    ⟨_, _, length_writtenHeader options.format context.segmentNumber, hbytes⟩
  have hsplit : chain = optionalSection .header metadata.header ++
      optionalSection .header2 metadata.header2 ++ optionalSection .xheader metadata.xheader ++
      ⟨.volume, volume⟩ :: (optionalSection .session metadata.session ++
        groups.flatMap (·.sections (options.format ≠ .ewf1Smart)) ++ sectionsBehind metadata) := by
    rw [← hchain, sectionsBefore]
    simp only [List.append_assoc, List.cons_append, List.nil_append]
  obtain ⟨start, hfind, hvolumeRead⟩ := HoldsChain.find? isVolumeSection (hsplit ▸ hholds)
    (fun other hother start => by
      rw [isVolumeSection_located, decide_eq_false_iff_not]
      simp only [List.mem_append] at hother
      rcases hother with (hother | hother) | hother <;>
        rw [name_of_mem_optionalSection hother] <;> decide)
    (fun start => by rw [isVolumeSection_located]; rfl) [terminal]
  rw [← hsplit] at hfind
  have htype : (ChainSection.located ⟨.volume, volume⟩ start).desc.sectionType = ascii "volume" := rfl
  have hmetadataRead : ∀ state, (locate fileHeaderSize chain ++ [terminal]).foldlM
      (readMetadataSection codec decodeHeaderBytes file .zlib (some context.sectorCount)) state =
        (metadataSections metadata).foldlM
          (readEntry codec decodeHeaderBytes (some context.sectorCount)) state := by
    intro state
    have hlast : ∀ read, readMetadataSection codec decodeHeaderBytes file .zlib
        (some context.sectorCount) read terminal = .ok read := by
      intro read
      refine if_neg ?_
      rw [← hterminal]
      exact (terminalType_spec context.terminalSection).1
    rw [foldlM_concat, foldlM_readMetadataSection hholds, ← hchain, foldlM_readEntry_chain]
    simp only [hlast]
    exact bind_pure _
  have hcomplete : ewf1AcquisitionComplete (locate fileHeaderSize chain ++ [terminal]) =
      decide (context.terminalSection = .done) := by
    unfold ewf1AcquisitionComplete
    rw [List.getLast?_concat, ← hterminal]
    exact decide_eq_decide.mpr (terminalType_spec context.terminalSection).2
  have hcovered := tableChunkCount_of_covers hfinds.covers hbound
  rw [Nat.add_sub_cancel_left] at hcovered
  unfold openSegment parseEwf1Segment
  rw [hencryption, ok_bind, rejectIf_neg _ (by simp), ok_bind, hheaderRead, ok_bind,
    parse_writtenHeader, ok_bind, hscan, ok_bind, ← hterminal, detect_written rfl, ok_bind, hterminal,
    hfind]
  dsimp only
  rw [hvolumeRead, ok_bind, htype, hparsed, ok_bind, pure_eq_ok, ok_bind, rejectIf_neg _ (by simp), ok_bind,
    Option.any_some, hsmart, Option.map_some, Option.map_some, hgeometry, hcount, Option.some_or,
    hmetadataRead]
  have hprofile : initialProfile (options.format = .ewf1Logical)
      (!decide (options.format = .ewf1Logical) && decide (options.format = .ewf1Smart))
      (some parsed).isSome hint =
        initialProfile (options.format = .ewf1Logical) (options.format = .ewf1Smart) true hint := by
    cases options.format <;> rfl
  rw [hprofile]
  generalize (metadataSections metadata).foldlM
    (readEntry codec decodeHeaderBytes (some context.sectorCount)) _ = read
  cases read with
  | error e => rfl
  | ok read =>
    rw [ok_bind, Option.getD_some, hranges, ok_bind, hcovered, ok_bind, hcomplete, hnumber]
    simp only [pure_eq_ok, ok_bind]
    rw [rejectIf_neg _ (by simp), ok_bind]
    rfl

end EwfImage.Ewf1
