import EwfImage.Format.Ewf2Chain

/-!
# The written EWF2 segment is a section chain

Each section is written where it was planned, so the descriptors link back to the one
before. The sector data holds the chunks one behind the other, and the entries of the
sector table describe them.

The main result is `writeEwf2Segment_shape`, about every segment that is written. What is
planned and what is written are connected by the cursor: a written section starts where its plan
says, whatever the payloads are.
-/

namespace EwfImage.Ewf2

open Fallible LittleEndian Slice Word

/-- The types of the sections other than the chunks, their table and the end. -/
def SectionType.isMetadata (sectionType : SectionType) : Bool :=
  !sectionType.isUnknown && sectionType != .encryptionKeys && sectionType != .sectorData &&
    sectionType != .sectorTable && !sectionType.isTerminal

theorem SectionType.readable_of_isMetadata {sectionType : SectionType} (data : Bytes)
    (h : sectionType.isMetadata = true) :
    (⟨sectionType, data⟩ : ChainEntry).Readable ∧ sectionType ≠ .sectorTable := by
  simp only [isMetadata, Bool.and_eq_true, Bool.not_eq_true', bne_iff_ne, ne_eq] at h
  obtain ⟨⟨⟨⟨hknown, hkeys⟩, _⟩, htable⟩, _⟩ := h
  exact ⟨⟨hknown, hkeys⟩, htable⟩

theorem optionalPayload_metadata {sectionType : SectionType} {label : String} {data : Option Bytes}
    (h : sectionType.isMetadata = true) :
    ∀ entry ∈ optionalPayload sectionType label data, entry.sectionType.isMetadata = true := by
  intro entry hentry
  obtain ⟨_, _, rfl⟩ := List.mem_map.mp hentry
  exact h

/-- The first section of a segment is a zlib stream with the device information. -/
theorem ewf2FrontSections_spec {codec : Codec} {encoders : Ewf2PayloadEncoders}
    {options : WriteOptions} {context : Ewf2SegmentWriteContext} {front : List Ewf2Payload}
    (h : ewf2FrontSections codec encoders options context = .ok front) :
    (∀ entry ∈ front, entry.sectionType.isMetadata = true) ∧
      ∃ text rest, front.map chainEntry = ⟨.deviceInformation,
        codec.zlibEncode options.compressionValues.level text⟩ :: rest := by
  simp only [ewf2FrontSections, bind_eq_ok, pure_eq_ok, Except.ok.injEq] at h
  obtain ⟨device, hdevice, case, _, errors, _, sessions, _, files, _, rfl⟩ := h
  constructor
  · intro entry hentry
    simp only [List.mem_append, List.mem_cons, List.not_mem_nil, or_false] at hentry
    rcases hentry with (((((((((rfl | rfl) | h) | h) | h) | h) | h) | h) | h) | h)
    · rfl
    · rfl
    · exact optionalPayload_metadata rfl entry h
    · exact optionalPayload_metadata rfl entry h
    · exact optionalPayload_metadata rfl entry h
    · obtain ⟨_, _, rfl⟩ := List.mem_map.mp h
      rfl
    · exact optionalPayload_metadata rfl entry h
    · exact optionalPayload_metadata rfl entry h
    · exact optionalPayload_metadata rfl entry h
    · exact optionalPayload_metadata rfl entry h
  · have hzlib : device = codec.zlibEncode options.compressionValues.level
        (encoders.deviceInformation options context.sectorCount context.totalChunkCount.toNat) := by
      unfold ewf2DeviceInformationSectionPayload at hdevice
      by_cases hbzip : options.compression = .bzip2
      · simp only [hbzip, if_true] at hdevice
        exact (Except.ok.inj hdevice).symm
      · simp only [hbzip, if_false] at hdevice
        cases hcompression : options.compression with
        | bzip2 => exact absurd hcompression hbzip
        | none =>
          rw [hcompression] at hdevice
          exact (Except.ok.inj hdevice).symm
        | zlib =>
          rw [hcompression] at hdevice
          exact (Except.ok.inj hdevice).symm
    subst hzlib
    simp only [List.append_assoc, List.cons_append, List.map_cons]
    exact ⟨_, _, rfl⟩

theorem ewf2BackSections_metadata {codec : Codec} {encoders : Ewf2PayloadEncoders}
    {options : WriteOptions} {context : Ewf2SegmentWriteContext} {back : List Ewf2Payload}
    (h : ewf2BackSections codec encoders options context = .ok back) :
    ∀ entry ∈ back, entry.sectionType.isMetadata = true := by
  unfold ewf2BackSections at h
  split at h
  · simp only [bind_eq_ok, pure_eq_ok, Except.ok.injEq] at h
    obtain ⟨_, _, _, _, rfl⟩ := h
    intro entry hentry
    simp only [List.mem_append] at hentry
    rcases hentry with ((((h | h) | h) | h) | h) <;> exact optionalPayload_metadata rfl entry h
  · cases h
    simp

/-! ## The sector table -/

theorem chunkPayloadSize_eq {chunks : List ChunkDescriptor} {start total : Nat}
    (h : chunkPayloadSize chunks start = .ok total) : total = start + storedSize chunks := by
  induction chunks generalizing start with
  | nil =>
    cases h
    rfl
  | cons chunk chunks ih =>
    simp only [chunkPayloadSize, bind_eq_ok, okOr_eq_ok, checkedAdd_eq_some] at h
    obtain ⟨_, ⟨_, rfl⟩, hrest⟩ := h
    rw [ih hrest, storedSize_cons, Nat.add_assoc]

theorem length_ewf2TableEntries {chunks : List ChunkDescriptor} {chunkOffset : Nat}
    {entries : Bytes} (h : ewf2TableEntries chunks chunkOffset = .ok entries) :
    entries.length = chunks.length * tableEntrySize := by
  induction chunks generalizing chunkOffset entries with
  | nil =>
    cases h
    rfl
  | cons chunk chunks ih =>
    simp only [ewf2TableEntries, bind_eq_ok, pure_eq_ok, Except.ok.injEq] at h
    obtain ⟨_, _, _, _, rest, hrest, rfl⟩ := h
    rw [List.length_append, length_tableEntry, ih hrest, List.length_cons, Nat.add_mul]
    omega

/-- The entry of chunk `i`. -/
theorem ewf2TableEntries_getElem {chunks : List ChunkDescriptor} {chunkOffset i : Nat}
    {entries : Bytes} {chunk : ChunkDescriptor}
    (h : ewf2TableEntries chunks chunkOffset = .ok entries) (hi : chunks[i]? = some chunk) :
    chunk.dataSize < u32Limit ∧ slice entries (i * tableEntrySize) tableEntrySize =
      tableEntry (chunk.patternFill.getD
          (UInt64.ofNat (chunkOffset + storedSize (chunks.take i)))) chunk.dataSize
        chunk.compressed chunk.hasChecksum chunk.patternFill.isSome := by
  induction chunks generalizing chunkOffset entries i with
  | nil => cases hi
  | cons first chunks ih =>
    simp only [ewf2TableEntries, writerCheckedAdd, bind_eq_ok, rejectIf_eq_ok, okOr_eq_ok,
      checkedAdd_eq_some, pure_eq_ok, Except.ok.injEq] at h
    obtain ⟨_, hwidth, _, ⟨_, rfl⟩, rest, hrest, rfl⟩ := h
    cases i with
    | zero =>
      have hfirst : first = chunk := by simpa using hi
      subst hfirst
      refine ⟨Nat.lt_of_not_le hwidth, ?_⟩
      rw [Nat.zero_mul, List.take_zero, storedSize_nil, Nat.add_zero,
        slice_append_left (by rw [length_tableEntry]; omega)]
      generalize hentry : tableEntry (first.patternFill.getD (UInt64.ofNat chunkOffset))
        first.dataSize first.compressed first.hasChecksum first.patternFill.isSome = entry
      have hlength : entry.length = tableEntrySize := by
        rw [← hentry]
        exact length_tableEntry _ _ _ _ _
      rw [← hlength]
      exact slice_all entry
    | succ i =>
      have hi' : chunks[i]? = some chunk := by simpa using hi
      obtain ⟨hsize, hslice⟩ := ih hrest hi'
      refine ⟨hsize, ?_⟩
      rw [List.take_succ_cons, storedSize_cons, ← Nat.add_assoc, ← hslice,
        slice_append_right (by rw [length_tableEntry, Nat.add_mul]; omega), length_tableEntry]
      congr 1
      rw [Nat.add_mul]
      omega

theorem ewf2TableData_eq {firstChunk chunkCount dataOffset : Nat} {chunks : List ChunkDescriptor}
    {table : Bytes} (h : ewf2TableData firstChunk chunkCount dataOffset chunks = .ok table) :
    ∃ entries, ewf2TableEntries chunks dataOffset = .ok entries ∧
      table = tableHeader firstChunk chunkCount ++ entries ++ toLE 4 (adler32 entries) ++
        List.replicate (tableFooterSize - 4) 0 ∧
      table.length = tableHeaderV2Size + chunks.length * tableEntrySize + tableFooterSize := by
  simp only [ewf2TableData, bind_eq_ok, pure_eq_ok, Except.ok.injEq] at h
  obtain ⟨entries, hentries, rfl⟩ := h
  refine ⟨entries, hentries, rfl, ?_⟩
  simp only [List.length_append, length_tableHeader, length_ewf2TableEntries hentries, length_toLE,
    List.length_replicate]
  simp only [tableFooterSize]

/-! ## The segment -/

theorem length_ewf2FileHeader (options : WriteOptions) (segmentNumber : UInt32) :
    (ewf2FileHeader options segmentNumber).length = fileHeaderSize := by
  have hsignature : (ewf2Signature options.format).length = 8 := by
    unfold ewf2Signature
    split <;> rfl
  have hidentifier := (options.setIdentifier.getD SetIdentifier.zero).property
  simp [ewf2FileHeader, hsignature, hidentifier, fileHeaderSize]

/-- The sections of a segment in order. -/
def segmentEntries (front back : List ChainEntry) (data table : Bytes)
    (terminal : TerminalSection) : List ChainEntry :=
  front ++ [⟨.sectorData, data⟩, ⟨.sectorTable, table⟩] ++ back ++ [⟨terminal.ewf2Type, []⟩]

/-- The shape of a written segment. -/
structure SegmentShape (codec : Codec) (spool : Bytes) (out : SegmentOutput SectionType)
    (chunks : List ChunkDescriptor) (options : WriteOptions) (context : Ewf2SegmentWriteContext)
    (front back : List ChainEntry) (data table : Bytes) : Prop where
  metadata : ∀ entry ∈ front ++ back, entry.sectionType.isMetadata = true
  device : ∃ text rest, front = ⟨.deviceInformation,
    codec.zlibEncode options.compressionValues.level text⟩ :: rest
  holds : Holds spool chunks data
  count : chunks.length < u32Limit
  described : ewf2TableData context.firstChunk.toNat chunks.length (fileHeaderSize + chainSize front)
    chunks = .ok table
  bytes : out.bytes = ewf2FileHeader options context.segmentNumber ++
    chainBytes fileHeaderSize 0 (segmentEntries front back data table context.terminalSection)
  descriptors : out.descriptors = chainDescriptors fileHeaderSize
    (segmentEntries front back data table context.terminalSection)
  placements : out.placements = consecutive (fileHeaderSize + chainSize front) chunks

/-- The sections written so far, up to the cursor of the plan. -/
structure Written (out₀ out : SegmentOutput SectionType) (state : Ewf2PlanState)
    (entries : List ChainEntry) (placements : List Nat) : Prop where
  start : out₀.bytes.length = fileHeaderSize
  appends : Appends 0 out₀ out entries placements
  planned : state = advance {} entries

theorem Written.cursor {out₀ out : SegmentOutput SectionType} {state : Ewf2PlanState}
    {entries : List ChainEntry} {placements : List Nat} (h : Written out₀ out state entries placements) :
    out.bytes.length = state.currentOffset ∧
      lastDescriptor out₀.bytes.length 0 entries = state.previousDescOffset := by
  rw [h.appends.length, h.start, h.planned]
  exact ⟨rfl, rfl⟩

theorem Written.sections {out₀ out : SegmentOutput SectionType} {state next : Ewf2PlanState}
    {entries : List ChainEntry} {placements : List Nat} {payloads : List Ewf2Payload}
    {plans : List Ewf2SectionPlan} (h : Written out₀ out state entries placements)
    (hplan : planEwf2Sections payloads state = .ok (plans, next)) :
    Written out₀ (writeEwf2Sections out (payloads.zip plans)) next
      (entries ++ payloads.map chainEntry) placements := by
  obtain ⟨hlength, hlast⟩ := h.cursor
  obtain ⟨happends, hnext⟩ := writeEwf2Sections_appends hplan hlength
  rw [← hlast] at happends
  refine ⟨h.start, ?_, ?_⟩
  · have hall := h.appends.trans happends
    rw [List.append_nil] at hall
    exact hall
  · rw [hnext, h.planned, advance_append]

theorem Written.single {out₀ out : SegmentOutput SectionType} {state next : Ewf2PlanState}
    {entries : List ChainEntry} {placements : List Nat} {plan : Ewf2SectionPlan} {size : Nat}
    {label : String} (sectionType : SectionType) (payload : Bytes)
    (h : Written out₀ out state entries placements)
    (hplan : planEwf2Section state size label = .ok (plan, next)) (hsize : payload.length = size) :
    Written out₀ (writeEwf2Section sectionType payload plan out) next
      (entries ++ [⟨sectionType, payload⟩]) placements := by
  obtain ⟨_, hlast⟩ := h.cursor
  obtain ⟨rfl, hnext⟩ := planEwf2Section_eq sectionType hsize hplan
  have happends := writeEwf2Section_appends ⟨state.currentOffset, state.previousDescOffset⟩
    sectionType payload out
  refine ⟨h.start, ?_, ?_⟩
  · have hall := h.appends.trans (by rw [hlast]; exact happends)
    rw [List.append_nil] at hall
    exact hall
  · rw [hnext, h.planned, advance_append]

/-- The chunks with the descriptor behind them are one section. -/
theorem Written.chunks {out₀ out copied : SegmentOutput SectionType} {state next : Ewf2PlanState}
    {entries : List ChainEntry} {placements : List Nat} {plan : Ewf2SectionPlan} {size : Nat}
    {label : String} {spool : Bytes} {chunks : List ChunkDescriptor}
    (h : Written out₀ out state entries placements)
    (hplan : planEwf2Section state size label = .ok (plan, next)) (hsize : size = storedSize chunks)
    (hcopy : copyChunks spool chunks out = .ok copied) :
    plan.dataOffset = fileHeaderSize + chainSize entries ∧ ∃ data, Holds spool chunks data ∧
      Written out₀ (copied.writeDescriptor .sectorData
          (sectionDesc .sectorData size plan.previousDescOffset)) next
        (entries ++ [⟨.sectorData, data⟩])
        (placements ++ consecutive (fileHeaderSize + chainSize entries) chunks) := by
  obtain ⟨hlength, hlast⟩ := h.cursor
  have hend : out.bytes.length = fileHeaderSize + chainSize entries := by
    rw [h.appends.length, h.start]
  obtain ⟨data, hholds, hbytes, hdescriptors, hplacements⟩ := copyChunks_spec hcopy
  have hdata : data.length = size := by rw [hholds.length, hsize]
  obtain ⟨rfl, hnext⟩ := planEwf2Section_eq .sectorData hdata hplan
  have happends : Appends state.previousDescOffset out (copied.writeDescriptor .sectorData
      (sectionDesc .sectorData size state.previousDescOffset)) [⟨.sectorData, data⟩]
      (consecutive (fileHeaderSize + chainSize entries) chunks) := by
    refine ⟨?_, ?_, ?_⟩
    · simp [hbytes, chainBytes, hdata]
    · simp [hdescriptors, hbytes, chainDescriptors]
    · simp [hplacements, hend]
  refine ⟨by rw [← hlength, hend], data, hholds, h.start, ?_, ?_⟩
  · exact h.appends.trans (by rw [hlast]; exact happends)
  · rw [hnext, h.planned, advance_append]

theorem writeEwf2Segment_shape {codec : Codec} {encoders : Ewf2PayloadEncoders} {spool : Bytes}
    {chunks : List ChunkDescriptor} {options : WriteOptions} {context : Ewf2SegmentWriteContext}
    {out : SegmentOutput SectionType}
    (h : writeEwf2Segment codec encoders spool chunks options context = .ok out) :
    ∃ front back data table,
      SegmentShape codec spool out chunks options context front back data table := by
  simp only [writeEwf2Segment, bind_eq_ok, rejectIf_eq_ok, okOr_eq_ok, checkedMul_eq_some,
    Option.bind_eq_some_iff, checkedAdd_eq_some, pure_eq_ok, Except.ok.injEq] at h
  obtain ⟨_, _, _, hcount, front, hfront, back, hback, _, ⟨_, rfl⟩, _, ⟨_, ⟨_, rfl⟩, _, rfl⟩,
    payloadSize, hpayload, ⟨frontPlans, state₁⟩, hfrontPlans, ⟨sectorsPlan, state₂⟩, hsectorsPlan,
    ⟨tablePlan, state₃⟩, htablePlan, ⟨backPlans, state₄⟩, hbackPlans, ⟨terminalPlan, state₅⟩,
    hterminalPlan, copied, hcopied, table, htable, rfl⟩ := h
  dsimp only at hsectorsPlan htablePlan hbackPlans hterminalPlan hcopied htable ⊢
  obtain ⟨hfrontMetadata, hdevice⟩ := ewf2FrontSections_spec hfront
  have hbackMetadata := ewf2BackSections_metadata hback
  have hpayloadSize := chunkPayloadSize_eq hpayload
  rw [Nat.zero_add] at hpayloadSize
  obtain ⟨_, _, _, htableLength⟩ := ewf2TableData_eq htable
  generalize hout₀ : SegmentOutput.empty.writeAll (ewf2FileHeader options context.segmentNumber) =
    out₀ at hcopied ⊢
  have hbytes₀ : out₀.bytes = ewf2FileHeader options context.segmentNumber := by
    rw [← hout₀]
    simp [SegmentOutput.empty]
  have hempty : out₀.descriptors = [] ∧ out₀.placements = [] := by
    rw [← hout₀]
    exact ⟨rfl, rfl⟩
  have hstart : Written out₀ out₀ {} [] [] :=
    ⟨by rw [hbytes₀, length_ewf2FileHeader], .refl _ _, rfl⟩
  obtain ⟨hdataOffset, data, hholds, hchunks⟩ :=
    (hstart.sections hfrontPlans).chunks hsectorsPlan hpayloadSize hcopied
  have hall := ((hchunks.single .sectorTable table htablePlan htableLength).sections
    hbackPlans).single context.terminalSection.ewf2Type [] hterminalPlan rfl
  have hentries : [] ++ front.map chainEntry ++ [⟨.sectorData, data⟩] ++ [⟨.sectorTable, table⟩] ++
      back.map chainEntry ++ [⟨context.terminalSection.ewf2Type, []⟩] =
      segmentEntries (front.map chainEntry) (back.map chainEntry) data table
        context.terminalSection := by
    simp [segmentEntries]
  rw [hentries] at hall
  rw [List.nil_append] at hdataOffset hall
  refine ⟨front.map chainEntry, back.map chainEntry, data, table, ?_, hdevice, hholds,
    Nat.lt_of_not_le hcount, ?_, ?_, ?_, ?_⟩
  · intro entry hentry
    rcases List.mem_append.mp hentry with hentry | hentry
    · obtain ⟨payload, hpayload, rfl⟩ := List.mem_map.mp hentry
      exact hfrontMetadata payload hpayload
    · obtain ⟨payload, hpayload, rfl⟩ := List.mem_map.mp hentry
      exact hbackMetadata payload hpayload
  · rw [← hdataOffset]
    exact htable
  · rw [hall.appends.bytes, hbytes₀, length_ewf2FileHeader]
  · rw [hall.appends.descriptors, hempty.1, hstart.start, List.nil_append]
  · rw [hall.appends.placements, hempty.2, List.nil_append, List.nil_append]

end EwfImage.Ewf2
