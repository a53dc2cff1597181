import EwfImage.Image.Lookup
import EwfImage.Writer.Ewf1SegmentCorrect

/-!
# Reading back a written EWF1 segment

The scanner finds the sections of a written segment, each table becomes one range of
chunks, and the entries of a range lead to the places where the chunks were put. The
reader derives a stored size from the next entry or from the end of the data, so it
returns a chunk exactly when the size that was stored is one it admits.

The lemmas are about one table group and one entry; `Image.Ewf1SegmentRoundTrip` puts them
together for a segment. `decodeEwf1Entry_placed` is where the ambiguous top bit of an entry is
settled: for a group whose data is not larger than the offsets of entries can say, it is the
compressed bit.
-/

namespace EwfImage.Ewf1

open Fallible LittleEndian Slice Word

/-! ## Positions in the file -/

/-- The payload of a section of a chain is found behind its descriptor. -/
theorem slice_chain (pre : Bytes) (xs ys : List ChainSection) (entry : ChainSection)
    (post : Bytes) {bytes : Bytes}
    (h : bytes = pre ++ chainBytes pre.length (xs ++ entry :: ys) ++ post) :
    slice bytes (pre.length + chainSize xs + sectionDescriptorSize) entry.payload.length =
        entry.payload ∧
      pre.length + chainSize xs + entry.size ≤ bytes.length := by
  rw [chainBytes_append, chainBytes] at h
  generalize hdesc : sectionDesc entry.name.type (pre.length + chainSize xs + entry.size) entry.size
    = desc at h
  have hlen : desc.length = sectionDescriptorSize := by
    rw [← hdesc]
    exact length_sectionDesc _ _ entry.name.length_type
  generalize chainBytes (pre.length + chainSize xs + entry.size) ys = rest at h
  have hmiddle := slice_append_middle (pre ++ chainBytes pre.length xs ++ desc) entry.payload
    (rest ++ post)
  have hbytes : bytes = pre ++ chainBytes pre.length xs ++ desc ++ entry.payload ++ (rest ++ post) := by
    rw [h]
    simp [List.append_assoc]
  constructor
  · simp only [List.length_append, length_chainBytes, hlen] at hmiddle
    rw [hbytes]
    exact hmiddle
  · rw [hbytes]
    simp only [List.length_append, length_chainBytes, hlen, ChainSection.size]
    omega

/-- The part of a payload at `offset`. -/
theorem slice_payload {bytes payload : Bytes} {start : Nat} (offset size : Nat)
    (h : slice bytes start payload.length = payload) (hfits : offset + size ≤ payload.length) :
    slice bytes (start + offset) size = slice payload offset size := by
  rw [← slice_slice hfits, h]

/-! ## Table sections -/

theorem slice_tableHeader (chunkCount base : Nat) (rest : Bytes) :
    slice (tableHeader chunkCount base ++ rest) 0 24 = tableHeader chunkCount base := by
  have hlen := length_tableHeader chunkCount base
  rw [slice_append_left (by omega)]
  conv_lhs => rw [← hlen]
  exact slice_all _

theorem validate_tableHeader (chunkCount base : Nat) (label : String) :
    validatePresentAdler32Checksum (tableHeader chunkCount base) 20 20 label = .ok () := by
  unfold tableHeader
  exact validatePresentAdler32Checksum_append _ label (by simp)

theorem leAt_tableHeader {chunkCount base : Nat} (hcount : chunkCount < u32Limit)
    (hbase : base < u64Limit) :
    leAt (tableHeader chunkCount base) 0 4 = chunkCount ∧
      leAt (tableHeader chunkCount base) 8 8 = base := by
  simp only [tableHeader]
  generalize toLE 4 (adler32 _) = checksum
  constructor
  · have hslice := slice_append_middle [] (toLE 4 chunkCount)
      (List.replicate 4 0 ++ toLE 8 base ++ List.replicate 4 0 ++ checksum)
    rw [List.nil_append, List.length_nil, length_toLE] at hslice
    have hbytes : toLE 4 chunkCount ++ List.replicate 4 0 ++ toLE 8 base ++ List.replicate 4 0 ++
        checksum = toLE 4 chunkCount ++ (List.replicate 4 0 ++ toLE 8 base ++ List.replicate 4 0 ++
          checksum) := by
      simp only [List.append_assoc]
    rw [leAt, hbytes, hslice]
    exact fromLE_toLE_of_lt (by simpa [u32Limit] using hcount)
  · have hslice := slice_append_middle (toLE 4 chunkCount ++ List.replicate 4 0) (toLE 8 base)
      (List.replicate 4 0 ++ checksum)
    have hbytes : toLE 4 chunkCount ++ List.replicate 4 0 ++ toLE 8 base ++ List.replicate 4 0 ++
        checksum = toLE 4 chunkCount ++ List.replicate 4 0 ++ toLE 8 base ++
          (List.replicate 4 0 ++ checksum) := by
      simp only [List.append_assoc]
    simp only [List.length_append, length_toLE, List.length_replicate] at hslice
    rw [leAt, hbytes, hslice]
    exact fromLE_toLE_of_lt (by simpa [u64Limit] using hbase)

/-- The parts of a table that was written. -/
theorem ewf1TableData_eq {chunkCount base : Nat} {chunks : List ChunkDescriptor} {footer : Bool}
    {table : Bytes} (h : ewf1TableData chunkCount base chunks footer = .ok table) :
    ∃ entries, ewf1TableEntries chunks 0 = .ok entries ∧
      table = tableHeader chunkCount base ++ entries ++
        if footer then toLE 4 (adler32 entries) else [] := by
  simp only [ewf1TableData, bind_eq_ok, pure_eq_ok, Except.ok.injEq] at h
  obtain ⟨entries, hentries, rfl⟩ := h
  exact ⟨entries, hentries, rfl⟩

/-- The table section of a valid group at `offset`. -/
def TableGroup.tableAt (group : TableGroup) (offset : Nat) : Ewf1Section :=
  (⟨.table, group.table⟩ : ChainSection).located
    (offset + (sectionDescriptorSize + group.data.length))

theorem readEwf1TableHeader_eq {file : SegmentFile} {table : Bytes} {count base start : Nat}
    {chunks : List ChunkDescriptor} {footer : Bool} {found : Ewf1Section}
    (htable : ewf1TableData count base chunks footer = .ok table)
    (hcount : count < u32Limit) (hbase : base < u64Limit)
    (hslice : slice file.bytes start table.length = table)
    (hfits : start + table.length ≤ file.bytes.length)
    (hstart : found.dataOffset = start) (hsize : found.dataSize = table.length) :
    readEwf1TableHeader file found = .ok (count, base) := by
  have hlen := length_ewf1TableData htable
  obtain ⟨entries, _, heq⟩ := ewf1TableData_eq htable
  have hheader : slice file.bytes start 24 = tableHeader count base := by
    have hpart := slice_payload 0 24 hslice (by omega)
    rw [Nat.add_zero] at hpart
    rw [hpart, heq, List.append_assoc]
    exact slice_tableHeader _ _ _
  obtain ⟨hcountField, hbaseField⟩ := leAt_tableHeader hcount hbase
  unfold readEwf1TableHeader
  rw [rejectIf_neg _ (by omega), ok_bind, hstart, readExactAt_of_le (by omega), ok_bind, hheader,
    validate_tableHeader, ok_bind, hcountField, hbaseField]
  rfl

/-! ## Table ranges -/

/-- The range of a group at `offset` whose first chunk is `nextChunk`. -/
def groupRange (segmentIndex nextChunk offset : Nat) (profile : Ewf1RangeProfile)
    (group : TableGroup) : TableRange where
  kind := .ewf1
  segmentIndex
  firstChunk := nextChunk
  chunkCount := group.chunks.length
  entriesOffset := offset + (sectionDescriptorSize + group.data.length) + sectionDescriptorSize + 24
  baseOffset := offset + sectionDescriptorSize
  dataEnd := some (offset + sectionDescriptorSize + group.data.length)
  ewf1AllowLargeCompressedChunks := profile.allowLargeCompressedChunks
  ewf1CompressionMethod := some profile.compressionMethod
  ewf2CompressionMethod := none

/-- The `sectors` section of a group is the first one around its data. -/
theorem matchingSectorsSection_eq {sections before after : List Ewf1Section} {data : Bytes}
    {offset : Nat} (hsections : sections =
      before ++ (⟨.sectors, data⟩ : ChainSection).located offset :: after)
    (hbefore : ∀ found ∈ before, found.desc.offset ≤ offset ∧
      found.dataOffset + found.dataSize ≤ offset)
    (hend : offset + sectionDescriptorSize + data.length < u64Limit) :
    matchingSectorsSection sections (offset + sectionDescriptorSize) =
      some ((⟨.sectors, data⟩ : ChainSection).located offset) := by
  have hpos : 0 < sectionDescriptorSize := by decide
  have hown : sectorsSectionContainsOffset ((⟨.sectors, data⟩ : ChainSection).located offset)
      (offset + sectionDescriptorSize) = true := by
    have hadd : checkedAdd (offset + sectionDescriptorSize) data.length =
        some (offset + sectionDescriptorSize + data.length) := checkedAdd_of_lt hend
    simp [sectorsSectionContainsOffset, ChainSection.located, hadd]
  have hothers : ∀ found ∈ before, (decide (offset + sectionDescriptorSize = found.desc.offset) ||
      sectorsSectionContainsOffset found (offset + sectionDescriptorSize)) = false := by
    intro found hfound
    obtain ⟨hstart, hdata⟩ := hbefore found hfound
    have hne : offset + sectionDescriptorSize ≠ found.desc.offset := by omega
    have hoff : sectorsSectionContainsOffset found (offset + sectionDescriptorSize) = false := by
      unfold sectorsSectionContainsOffset
      cases hadd : checkedAdd found.dataOffset found.dataSize with
      | none => rfl
      | some dataEnd =>
        obtain ⟨_, rfl⟩ := checkedAdd_eq_some.mp hadd
        have hbeyond : ¬ offset + sectionDescriptorSize ≤ found.dataOffset + found.dataSize := by
          omega
        simp [hbeyond]
    simp [hne, hoff]
  have hname : ((⟨.sectors, data⟩ : ChainSection).located offset).desc.sectionType =
      ascii "sectors" := rfl
  unfold matchingSectorsSection
  rw [hsections, List.filter_append, List.find?_append, List.filter_cons_of_pos (by simp [hname])]
  have hnone : (before.filter (·.desc.sectionType = ascii "sectors")).find? (fun found =>
      decide (offset + sectionDescriptorSize = found.desc.offset) ||
        sectorsSectionContainsOffset found (offset + sectionDescriptorSize)) = none := by
    rw [List.find?_eq_none]
    intro found hfound
    rw [hothers found (List.mem_of_mem_filter hfound)]
    simp
  rw [hnone, Option.none_or, List.find?_cons_of_pos (by simp [hown])]

/-- The entries of a written table and the checksum behind them. -/
theorem validate_tableEntries {file : SegmentFile} {entries header : Bytes} {start : Nat}
    (label : String) (hheader : header.length = 24)
    (hslice : slice file.bytes start (header ++ entries ++ toLE 4 (adler32 entries)).length =
      header ++ entries ++ toLE 4 (adler32 entries))
    (hfits : start + (header ++ entries ++ toLE 4 (adler32 entries)).length ≤ file.bytes.length) :
    validatePresentTableEntriesChecksum file (start + 24) entries.length
      (start + 24 + entries.length) label = .ok () := by
  simp only [List.length_append, length_toLE, hheader] at hfits
  have hentries : slice file.bytes (start + 24) entries.length = entries := by
    rw [slice_payload 24 entries.length hslice (by simp [hheader]), ← hheader]
    exact slice_append_middle header entries (toLE 4 (adler32 entries))
  have hchecksum : slice file.bytes (start + 24 + entries.length) 4 = toLE 4 (adler32 entries) := by
    rw [Nat.add_assoc, slice_payload (24 + entries.length) 4 hslice (by simp [hheader]; omega),
      ← hheader, ← List.length_append]
    have hmiddle := slice_append_middle (header ++ entries) (toLE 4 (adler32 entries)) []
    rw [List.append_nil, length_toLE] at hmiddle
    exact hmiddle
  exact validatePresentTableEntriesChecksum_of_slice label (by omega) hentries hchecksum

theorem ewf1TableRange_eq {spool : Bytes} {file : SegmentFile} {sections : List Ewf1Section} {group : TableGroup}
    {profile : Ewf1RangeProfile} {offset : Nat} {hasFooter : Bool} (segmentIndex nextChunk : Nat)
    (hvalid : group.ValidAt spool hasFooter offset)
    (hslice : slice file.bytes (offset + (sectionDescriptorSize + group.data.length) +
      sectionDescriptorSize) group.table.length = group.table)
    (hfits : offset + (sectionDescriptorSize + group.data.length) + sectionDescriptorSize +
      group.table.length ≤ file.bytes.length)
    (hsectors : matchingSectorsSection sections (offset + sectionDescriptorSize) =
      some ((⟨.sectors, group.data⟩ : ChainSection).located offset)) :
    ewf1TableRange file sections segmentIndex nextChunk profile (group.tableAt offset)
        group.chunks.length (offset + sectionDescriptorSize) =
      .ok (groupRange segmentIndex nextChunk offset profile group) := by
  have hbound := file.length_lt
  have hpos : 0 < sectionDescriptorSize := by decide
  have hcount := hvalid.count
  have hlen := length_ewf1TableData hvalid.table
  obtain ⟨entries, hentries, htable⟩ := ewf1TableData_eq hvalid.table
  have hentriesLength := length_ewf1TableEntries hentries
  generalize hstart : offset + (sectionDescriptorSize + group.data.length) + sectionDescriptorSize =
    start at *
  have hdataOffset : (group.tableAt offset).dataOffset = start := hstart
  have hdataSize : (group.tableAt offset).dataSize = group.table.length := rfl
  have hmul : group.chunks.length * 4 = entries.length := by omega
  have hcheck : (if start + 24 + entries.length + 4 ≤ start + group.table.length ∧
      ¬ ((none : Option Nat) == some (start + 24 + entries.length)) = true then
        validatePresentTableEntriesChecksum file (start + 24) entries.length
          (start + 24 + entries.length) "EWF1 table entries"
      else .ok ()) = .ok () := by
    cases hasFooter with
    | true =>
      rw [if_pos rfl] at htable
      rw [if_pos ⟨by rw [hlen, if_pos rfl]; omega, by simp⟩]
      rw [htable] at hslice hfits
      exact validate_tableEntries _ (length_tableHeader _ _) hslice hfits
    | false =>
      rw [if_neg]
      rintro ⟨hle, _⟩
      rw [hlen, if_neg (by simp)] at hle
      omega
  unfold ewf1TableRange
  rw [checkedMul_of_lt (by simp only [u64Limit, u32Limit] at *; omega), okOr_some, ok_bind,
    hdataOffset, hdataSize, checkedAdd_of_lt (by omega), okOr_some, ok_bind,
    checkedAdd_of_lt (by omega), okOr_some, ok_bind, checkedAdd_of_lt (by omega), okOr_some,
    ok_bind, rejectIf_neg _ (by omega), ok_bind, if_neg (by omega), ok_bind, hmul]
  dsimp only
  rw [hcheck, ok_bind, hsectors]
  have hend : checkedAdd (offset + sectionDescriptorSize) group.data.length =
      some (offset + sectionDescriptorSize + group.data.length) := checkedAdd_of_lt (by omega)
  simp [ChainSection.located, hend, groupRange, Except.map, ← hstart]

/-- The ranges of groups from `offset`; a group without chunks has none. -/
def groupRanges (segmentIndex : Nat) (profile : Ewf1RangeProfile) (writesTable2 : Bool) :
    Nat → Nat → List TableGroup → List TableRange
  | _, _, [] => []
  | nextChunk, offset, group :: groups =>
    (if group.chunks = [] then [] else [groupRange segmentIndex nextChunk offset profile group]) ++
      groupRanges segmentIndex profile writesTable2 (nextChunk + group.chunks.length)
        (offset + chainSize (group.sections writesTable2)) groups

def TableGroup.table2At (group : TableGroup) (offset : Nat) : Ewf1Section :=
  (⟨.table2, group.table⟩ : ChainSection).located (offset +
    (sectionDescriptorSize + group.data.length) + (sectionDescriptorSize + group.table.length))

theorem filter_locate_group (writesTable2 : Bool) (offset : Nat) (group : TableGroup)
    (rest : List ChainSection) :
    (locate offset (group.sections writesTable2 ++ rest)).filter isTableSection =
      group.tableAt offset :: ((if writesTable2 then [group.table2At offset] else []) ++
        (locate (offset + chainSize (group.sections writesTable2)) rest).filter isTableSection) := by
  have hsectors : ∀ (data : Bytes) start,
      isTableSection ((⟨.sectors, data⟩ : ChainSection).located start) = false := by
    intro data start
    have hname : SectionName.type .sectors ≠ ascii "table" ∧
        SectionName.type .sectors ≠ ascii "table2" := by decide
    simp [isTableSection, ChainSection.located, hname]
  have htable : ∀ (data : Bytes) start,
      isTableSection ((⟨.table, data⟩ : ChainSection).located start) = true := by
    intro data start
    simp [isTableSection, ChainSection.located, SectionName.type]
  have htable2 : ∀ (data : Bytes) start,
      isTableSection ((⟨.table2, data⟩ : ChainSection).located start) = true := by
    intro data start
    simp [isTableSection, ChainSection.located, SectionName.type]
  rw [locate_append, List.filter_append]
  cases writesTable2 with
  | true =>
    simp [TableGroup.sections, locate, hsectors, htable, htable2, TableGroup.tableAt,
      TableGroup.table2At, ChainSection.size]
  | false =>
    simp [TableGroup.sections, locate, hsectors, htable, TableGroup.tableAt, ChainSection.size]

/-- The loop passes one group: its table becomes a range, the copy is skipped. -/
theorem parseEwf1RangesFrom_group {file : SegmentFile} {sections : List Ewf1Section}
    {profile : Ewf1RangeProfile} {segmentIndex nextChunk offset : Nat} {group : TableGroup}
    {writesTable2 : Bool} {tables : List Ewf1Section} {ranges : List TableRange}
    {previous : Option (Bool × Nat × Nat)}
    (htable : readEwf1TableHeader file (group.tableAt offset) =
      .ok (group.chunks.length, offset + sectionDescriptorSize))
    (htable2 : writesTable2 = true → readEwf1TableHeader file (group.table2At offset) =
      .ok (group.chunks.length, offset + sectionDescriptorSize))
    (hrange : ewf1TableRange file sections segmentIndex nextChunk profile (group.tableAt offset)
        group.chunks.length (offset + sectionDescriptorSize) =
      .ok (groupRange segmentIndex nextChunk offset profile group))
    (hbound : nextChunk + group.chunks.length < u64Limit)
    (hrest : ∀ previous, parseEwf1RangesFrom file sections segmentIndex profile tables
      (nextChunk + group.chunks.length) previous = .ok ranges) :
    parseEwf1RangesFrom file sections segmentIndex profile
      (group.tableAt offset :: ((if writesTable2 then [group.table2At offset] else []) ++ tables))
      nextChunk previous =
    .ok ((if group.chunks = [] then [] else
      [groupRange segmentIndex nextChunk offset profile group]) ++ ranges) := by
  have hname : (group.tableAt offset).desc.sectionType ≠ ascii "table2" := by
    have hne : SectionName.type .table ≠ ascii "table2" := by decide
    exact hne
  have hname' : (group.tableAt offset).desc.sectionType = ascii "table" := rfl
  -- The copy of the table is skipped behind any table of the group.
  have hskip : ∀ next previous, group.chunks.length = 0 ∨
      previous = some (true, group.chunks.length, offset + sectionDescriptorSize) →
      parseEwf1RangesFrom file sections segmentIndex profile
        ((if writesTable2 then [group.table2At offset] else []) ++ tables) next previous =
      parseEwf1RangesFrom file sections segmentIndex profile tables next previous := by
    intro next previous hcopy
    cases writesTable2 with
    | false => rfl
    | true =>
      rw [if_pos rfl, List.singleton_append, parseEwf1RangesFrom, htable2 rfl, ok_bind]
      dsimp only
      rw [if_pos]
      rcases hcopy with hzero | hprevious
      · exact .inl hzero
      · exact .inr ⟨rfl, hprevious⟩
  rw [parseEwf1RangesFrom, htable, ok_bind]
  dsimp only
  by_cases hempty : group.chunks = []
  · have hzero : group.chunks.length = 0 := by simp [hempty]
    have htail := hrest previous
    rw [hzero, Nat.add_zero] at htail
    rw [if_pos (.inl hzero), hskip _ _ (.inl hzero), htail, if_pos hempty, List.nil_append]
  · have hne : group.chunks.length ≠ 0 := by simpa using hempty
    rw [if_neg (by rintro (hzero | ⟨heq, _⟩); exacts [hne hzero, hname heq]), hrange, ok_bind,
      checkedAdd_of_lt hbound, okOr_some, ok_bind, hskip _ _ (.inr (by simp [hname'])), hrest,
      ok_bind, if_neg hempty]
    rfl

/-- A group of the file, with the bytes before and behind it. -/
structure GroupIn (file : SegmentFile) (writesTable2 : Bool) (offset : Nat) (group : TableGroup) :
    Prop where
  data : slice file.bytes (offset + sectionDescriptorSize) group.data.length = group.data
  table : slice file.bytes (offset + (sectionDescriptorSize + group.data.length) +
    sectionDescriptorSize) group.table.length = group.table
  tableFits : offset + (sectionDescriptorSize + group.data.length) + sectionDescriptorSize +
    group.table.length ≤ file.bytes.length
  table2 : writesTable2 = true → slice file.bytes (offset + (sectionDescriptorSize +
    group.data.length) + (sectionDescriptorSize + group.table.length) + sectionDescriptorSize)
    group.table.length = group.table
  table2Fits : writesTable2 = true → offset + (sectionDescriptorSize + group.data.length) +
    (sectionDescriptorSize + group.table.length) + sectionDescriptorSize + group.table.length ≤
      file.bytes.length

theorem groupIn_of_bytes {file : SegmentFile} (pre post : Bytes) (writesTable2 : Bool)
    (group : TableGroup) (rest : List ChainSection)
    (h : file.bytes = pre ++ chainBytes pre.length (group.sections writesTable2 ++ rest) ++ post) :
    GroupIn file writesTable2 pre.length group := by
  have hfirst : group.sections writesTable2 ++ rest = [⟨.sectors, group.data⟩] ++
      ⟨.table, group.table⟩ ::
        ((if writesTable2 then [⟨.table2, group.table⟩] else []) ++ rest) := rfl
  have hsecond : writesTable2 = true → group.sections writesTable2 ++ rest =
      [⟨.sectors, group.data⟩, ⟨.table, group.table⟩] ++ ⟨.table2, group.table⟩ :: rest := by
    rintro rfl
    rfl
  obtain ⟨hdata, -⟩ := slice_chain pre [] _ ⟨.sectors, group.data⟩ post h
  obtain ⟨htable, htableFits⟩ := slice_chain pre _ _ _ post (hfirst ▸ h)
  simp only [chainSize_cons, chainSize_nil, ChainSection.size, Nat.add_zero] at hdata htable htableFits
  refine ⟨hdata, htable, by omega, ?_, ?_⟩
  · intro hflag
    obtain ⟨htable2, -⟩ := slice_chain pre _ _ _ post (hsecond hflag ▸ h)
    simp only [chainSize_cons, chainSize_nil, ChainSection.size, Nat.add_zero,
      ← Nat.add_assoc] at htable2 ⊢
    exact htable2
  · intro hflag
    obtain ⟨-, hfits⟩ := slice_chain pre _ _ _ post (hsecond hflag ▸ h)
    simp only [chainSize_cons, chainSize_nil, ChainSection.size] at hfits
    omega

theorem parseEwf1RangesFrom_groups {spool : Bytes} {file : SegmentFile} {hasFooter writesTable2 : Bool}
    {groups : List TableGroup} (segmentIndex nextChunk : Nat) (profile : Ewf1RangeProfile)
    (pre post : Bytes) (before after : List Ewf1Section)
    (hfile : file.bytes =
      pre ++ chainBytes pre.length (groups.flatMap (·.sections writesTable2)) ++ post)
    (hbefore : ∀ found ∈ before, found.desc.offset ≤ pre.length ∧
      found.dataOffset + found.dataSize ≤ pre.length)
    (hvalid : ValidFrom spool hasFooter writesTable2 pre.length groups)
    (hbound : nextChunk + (groups.flatMap (·.chunks)).length < u64Limit)
    (previous : Option (Bool × Nat × Nat)) :
    parseEwf1RangesFrom file
      (before ++ locate pre.length (groups.flatMap (·.sections writesTable2)) ++ after) segmentIndex
      profile ((locate pre.length (groups.flatMap (·.sections writesTable2))).filter isTableSection)
      nextChunk previous =
    .ok (groupRanges segmentIndex profile writesTable2 nextChunk pre.length groups) := by
  induction groups generalizing pre before nextChunk previous with
  | nil => rfl
  | cons group groups ih =>
    obtain ⟨hgroup, hgroups⟩ := hvalid
    simp only [List.flatMap_cons, List.length_append] at hbound hfile ⊢
    have hin := groupIn_of_bytes pre post writesTable2 group _ hfile
    have hlimit := file.length_lt
    have htableFits := hin.tableFits
    have hpos : 0 < sectionDescriptorSize := by decide
    have hbase : pre.length + sectionDescriptorSize < u64Limit := by omega
    have htable : readEwf1TableHeader file (group.tableAt pre.length) =
        .ok (group.chunks.length, pre.length + sectionDescriptorSize) :=
      readEwf1TableHeader_eq hgroup.table hgroup.count hbase hin.table hin.tableFits rfl rfl
    have htable2 : writesTable2 = true → readEwf1TableHeader file (group.table2At pre.length) =
        .ok (group.chunks.length, pre.length + sectionDescriptorSize) := fun hflag =>
      readEwf1TableHeader_eq hgroup.table hgroup.count hbase (hin.table2 hflag)
        (hin.table2Fits hflag) rfl rfl
    have hmatching : ∀ rest : List Ewf1Section, matchingSectorsSection
        (before ++ (⟨.sectors, group.data⟩ : ChainSection).located pre.length :: rest)
        (pre.length + sectionDescriptorSize) =
          some ((⟨.sectors, group.data⟩ : ChainSection).located pre.length) := by
      intro rest
      exact matchingSectorsSection_eq rfl hbefore (by omega)
    -- The rest of the chain starts behind the group.
    have hsplit : chainBytes pre.length (group.sections writesTable2 ++
        groups.flatMap (·.sections writesTable2)) =
        chainBytes pre.length (group.sections writesTable2) ++ chainBytes (pre.length +
          chainSize (group.sections writesTable2)) (groups.flatMap (·.sections writesTable2)) :=
      chainBytes_append _ _ _
    have hlen : (pre ++ chainBytes pre.length (group.sections writesTable2)).length =
        pre.length + chainSize (group.sections writesTable2) := by
      rw [List.length_append, length_chainBytes]
    have hrest : ∀ previous, parseEwf1RangesFrom file
        (before ++ (locate pre.length (group.sections writesTable2 ++
          groups.flatMap (·.sections writesTable2))) ++ after) segmentIndex profile
        ((locate (pre.length + chainSize (group.sections writesTable2))
          (groups.flatMap (·.sections writesTable2))).filter isTableSection)
        (nextChunk + group.chunks.length) previous =
        .ok (groupRanges segmentIndex profile writesTable2 (nextChunk + group.chunks.length)
          (pre.length + chainSize (group.sections writesTable2)) groups) := by
      intro previous
      have hall := ih (nextChunk + group.chunks.length)
        (pre ++ chainBytes pre.length (group.sections writesTable2))
        (before ++ locate pre.length (group.sections writesTable2))
        (by rw [hfile, hsplit, hlen]; simp only [List.append_assoc])
        ?_ (by rw [hlen]; exact hgroups) (by omega) previous
      · rw [hlen] at hall
        rw [locate_append, ← List.append_assoc]
        exact hall
      · rw [hlen]
        intro found hfound
        rcases List.mem_append.mp hfound with hfound | hfound
        · obtain ⟨hstart, hend⟩ := hbefore found hfound
          omega
        · obtain ⟨entry, _, start, rfl, hge, hle⟩ := mem_locate hfound
          simp only [ChainSection.located, ChainSection.size] at hle ⊢
          omega
    rw [filter_locate_group, groupRanges]
    refine parseEwf1RangesFrom_group htable htable2 ?_ (by omega) hrest
    refine ewf1TableRange_eq segmentIndex nextChunk hgroup hin.table hin.tableFits ?_
    rw [List.append_assoc]
    exact hmatching _

/-! ## Chunks -/

/-- The encoding of an EWF1 chunk by its compressed flag. -/
def flagEncoding (method : CompressionMethod) (compressed : Bool) : ChunkEncoding :=
  if compressed then (if method = .zstd then .zstd else .zlib) else .raw

/-- What the reader has to return for a chunk placed at `placement`. -/
def placedChunk (method : CompressionMethod) (segmentIndex placement logicalSize : Nat)
    (chunk : ChunkDescriptor) : Chunk where
  segmentIndex
  offset := placement
  encodedSize := chunk.dataSize
  logicalSize
  encoding := flagEncoding method chunk.compressed
  validateChecksum := ¬ chunk.compressed ∧ logicalSize + 4 = chunk.dataSize

/-- The reader takes the stored size for one of the chunk's own kind and accepts it. -/
def Admits (chunkSize : Nat) (profile : Ewf1RangeProfile) (chunk : ChunkDescriptor) : Prop :=
  ewf1ChunkEncoding chunk.compressed chunk.dataSize chunkSize profile.compressionMethod =
      .ok (flagEncoding profile.compressionMethod chunk.compressed) ∧
    validateEwf1EncodedSize chunk.dataSize chunkSize
      (flagEncoding profile.compressionMethod chunk.compressed)
      profile.allowLargeCompressedChunks = .ok ()

theorem flagEncoding_ne_patternFill (method : CompressionMethod) (compressed : Bool)
    (pattern : UInt64) : flagEncoding method compressed ≠ .patternFill pattern := by
  cases compressed with
  | false => simp [flagEncoding]
  | true =>
    simp only [flagEncoding, if_true]
    split <;> simp

theorem flagEncoding_eq_raw {method : CompressionMethod} {compressed : Bool} :
    flagEncoding method compressed = .raw ↔ compressed = false := by
  cases compressed with
  | false => simp [flagEncoding]
  | true =>
    simp only [flagEncoding, if_true]
    split <;> simp

theorem ewf1TableEntries_getElem {chunks : List ChunkDescriptor} {relativeOffset i : Nat}
    {entries : Bytes} {chunk : ChunkDescriptor}
    (h : ewf1TableEntries chunks relativeOffset = .ok entries) (hi : chunks[i]? = some chunk) :
    relativeOffset + storedSize (chunks.take i) < compressedBit ∧
      slice entries (i * 4) 4 = toLE 4 (relativeOffset + storedSize (chunks.take i) +
        if chunk.compressed then compressedBit else 0) := by
  induction chunks generalizing relativeOffset entries i with
  | nil => cases hi
  | cons first chunks ih =>
    simp only [ewf1TableEntries, bind_eq_ok, rejectIf_eq_ok, okOr_eq_ok, checkedAdd_eq_some,
      pure_eq_ok, Except.ok.injEq] at h
    obtain ⟨_, hwidth, _, hbit, _, ⟨_, rfl⟩, rest, hrest, rfl⟩ := h
    have hlt : relativeOffset < compressedBit := by
      by_contra hge
      have hge : compressedBit ≤ relativeOffset := Nat.le_of_not_lt hge
      obtain ⟨low, rfl⟩ := Nat.exists_eq_add_of_le' hge
      have hlow : low < compressedBit := by
        simp only [u32Limit, compressedBit] at *
        omega
      rw [add_and_compressedBit hlow] at hbit
      exact hbit (by decide)
    cases i with
    | zero =>
      have hfirst : first = chunk := by simpa using hi
      subst hfirst
      refine ⟨by simpa using hlt, ?_⟩
      have hslice := slice_append_middle [] (toLE 4 (if first.compressed then
        relativeOffset ||| compressedBit else relativeOffset)) rest
      rw [List.nil_append, List.length_nil, length_toLE] at hslice
      rw [Nat.zero_mul, hslice, List.take_zero, storedSize_nil, Nat.add_zero]
      cases first.compressed with
      | true => simp [or_compressedBit hlt]
      | false => simp
    | succ i =>
      have hi' : chunks[i]? = some chunk := by simpa using hi
      obtain ⟨hbound, hslice⟩ := ih hrest hi'
      rw [List.take_succ_cons, storedSize_cons, ← Nat.add_assoc]
      refine ⟨hbound, ?_⟩
      rw [slice_append_right (by rw [length_toLE]; omega), length_toLE, ← hslice]
      congr 1
      omega

/-- An entry whose group is not larger than the offsets of entries can say is read as written. -/
theorem decodeEwf1Entry_placed {range : TableRange} {chunkSize relative dataEnd : Nat}
    {compressed isFinal : Bool} (nextRaw : Option Nat) (hrelative : relative < compressedBit)
    (hsum : range.baseOffset + relative < u64Limit) (hend : range.dataEnd = some dataEnd)
    (hstart : range.baseOffset ≤ dataEnd)
    (hsmall : compressed = false ∨ dataEnd - range.baseOffset ≤ compressedBit) :
    decodeEwf1Entry range (relative + if compressed then compressedBit else 0) chunkSize nextRaw
      isFinal = .ok ⟨compressed, range.baseOffset + relative⟩ := by
  obtain ⟨hflag, hoffset⟩ := ofRaw_entry compressed hrelative
  have hwidth : ∀ maskedOffset, shouldUseFullWidthEwf1Offset range
      (relative + if compressed then compressedBit else 0) maskedOffset chunkSize nextRaw isFinal =
      .ok false := by
    intro maskedOffset
    unfold shouldUseFullWidthEwf1Offset
    rcases hsmall with rfl | hsmall
    · rw [if_pos (by simpa using and_compressedBit_of_lt hrelative)]
    · have hsub : checkedSub dataEnd range.baseOffset = some (dataEnd - range.baseOffset) :=
        if_pos hstart
      by_cases hbit : (relative + if compressed then compressedBit else 0) &&& compressedBit = 0
      · rw [if_pos hbit]
      · rw [if_neg hbit, hend]
        dsimp only
        rw [hsub, okOr_some, ok_bind, if_pos (by simpa [compressedBit] using hsmall)]
        rfl
  unfold decodeEwf1Entry
  simp only [hoffset, hflag]
  rw [checkedAdd_of_lt hsum, okOr_some, ok_bind, hwidth, ok_bind]
  rfl

/-- Between correctly read offsets the reader returns the placed chunk when it admits its size. -/
theorem ewf1Chunk_eq_placed {range : TableRange} {profile : Ewf1RangeProfile}
    {chunkSize localIndex logicalSize raw placement : Nat} {nextRaw : Option Nat}
    {chunk : ChunkDescriptor}
    (hentry : decodeEwf1Entry range raw chunkSize nextRaw (localIndex + 1 = range.chunkCount) =
      .ok ⟨chunk.compressed, placement⟩)
    (hnext : nextEwf1Offset range chunkSize localIndex nextRaw = .ok (placement + chunk.dataSize))
    (hmethod : range.ewf1CompressionMethod = some profile.compressionMethod)
    (hlarge : range.ewf1AllowLargeCompressedChunks = profile.allowLargeCompressedChunks) :
    ewf1Chunk range chunkSize localIndex logicalSize raw nextRaw =
        .ok (placedChunk profile.compressionMethod range.segmentIndex placement logicalSize chunk) ↔
      Admits chunkSize profile chunk := by
  have hsize : placement + chunk.dataSize - placement = chunk.dataSize := by omega
  unfold ewf1Chunk
  rw [hentry, ok_bind, hnext, ok_bind, hmethod, okOr_some]
  dsimp only
  rw [ok_bind, hsize, hlarge]
  constructor
  · intro h
    simp only [bind_eq_ok, rejectIf_eq_ok, pure_eq_ok, Except.ok.injEq, placedChunk,
      Chunk.mk.injEq] at h
    obtain ⟨_, _, encoding, hencoding, _, hvalid, _, _, _, _, heq, _⟩ := h
    subst heq
    exact ⟨hencoding, hvalid⟩
  · rintro ⟨hencoding, hvalid⟩
    have hpositive := validateEwf1EncodedSize_pos (flagEncoding_ne_patternFill _ _) hvalid
    rw [rejectIf_neg _ (by omega), ok_bind, hencoding, ok_bind, hvalid, ok_bind]
    simp [placedChunk, flagEncoding_eq_raw]

/-- A lookup returned the place, the stored size and the compressed flag of a chunk. -/
def IsPlaced (found : Result Chunk) (segmentIndex placement : Nat) (chunk : ChunkDescriptor) :
    Prop :=
  ∃ c, found = .ok c ∧ c.segmentIndex = segmentIndex ∧ c.offset = placement ∧
    c.encodedSize = chunk.dataSize ∧ (c.encoding = .raw ↔ chunk.compressed = false)

/-- The encodings that the reader derives are those of a compressed flag. -/
theorem ewf1ChunkEncoding_eq_flag {entryCompressed : Bool} {encodedSize chunkSize : Nat}
    {method : CompressionMethod} {encoding : ChunkEncoding}
    (h : ewf1ChunkEncoding entryCompressed encodedSize chunkSize method = .ok encoding) :
    encoding = flagEncoding method (encoding ≠ .raw) := by
  unfold ewf1ChunkEncoding at h
  split at h
  · cases method <;> simp_all [flagEncoding]
  · split at h
    · rename_i hzlib
      simp only [bind_eq_ok] at h
      obtain ⟨rawCap, _, h⟩ := h
      split at h
      · simp only [bind_eq_ok, pure_eq_ok, Except.ok.injEq] at h
        obtain ⟨zlibCap, _, rfl⟩ := h
        split <;> simp [flagEncoding, hzlib]
      · cases h
        simp [flagEncoding]
    · cases h
      simp [flagEncoding]

/-- What a lookup returned of a chunk is all there is to return. -/
theorem eq_placedChunk_of_isPlaced {range : TableRange} {method : CompressionMethod}
    {readTable : Nat → Nat → Nat → Result Bytes}
    {chunkSize localIndex logicalSize segmentIndex placement : Nat} {chunk : ChunkDescriptor}
    (hmethod : range.ewf1CompressionMethod = some method)
    (h : IsPlaced (lookupEwf1Chunk readTable range chunkSize localIndex logicalSize) segmentIndex
      placement chunk) :
    lookupEwf1Chunk readTable range chunkSize localIndex logicalSize =
      .ok (placedChunk method segmentIndex placement logicalSize chunk) := by
  obtain ⟨found, hfound, rfl, rfl, hsize, hflag⟩ := h
  rw [hfound]
  simp only [lookupEwf1Chunk, ewf1Chunk, hmethod, bind_eq_ok, okOr_some, pure_eq_ok,
    Except.ok.injEq] at hfound
  obtain ⟨_, _, _, _, _, _, _, _, _, _, _, _, _, rfl, encoding, hencoding, _, _, rfl⟩ := hfound
  simp only at hsize hflag
  have hcompressed : decide (encoding ≠ .raw) = chunk.compressed := by
    cases hchunk : chunk.compressed with
    | false => simp [hflag.mpr hchunk]
    | true => simpa [hchunk] using hflag
  have heq := ewf1ChunkEncoding_eq_flag hencoding
  rw [hcompressed] at heq
  simp [placedChunk, ← heq, hsize, hflag]

/-- The sizes of raw chunks that the reader admits. -/
theorem admits_raw {chunkSize : Nat} {profile : Ewf1RangeProfile} {chunk : ChunkDescriptor}
    (hsize : chunkSize ≤ maxChunkSize) (hraw : chunk.compressed = false) :
    Admits chunkSize profile chunk ↔ 0 < chunk.dataSize ∧ chunk.dataSize ≤ chunkSize + 4 := by
  have hcap : chunkSize + 4 < u64Limit := by
    simp only [maxChunkSize, u64Limit] at *
    omega
  have hvalid : validateEwf1EncodedSize chunk.dataSize chunkSize .raw
      profile.allowLargeCompressedChunks = .ok () ↔
        0 < chunk.dataSize ∧ chunk.dataSize ≤ chunkSize + 4 := by
    simp [validateEwf1EncodedSize, validateEncodedSize, encodedSizeCap, rawChunkSizeCap,
      checkedAdd_of_lt hcap, bind_eq_ok, Nat.pos_iff_ne_zero]
  simp only [Admits, hraw, flagEncoding]
  constructor
  · rintro ⟨_, hchecked⟩
    exact hvalid.mp hchecked
  · intro hbounds
    refine ⟨?_, hvalid.mpr hbounds⟩
    by_cases hzlib : profile.compressionMethod = .zlib
    · rw [hzlib]
      exact ewf1ChunkEncoding_raw hcap hbounds.2
    · simp [ewf1ChunkEncoding, hzlib]

end EwfImage.Ewf1
