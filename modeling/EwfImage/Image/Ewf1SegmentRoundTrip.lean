import EwfImage.Image.Ewf1RoundTrip
import EwfImage.Image.Index

/-!
# Looking up the chunks of a written EWF1 segment

The ranges of the table groups tile the chunks of the segment, so the search for a
chunk leads to its group and to its entry there. What the lookup returns is the chunk
as it was placed, when the reader admits its stored size.

The main result is `readBack_of_writeEwf1Segment`, about every segment that the writer emits:
the scan finds its sections, the ranges of its tables are those of its groups and index all
chunks, and the lookup of each chunk gives the place and the size at which it was written
exactly when the reader admits the stored size. `nextEntry_eq` and `placeable_or_large` are the
facts about one entry that carry it. The chunks are any descriptors, with any sizes and flags;
`not_readBack_of_any_chunk` is one that the writer takes and the reader does not find again.
-/

namespace EwfImage.Ewf1

open Fallible LittleEndian Slice Word Tiling

/-! ## Admitted sizes -/

theorem zlibCompressedChunkSizeCap_le {chunkSize cap : Nat} (hsize : chunkSize ≤ maxChunkSize)
    (h : zlibCompressedChunkSizeCap chunkSize = .ok cap) : cap ≤ compressedBit := by
  simp only [zlibCompressedChunkSizeCap, bind_eq_ok, okOr_eq_ok, checkedAdd_eq_some,
    checkedMul_eq_some, pure_eq_ok, Except.ok.injEq, Nat.shiftRight_eq_div_pow] at h
  obtain ⟨_, ⟨_, rfl⟩, _, ⟨_, rfl⟩, _, ⟨_, rfl⟩, _, ⟨_, rfl⟩, _, ⟨_, rfl⟩, _, ⟨_, rfl⟩, _,
    ⟨_, rfl⟩, _, ⟨_, rfl⟩, rfl⟩ := h
  simp only [maxChunkSize, compressedBit] at *
  omega

theorem dataSize_le_of_valid {chunkSize dataSize : Nat} {method : CompressionMethod}
    {allowLarge : Bool} (hsize : chunkSize ≤ maxChunkSize)
    (h : validateEwf1EncodedSize dataSize chunkSize (flagEncoding method true) allowLarge = .ok ()) :
    dataSize ≤ compressedBit := by
  have hdouble : chunkSize * 2 ≤ compressedBit := by
    simp only [maxChunkSize, compressedBit] at *
    omega
  by_cases hzstd : method = .zstd
  · simp only [flagEncoding, hzstd, if_true, validateEwf1EncodedSize, reduceCtorEq, if_false,
      validateEncodedSize, encodedSizeCap, zstdCompressedChunkSizeCap, bind_eq_ok, rejectIf_eq_ok,
      okOr_eq_ok, checkedMul_eq_some] at h
    obtain ⟨_, _, _, ⟨_, rfl⟩, hle⟩ := h
    omega
  · simp only [flagEncoding, if_true, hzstd, if_false, validateEwf1EncodedSize, bind_eq_ok] at h
    obtain ⟨standard, hstandard, h⟩ := h
    split at h
    · rename_i hsmall
      exact Nat.le_trans hsmall.2 (zlibCompressedChunkSizeCap_le hsize hstandard)
    · simp only [bind_eq_ok, rejectIf_eq_ok, okOr_eq_ok, checkedMul_eq_some] at h
      obtain ⟨_, _, _, ⟨_, rfl⟩, hle⟩ := h
      omega

/-- Whatever a lookup returns has a size that was checked. -/
theorem ewf1Chunk_valid {range : TableRange} {chunkSize localIndex logicalSize raw : Nat}
    {nextRaw : Option Nat} {chunk : Chunk}
    (h : ewf1Chunk range chunkSize localIndex logicalSize raw nextRaw = .ok chunk) :
    validateEwf1EncodedSize chunk.encodedSize chunkSize chunk.encoding
      range.ewf1AllowLargeCompressedChunks = .ok () := by
  simp only [ewf1Chunk, bind_eq_ok, pure_eq_ok, Except.ok.injEq] at h
  obtain ⟨_, _, _, _, _, _, _, _, _, _, _, hvalid, rfl⟩ := h
  exact hvalid

/-! ## One entry -/

section Entries

variable {spool : Bytes} {file : SegmentFile} {group : TableGroup} {writesTable2 hasFooter : Bool}
  {offset : Nat}

theorem readTableEntry_eq {i : Nat} {chunk : ChunkDescriptor} (segmentIndex nextChunk : Nat)
    (profile : Ewf1RangeProfile) (hvalid : group.ValidAt spool hasFooter offset)
    (hin : GroupIn file writesTable2 offset group) (hi : group.chunks[i]? = some chunk) :
    ∃ entryOffset bytes,
      tableEntryOffset (groupRange segmentIndex nextChunk offset profile group) i 4 =
        .ok entryOffset ∧
      file.readExactAt entryOffset 4 = .ok bytes ∧
      storedSize (group.chunks.take i) < compressedBit ∧
      fromLE bytes = storedSize (group.chunks.take i) +
        if chunk.compressed then compressedBit else 0 := by
  have hbound := file.length_lt
  have hfits := hin.tableFits
  have hpos : 0 < sectionDescriptorSize := by decide
  obtain ⟨entries, hentries, htable⟩ := ewf1TableData_eq hvalid.table
  have hlength := length_ewf1TableEntries hentries
  have hsize := length_ewf1TableData hvalid.table
  obtain ⟨hlt, -⟩ := List.getElem?_eq_some_iff.mp hi
  obtain ⟨hoffset, hslice⟩ := ewf1TableEntries_getElem hentries hi
  rw [Nat.zero_add] at hoffset hslice
  have hentry : slice group.table (24 + i * 4) 4 =
      toLE 4 (storedSize (group.chunks.take i) + if chunk.compressed then compressedBit else 0) := by
    have hheader := length_tableHeader group.chunks.length (offset + sectionDescriptorSize)
    rw [← hslice, htable, List.append_assoc, slice_append_right (by omega), hheader,
      Nat.add_sub_cancel_left, slice_append_left (by omega)]
  have hpart := slice_payload (24 + i * 4) 4 hin.table (by omega)
  have hposition : (groupRange segmentIndex nextChunk offset profile group).entriesOffset + i * 4 =
      offset + (sectionDescriptorSize + group.data.length) + sectionDescriptorSize +
        (24 + i * 4) := by
    simp only [groupRange]
    omega
  generalize groupRange segmentIndex nextChunk offset profile group = range at hposition ⊢
  have hread : file.readExactAt (range.entriesOffset + i * 4) 4 =
      .ok (slice file.bytes (range.entriesOffset + i * 4) 4) := readExactAt_of_le (by omega)
  refine ⟨range.entriesOffset + i * 4, _, ?_, hread, hoffset, ?_⟩
  · unfold tableEntryOffset
    rw [checkedMul_of_lt (by omega), okOr_some, ok_bind, checkedAdd_of_lt (by omega), okOr_some]
  · rw [hposition, hpart, hentry, fromLE_toLE_of_lt]
    simp only [compressedBit] at *
    split <;> omega

/-- The sizes before a chunk, its own and the ones behind it. -/
theorem storedSize_split {chunks : List ChunkDescriptor} {j : Nat} {chunk : ChunkDescriptor}
    (hj : chunks[j]? = some chunk) : storedSize chunks =
      storedSize (chunks.take j) + (chunk.dataSize + storedSize (chunks.drop (j + 1))) := by
  obtain ⟨hlt, hget⟩ := List.getElem?_eq_some_iff.mp hj
  have hsplit := storedSize_append (chunks.take j) (chunks.drop j)
  rw [List.take_append_drop] at hsplit
  rw [hsplit, List.drop_eq_getElem_cons hlt, storedSize_cons, hget]

theorem storedSize_take_succ {chunks : List ChunkDescriptor} {j : Nat} {chunk : ChunkDescriptor}
    (hj : chunks[j]? = some chunk) :
    storedSize (chunks.take (j + 1)) = storedSize (chunks.take j) + chunk.dataSize := by
  rw [List.take_add_one, hj, Option.toList_some, storedSize_append, storedSize_cons,
    storedSize_nil, Nat.add_zero]

section Lookup

variable {readTable : Nat → Nat → Nat → Result Bytes} {segmentIndex chunkSize j : Nat}
  {chunk : ChunkDescriptor} {nextChunk logicalSize : Nat} {profile : Ewf1RangeProfile}

/-- The entry behind the one of a chunk is read. It holds the offset behind the chunk, as the end
of the sectors section does behind the last chunk. -/
theorem nextEntry_eq (hread : readTable segmentIndex = file.readExactAt)
    (hvalid : group.ValidAt spool hasFooter offset) (hin : GroupIn file writesTable2 offset group)
    (hj : group.chunks[j]? = some chunk) :
    ∃ nextRaw, (if j + 1 < (groupRange segmentIndex nextChunk offset profile group).chunkCount then do
        let nextOffset ← tableEntryOffset
          (groupRange segmentIndex nextChunk offset profile group) (j + 1) 4
        let nextRaw ← readTable
          (groupRange segmentIndex nextChunk offset profile group).segmentIndex nextOffset 4
        return some (fromLE nextRaw)
      else .ok none) = .ok nextRaw ∧
      (storedSize group.chunks ≤ compressedBit ∨ group.chunks.length ≤ 1 →
        nextEwf1Offset (groupRange segmentIndex nextChunk offset profile group) chunkSize j nextRaw =
          .ok (offset + sectionDescriptorSize + storedSize (group.chunks.take j) +
            chunk.dataSize)) := by
  have hbound := file.length_lt
  have hfits := hin.tableFits
  have hdata := hvalid.data.length
  have hsplit := storedSize_split hj
  obtain ⟨hlt, -⟩ := List.getElem?_eq_some_iff.mp hj
  have hend : (groupRange segmentIndex nextChunk offset profile group).dataEnd =
      some (offset + sectionDescriptorSize + group.data.length) := rfl
  have hcount : (groupRange segmentIndex nextChunk offset profile group).chunkCount =
      group.chunks.length := rfl
  by_cases hlast : j + 1 < group.chunks.length
  · obtain ⟨nextOffset, nextBytes, hnextOffset, hnextBytes, hnextRelative, hnext⟩ :=
      readTableEntry_eq segmentIndex nextChunk profile hvalid hin (List.getElem?_eq_getElem hlast)
    refine ⟨some (fromLE nextBytes), ?_, ?_⟩
    · rw [if_pos (by omega), hnextOffset, ok_bind,
        show (groupRange segmentIndex nextChunk offset profile group).segmentIndex = segmentIndex
          from rfl, hread, hnextBytes]
      rfl
    · intro hsmall
      have hsmall : storedSize group.chunks ≤ compressedBit := by
        rcases hsmall with hsmall | hone
        · exact hsmall
        · omega
      have htake := storedSize_take_succ hj
      have hbase : (groupRange segmentIndex nextChunk offset profile group).baseOffset =
          offset + sectionDescriptorSize := rfl
      generalize groupRange segmentIndex nextChunk offset profile group = range at *
      have hdecode : decodeEwf1Entry range (storedSize (group.chunks.take (j + 1)) +
          if group.chunks[j + 1].compressed then compressedBit else 0) chunkSize none
          (decide (j + 2 = range.chunkCount)) = .ok ⟨group.chunks[j + 1].compressed,
            range.baseOffset + storedSize (group.chunks.take (j + 1))⟩ :=
        decodeEwf1Entry_placed none hnextRelative (by rw [hbase]; omega) hend (by omega)
          (.inr (by omega))
      simp only [nextEwf1Offset, hnext]
      rw [hdecode, hbase, htake]
      simp only [Except.map]
      congr 1
      omega
  · refine ⟨none, if_neg (by omega), ?_⟩
    intro _
    have hrest : group.chunks.drop (j + 1) = [] := List.drop_eq_nil_of_le (by omega)
    have hnone : storedSize (group.chunks.drop (j + 1)) = 0 := by rw [hrest, storedSize_nil]
    simp only [nextEwf1Offset, hend, okOr_some]
    congr 1
    omega

/-- The lookup of a chunk of a group decodes the entry of the chunk. -/
theorem lookupEwf1Chunk_eq_chunk (hread : readTable segmentIndex = file.readExactAt)
    (hvalid : group.ValidAt spool hasFooter offset) (hin : GroupIn file writesTable2 offset group)
    (hj : group.chunks[j]? = some chunk) :
    storedSize (group.chunks.take j) < compressedBit ∧ ∃ nextRaw,
      lookupEwf1Chunk readTable (groupRange segmentIndex nextChunk offset profile group) chunkSize j
          logicalSize =
        ewf1Chunk (groupRange segmentIndex nextChunk offset profile group) chunkSize j logicalSize
          (storedSize (group.chunks.take j) + if chunk.compressed then compressedBit else 0)
          nextRaw ∧
      (storedSize group.chunks ≤ compressedBit ∨ group.chunks.length ≤ 1 →
        nextEwf1Offset (groupRange segmentIndex nextChunk offset profile group) chunkSize j nextRaw =
          .ok (offset + sectionDescriptorSize + storedSize (group.chunks.take j) +
            chunk.dataSize)) := by
  obtain ⟨entryOffset, bytes, hentryOffset, hbytes, hrelative, hraw⟩ :=
    readTableEntry_eq segmentIndex nextChunk profile hvalid hin hj
  obtain ⟨nextRaw, hnextRead, hnext⟩ := @nextEntry_eq spool file group writesTable2 hasFooter offset
    readTable segmentIndex chunkSize j chunk nextChunk profile hread hvalid hin hj
  have hentry : readTable (groupRange segmentIndex nextChunk offset profile group).segmentIndex
      entryOffset 4 = .ok bytes := by
    rw [show (groupRange segmentIndex nextChunk offset profile group).segmentIndex = segmentIndex
      from rfl, hread]
    exact hbytes
  refine ⟨hrelative, nextRaw, ?_, hnext⟩
  unfold lookupEwf1Chunk
  rw [hentryOffset, ok_bind, hentry, ok_bind, hnextRead, ok_bind, hraw]

/-- The table can place the chunk, or the chunk alone is larger than any offset of the table. -/
theorem placeable_or_large (hvalid : group.ValidAt spool hasFooter offset)
    (hj : group.chunks[j]? = some chunk) :
    (chunk.compressed = false ∨ storedSize group.chunks ≤ compressedBit) ∧
        (storedSize group.chunks ≤ compressedBit ∨ group.chunks.length ≤ 1) ∨
      chunk.compressed = true ∧ compressedBit < chunk.dataSize := by
  by_cases hsmall : storedSize group.chunks ≤ compressedBit
  · exact .inl ⟨.inr hsmall, .inl hsmall⟩
  · have hone : group.chunks.length ≤ 1 := by
      rcases hvalid.payload with hone | hpayload
      · exact hone
      · simp only [ewf1TableGroupMaxPayload, compressedBit] at *
        omega
    cases hcompressed : chunk.compressed with
    | false => exact .inl ⟨.inl rfl, .inr hone⟩
    | true =>
      right
      obtain ⟨hlt, -⟩ := List.getElem?_eq_some_iff.mp hj
      have hsplit := storedSize_split hj
      have hzero : j = 0 := by omega
      have hrest : group.chunks.drop (j + 1) = [] := List.drop_eq_nil_of_le (by omega)
      rw [hrest, storedSize_nil, hzero, List.take_zero, storedSize_nil] at hsplit
      exact ⟨rfl, by omega⟩

/-- No size of a compressed chunk that large passes the checks of the reader. -/
theorem not_valid_of_large (hsize : chunkSize ≤ maxChunkSize) (hcompressed : chunk.compressed = true)
    (hlarge : compressedBit < chunk.dataSize) :
    validateEwf1EncodedSize chunk.dataSize chunkSize
      (flagEncoding profile.compressionMethod chunk.compressed)
      profile.allowLargeCompressedChunks ≠ .ok () := by
  intro hchecked
  rw [hcompressed] at hchecked
  have hle := dataSize_le_of_valid hsize hchecked
  omega

end Lookup

/-- The lookup of one chunk of a group. -/
theorem lookupEwf1Chunk_eq_placed {readTable : Nat → Nat → Nat → Result Bytes}
    {segmentIndex chunkSize j : Nat} {chunk : ChunkDescriptor} (nextChunk logicalSize : Nat)
    (profile : Ewf1RangeProfile) (hread : readTable segmentIndex = file.readExactAt)
    (hvalid : group.ValidAt spool hasFooter offset) (hin : GroupIn file writesTable2 offset group)
    (hj : group.chunks[j]? = some chunk) (hsize : chunkSize ≤ maxChunkSize) :
    lookupEwf1Chunk readTable (groupRange segmentIndex nextChunk offset profile group) chunkSize j
        logicalSize =
      .ok (placedChunk profile.compressionMethod segmentIndex
        (offset + sectionDescriptorSize + storedSize (group.chunks.take j)) logicalSize chunk) ↔
      Admits chunkSize profile chunk := by
  have hbound := file.length_lt
  have hfits := hin.tableFits
  have hdata := hvalid.data.length
  have hsplit := storedSize_split hj
  obtain ⟨hlt, -⟩ := List.getElem?_eq_some_iff.mp hj
  obtain ⟨hrelative, nextRaw, hlookup, hnext⟩ := @lookupEwf1Chunk_eq_chunk spool file group
    writesTable2 hasFooter offset readTable segmentIndex chunkSize j chunk nextChunk logicalSize
    profile hread hvalid hin hj
  rw [hlookup]
  have hlarge : (groupRange segmentIndex nextChunk offset profile group).ewf1AllowLargeCompressedChunks
      = profile.allowLargeCompressedChunks := rfl
  have hcompression :
      (groupRange segmentIndex nextChunk offset profile group).ewf1CompressionMethod =
        some profile.compressionMethod := rfl
  rcases placeable_or_large hvalid hj with ⟨hkind, hsmall⟩ | ⟨hcompressed, hbig⟩
  · have hend : (groupRange segmentIndex nextChunk offset profile group).dataEnd =
        some (offset + sectionDescriptorSize + group.data.length) := rfl
    have hbase : (groupRange segmentIndex nextChunk offset profile group).baseOffset =
        offset + sectionDescriptorSize := rfl
    have hcount : (groupRange segmentIndex nextChunk offset profile group).chunkCount =
        group.chunks.length := rfl
    have hindex : segmentIndex =
        (groupRange segmentIndex nextChunk offset profile group).segmentIndex := rfl
    have hfull : chunk.compressed = false ∨ offset + sectionDescriptorSize + group.data.length -
        (groupRange segmentIndex nextChunk offset profile group).baseOffset ≤ compressedBit := by
      rcases hkind with hraw | hsmall
      · exact .inl hraw
      · exact .inr (by omega)
    rw [show placedChunk profile.compressionMethod segmentIndex = placedChunk
      profile.compressionMethod (groupRange segmentIndex nextChunk offset profile group).segmentIndex
        from rfl]
    generalize groupRange segmentIndex nextChunk offset profile group = range at *
    have hentry : decodeEwf1Entry range (storedSize (group.chunks.take j) +
        if chunk.compressed then compressedBit else 0) chunkSize nextRaw
        (decide (j + 1 = range.chunkCount)) = .ok ⟨chunk.compressed,
          range.baseOffset + storedSize (group.chunks.take j)⟩ :=
      decodeEwf1Entry_placed nextRaw hrelative (by rw [hbase]; omega) hend (by omega) hfull
    rw [hbase] at hentry
    exact ewf1Chunk_eq_placed hentry (hnext hsmall) hcompression hlarge
  · have hnot := @not_valid_of_large chunkSize chunk profile hsize hcompressed hbig
    refine iff_of_false ?_ (fun hadmits => hnot hadmits.2)
    intro hfound
    have hchecked := ewf1Chunk_valid hfound
    rw [hlarge] at hchecked
    exact hnot hchecked

end Entries

/-! ## All chunks -/

theorem groupRanges_covers (segmentIndex : Nat) (profile : Ewf1RangeProfile) (writesTable2 : Bool)
    (nextChunk offset : Nat) (groups : List TableGroup) :
    TableRange.covers (groupRanges segmentIndex profile writesTable2 nextChunk offset groups) nextChunk
      (nextChunk + (groups.flatMap (·.chunks)).length) := by
  induction groups generalizing nextChunk offset with
  | nil => rfl
  | cons group groups ih =>
    rw [groupRanges, List.flatMap_cons, List.length_append, ← Nat.add_assoc]
    have hrest := ih (nextChunk + group.chunks.length)
      (offset + chainSize (group.sections writesTable2))
    by_cases hempty : group.chunks = []
    · rw [if_pos hempty, List.nil_append]
      have hzero : group.chunks.length = 0 := by simp [hempty]
      rw [hzero, Nat.add_zero] at hrest ⊢
      exact hrest
    · rw [if_neg hempty]
      refine ⟨rfl, ?_, hrest⟩
      exact List.length_pos_iff.mpr hempty

/-- `range` is that of a written group with `chunk` in it. -/
def PlacedIn (spool : Bytes) (file : SegmentFile) (segmentIndex : Nat)
    (profile : Ewf1RangeProfile) (chunk : ChunkDescriptor) (chunkId placement : Nat)
    (range : TableRange) : Prop :=
  ∃ group offset nextChunk j hasFooter writesTable2,
    range = groupRange segmentIndex nextChunk offset profile group ∧
      TableGroup.ValidAt spool hasFooter offset group ∧ GroupIn file writesTable2 offset group ∧
      group.chunks[j]? = some chunk ∧ chunkId = nextChunk + j ∧
      placement = offset + sectionDescriptorSize + storedSize (group.chunks.take j)

theorem exists_placedIn {spool : Bytes} {file : SegmentFile} {hasFooter writesTable2 : Bool}
    {groups : List TableGroup} {i : Nat} {chunk : ChunkDescriptor} (segmentIndex nextChunk : Nat)
    (profile : Ewf1RangeProfile) (pre post : Bytes)
    (hfile : file.bytes =
      pre ++ chainBytes pre.length (groups.flatMap (·.sections writesTable2)) ++ post)
    (hvalid : ValidFrom spool hasFooter writesTable2 pre.length groups)
    (hi : (groups.flatMap (·.chunks))[i]? = some chunk) :
    ∃ placement range, (groupPlacements writesTable2 pre.length groups)[i]? = some placement ∧
      range ∈ groupRanges segmentIndex profile writesTable2 nextChunk pre.length groups ∧
      PlacedIn spool file segmentIndex profile chunk (nextChunk + i) placement range := by
  induction groups generalizing pre nextChunk i with
  | nil => cases hi
  | cons group groups ih =>
    obtain ⟨hgroup, hgroups⟩ := hvalid
    simp only [List.flatMap_cons] at hfile hi
    have hin := groupIn_of_bytes pre post writesTable2 group _ hfile
    rw [groupPlacements, groupRanges]
    by_cases hfirst : i < group.chunks.length
    · rw [List.getElem?_append_left hfirst] at hi
      have hnonempty : group.chunks ≠ [] := by
        rintro hempty
        rw [hempty] at hi
        cases hi
      refine ⟨pre.length + sectionDescriptorSize + storedSize (group.chunks.take i),
        groupRange segmentIndex nextChunk pre.length profile group, ?_, ?_, ?_⟩
      · rw [List.getElem?_append_left (by rw [length_consecutive]; exact hfirst)]
        exact consecutive_getElem? hfirst
      · rw [if_neg hnonempty]
        exact List.mem_append_left _ (List.mem_singleton.mpr rfl)
      · exact ⟨group, pre.length, nextChunk, i, hasFooter, writesTable2, rfl, hgroup, hin, hi, rfl,
          rfl⟩
    · have hge : group.chunks.length ≤ i := Nat.le_of_not_lt hfirst
      rw [List.getElem?_append_right hge] at hi
      have hlen : (pre ++ chainBytes pre.length (group.sections writesTable2)).length =
          pre.length + chainSize (group.sections writesTable2) := by
        rw [List.length_append, length_chainBytes]
      obtain ⟨placement, range, hplacement, hrange, hplaced⟩ :=
        ih (nextChunk + group.chunks.length)
          (pre ++ chainBytes pre.length (group.sections writesTable2))
          (by rw [hfile, chainBytes_append, hlen]; simp only [List.append_assoc])
          (by rw [hlen]; exact hgroups) hi
      rw [hlen] at hplacement hrange
      refine ⟨placement, range, ?_, List.mem_append_right _ hrange, ?_⟩
      · rw [List.getElem?_append_right (by rw [length_consecutive]; exact hge), length_consecutive]
        exact hplacement
      · have hid : nextChunk + group.chunks.length + (i - group.chunks.length) = nextChunk + i := by
          omega
        rw [hid] at hplaced
        exact hplaced

theorem slice_placed {spool : Bytes} {file : SegmentFile} {segmentIndex chunkId placement : Nat}
    {profile : Ewf1RangeProfile} {chunk : ChunkDescriptor} {range : TableRange}
    (h : PlacedIn spool file segmentIndex profile chunk chunkId placement range) :
    slice file.bytes placement chunk.dataSize = slice spool chunk.dataOffset chunk.dataSize := by
  obtain ⟨group, offset, _, j, _, _, -, hvalid, hin, hj, -, rfl⟩ := h
  have hstored := hvalid.data.stored j chunk hj
  have hlength := hvalid.data.length
  obtain ⟨hlt, hget⟩ := List.getElem?_eq_some_iff.mp hj
  have hsplit := storedSize_append (group.chunks.take j) (group.chunks.drop j)
  rw [List.take_append_drop, List.drop_eq_getElem_cons hlt, storedSize_cons, hget] at hsplit
  rw [slice_payload _ _ hin.data (by omega), hstored]

/-! ## The segment -/

theorem filter_metadata {offset : Nat} {sections : List ChainSection}
    (h : ∀ entry ∈ sections, entry.name.isMetadata) :
    (locate offset sections).filter isTableSection = [] := by
  rw [List.filter_eq_nil_iff]
  intro found hfound
  obtain ⟨entry, hentry, start, rfl, -, -⟩ := mem_locate hfound
  have hname := h entry hentry
  have htable : entry.name.type ≠ ascii "table" := by
    rw [Ne, SectionName.type_eq_table]
    rintro hname'
    rw [hname'] at hname
    exact absurd hname (by decide)
  have htable2 : entry.name.type ≠ ascii "table2" := by
    rw [Ne, SectionName.type_eq_table2]
    rintro hname'
    rw [hname'] at hname
    exact absurd hname (by decide)
  simp [isTableSection, ChainSection.located, htable, htable2]

theorem terminalAt_not_table (terminal : TerminalSection) (offset : Nat) :
    isTableSection (terminalAt terminal offset) = false := by
  have htypes : terminal.ewf1Type ≠ ascii "table" ∧ terminal.ewf1Type ≠ ascii "table2" := by
    cases terminal <;> decide
  simp [isTableSection, terminalAt, htypes]

/-- The end of a located section, from its start. -/
def sectionSize (found : Ewf1Section) : Nat := sectionDescriptorSize + found.dataSize

theorem locate_tiles (offset : Nat) (sections : List ChainSection) :
    Tiles (·.desc.offset) sectionSize offset (locate offset sections)
      (offset + chainSize sections) := by
  induction sections generalizing offset with
  | nil => rfl
  | cons entry sections ih =>
    have hpos : 0 < sectionDescriptorSize := by decide
    rw [locate, chainSize_cons, ← Nat.add_assoc]
    refine ⟨rfl, ?_, ih (offset + entry.size)⟩
    simp only [sectionSize]
    omega

/-- The sections of a segment are those that were written, one behind the other up to the end of
the file, and the last one is the terminal section. -/
structure ListsSections (file : SegmentFile) (out : SegmentOutput Bytes)
    (terminal : TerminalSection) (sections : List Ewf1Section) : Prop where
  scanned : scanEwf1Sections file = .ok sections
  emitted : sections.map (fun found => (found.desc.sectionType, found.desc.offset)) =
    out.descriptors
  contiguous : Tiles (·.desc.offset) sectionSize fileHeaderSize sections file.bytes.length
  data : ∀ found ∈ sections, found.dataOffset = found.desc.offset + sectionDescriptorSize
  last : sections.getLast?.map (·.desc.sectionType) = some terminal.ewf1Type

/-- The ranges lead to exactly the chunks of a segment: they cover the numbers of its chunks and no
others, each chunk has its spooled bytes at its placement, and the lookup through the range finds it
there if and only if the reader admits its size. -/
structure FindsChunks (spool : Bytes) (file : SegmentFile) (out : SegmentOutput Bytes)
    (chunks : List ChunkDescriptor) (readTable : Nat → Nat → Nat → Result Bytes)
    (segmentIndex firstChunk chunkSize : Nat) (profile : Ewf1RangeProfile)
    (ranges : List TableRange) : Prop where
  covers : TableRange.covers ranges firstChunk (firstChunk + chunks.length)
  others : ∀ chunkId, chunkId < firstChunk ∨ firstChunk + chunks.length ≤ chunkId →
    coveringRange ranges chunkId = none
  found : ∀ i chunk, chunks[i]? = some chunk → ∃ placement range,
    out.placements[i]? = some placement ∧
      slice file.bytes placement chunk.dataSize = slice spool chunk.dataOffset chunk.dataSize ∧
      coveringRange ranges (firstChunk + i) = some range ∧ range.firstChunk ≤ firstChunk + i ∧
      ∀ logicalSize, IsPlaced (lookupEwf1Chunk readTable range chunkSize
          (firstChunk + i - range.firstChunk) logicalSize) segmentIndex placement chunk ↔
        Admits chunkSize profile chunk

section Segment

variable {spool : Bytes} {file : SegmentFile} {out : SegmentOutput Bytes}
  {chunks : List ChunkDescriptor} {terminal : TerminalSection} {hasFooter writesTable2 : Bool}
  {fileHeader : Bytes} {before after : List ChainSection} {groups : List TableGroup}

theorem SegmentShape.scan (h : SegmentShape spool out chunks terminal hasFooter writesTable2
    fileHeader before groups after) (hfile : file.bytes = out.bytes) :
    scanEwf1Sections file = .ok (locate fileHeaderSize
        (before ++ groups.flatMap (·.sections writesTable2) ++ after) ++
      [terminalAt terminal (fileHeaderSize +
        chainSize (before ++ groups.flatMap (·.sections writesTable2) ++ after))]) := by
  have hbytes := hfile.trans h.bytes
  rw [← h.header] at hbytes
  have hscan := scanEwf1SectionsFrom_chain fileHeader hbytes
  rw [h.header] at hscan
  exact hscan

theorem SegmentShape.listsSections (h : SegmentShape spool out chunks terminal hasFooter
    writesTable2 fileHeader before groups after) (hfile : file.bytes = out.bytes) :
    ListsSections file out terminal (locate fileHeaderSize
        (before ++ groups.flatMap (·.sections writesTable2) ++ after) ++
      [terminalAt terminal (fileHeaderSize +
        chainSize (before ++ groups.flatMap (·.sections writesTable2) ++ after))]) := by
  have hpos : 0 < sectionDescriptorSize := by decide
  have hbytes := hfile.trans h.bytes
  refine ⟨h.scan hfile, ?_, ?_, ?_, ?_⟩
  · rw [List.map_append, descriptors_locate, h.descriptors]
    rfl
  · have hlength : file.bytes.length = fileHeaderSize +
        chainSize (before ++ groups.flatMap (·.sections writesTable2) ++ after) +
          sectionDescriptorSize := by
      rw [hbytes, List.length_append, List.length_append, length_chainBytes, h.header,
        length_sectionDesc _ _ (length_terminalType terminal)]
    rw [hlength]
    refine Tiles.append (locate_tiles _ _) ⟨rfl, ?_, ?_⟩
    · simp only [sectionSize]
      omega
    · simp [Tiles, sectionSize, terminalAt]
  · intro found hfound
    rcases List.mem_append.mp hfound with hfound | hfound
    · obtain ⟨entry, _, start, rfl, -, -⟩ := mem_locate hfound
      rfl
    · rw [List.mem_singleton.mp hfound]
      rfl
  · simp [terminalAt]

theorem SegmentShape.findsChunks
    (h : SegmentShape spool out chunks terminal hasFooter writesTable2 fileHeader before groups after)
    (readTable : Nat → Nat → Nat → Result Bytes)
    (segmentIndex firstChunk chunkSize logicalSize : Nat) (profile : Ewf1RangeProfile)
    (hfile : file.bytes = out.bytes) (hread : readTable segmentIndex = file.readExactAt)
    (hbound : firstChunk + chunks.length < u64Limit) (hcoverage : chunks ≠ [] ∨ logicalSize = 0)
    (hsize : chunkSize ≤ maxChunkSize) :
    ∃ ranges, parseEwf1Ranges file (locate fileHeaderSize
          (before ++ groups.flatMap (·.sections writesTable2) ++ after) ++
        [terminalAt terminal (fileHeaderSize +
          chainSize (before ++ groups.flatMap (·.sections writesTable2) ++ after))])
        segmentIndex firstChunk logicalSize profile = .ok ranges ∧
      FindsChunks spool file out chunks readTable segmentIndex firstChunk chunkSize profile
        ranges := by
  generalize hend : terminalAt terminal (fileHeaderSize +
    chainSize (before ++ groups.flatMap (·.sections writesTable2) ++ after)) = last
  have hterminal : isTableSection last = false := by
    rw [← hend]
    exact terminalAt_not_table _ _
  have hbefore : ∀ entry ∈ before, entry.name.isMetadata := fun entry hentry =>
    h.metadata entry (List.mem_append_left _ hentry)
  have hafter : ∀ entry ∈ after, entry.name.isMetadata := fun entry hentry =>
    h.metadata entry (List.mem_append_right _ hentry)
  -- The groups stand behind the sections `before`.
  have hfront : (fileHeader ++ chainBytes fileHeaderSize before).length =
      fileHeaderSize + chainSize before := by
    rw [List.length_append, length_chainBytes, h.header]
  have hbytes : ∃ post, file.bytes = fileHeader ++ chainBytes fileHeaderSize before ++
      chainBytes (fileHeader ++ chainBytes fileHeaderSize before).length
        (groups.flatMap (·.sections writesTable2)) ++ post := by
    refine ⟨chainBytes (fileHeaderSize +
      chainSize (before ++ groups.flatMap (·.sections writesTable2))) after ++
        sectionDesc terminal.ewf1Type (fileHeaderSize + chainSize (before ++
          groups.flatMap (·.sections writesTable2) ++ after)) sectionDescriptorSize, ?_⟩
    rw [hfile, h.bytes, chainBytes_append, chainBytes_append, hfront]
    simp only [List.append_assoc]
  obtain ⟨post, hbytes⟩ := hbytes
  have hvalid := h.valid
  rw [← hfront] at hvalid
  generalize hstart : fileHeader ++ chainBytes fileHeaderSize before = pre at *
  have hbeforeEnd : ∀ found ∈ locate fileHeaderSize before, found.desc.offset ≤ pre.length ∧
      found.dataOffset + found.dataSize ≤ pre.length := by
    intro found hfound
    obtain ⟨entry, _, start, rfl, _, hle⟩ := mem_locate hfound
    simp only [ChainSection.located, ChainSection.size] at hle ⊢
    omega
  have hparse := parseEwf1RangesFrom_groups segmentIndex firstChunk profile pre post
    (locate fileHeaderSize before) (locate (pre.length +
      chainSize (groups.flatMap (·.sections writesTable2))) after ++ [last])
    hbytes hbeforeEnd hvalid (by rw [h.chunks]; exact hbound) none
  have hsections : locate fileHeaderSize
      (before ++ groups.flatMap (·.sections writesTable2) ++ after) ++ [last] =
      locate fileHeaderSize before ++ locate pre.length (groups.flatMap (·.sections writesTable2)) ++
        (locate (pre.length + chainSize (groups.flatMap (·.sections writesTable2))) after ++
          [last]) := by
    rw [locate_append, locate_append, chainSize_append, hfront, ← Nat.add_assoc]
    simp only [List.append_assoc]
  have hfilter : (locate fileHeaderSize before ++
      locate pre.length (groups.flatMap (·.sections writesTable2)) ++
      (locate (pre.length + chainSize (groups.flatMap (·.sections writesTable2))) after ++
        [last])).filter isTableSection =
      (locate pre.length (groups.flatMap (·.sections writesTable2))).filter isTableSection := by
    rw [List.filter_append, List.filter_append, List.filter_append, filter_metadata hbefore,
      filter_metadata hafter, List.filter_cons_of_neg (by simp [hterminal])]
    simp
  have hcovers := groupRanges_covers segmentIndex profile writesTable2 firstChunk pre.length groups
  rw [h.chunks] at hcovers
  refine ⟨_, ?_, ⟨hcovers, ?_, ?_⟩⟩
  · unfold parseEwf1Ranges
    rw [hsections, hfilter, hparse, ok_bind, rejectIf_neg, ok_bind]
    · rfl
    · rintro ⟨hnone, hpositive⟩
      rcases hcoverage with hchunks | hzero
      · rw [hnone] at hcovers
        have hempty : firstChunk = firstChunk + chunks.length := hcovers
        have hlength := List.length_pos_iff.mpr hchunks
        omega
      · omega
  · intro chunkId hout
    exact coveringRange_eq_none hcovers hbound hout
  · intro i chunk hi
    have hlt : i < chunks.length := (List.getElem?_eq_some_iff.mp hi).1
    rw [← h.chunks] at hi
    obtain ⟨placement, range, hplacement, hrange, hplaced⟩ :=
      exists_placedIn segmentIndex firstChunk profile pre post hbytes hvalid hi
    refine ⟨placement, range, ?_, slice_placed hplaced, ?_, ?_, ?_⟩
    · rw [h.placements, ← hfront]
      exact hplacement
    all_goals
      obtain ⟨group, offset, nextChunk, j, _, _, rfl, hgroup, hin, hj, hid, rfl⟩ := hplaced
    · have hjlt : j < group.chunks.length := (List.getElem?_eq_some_iff.mp hj).1
      exact coveringRange_eq_some hcovers hbound hrange
        (by simp only [groupRange]; omega) (by simp only [groupRange]; omega)
    · simp only [groupRange]
      omega
    · intro logicalSize
      have hlocal : firstChunk + i -
          (groupRange segmentIndex nextChunk offset profile group).firstChunk = j := by
        simp only [groupRange]
        omega
      have hexact := lookupEwf1Chunk_eq_placed nextChunk logicalSize profile hread hgroup hin hj
        hsize
      rw [hlocal, ← hexact]
      constructor
      · exact eq_placedChunk_of_isPlaced rfl
      · intro hfound
        exact ⟨_, hfound, rfl, rfl, rfl, flagEncoding_eq_raw⟩

end Segment

/-- What the writer puts into a segment the reader finds: scanning lists the sections that were
written, indexing their tables gives ranges for exactly the chunks of the segment, and looking a
chunk up leads to its bytes unless its size is one that the profile of the ranges refuses. -/
theorem readBack_of_writeEwf1Segment {encoders : Ewf1PayloadEncoders} {spool : Bytes}
    {chunks : List ChunkDescriptor} {options : WriteOptions} {context : Ewf1SegmentWriteContext}
    {out : SegmentOutput Bytes} {file : SegmentFile}
    {readTable : Nat → Nat → Nat → Result Bytes} {segmentIndex firstChunk chunkSize : Nat}
    (profile : Ewf1RangeProfile)
    (h : writeEwf1Segment encoders spool chunks options context = .ok out)
    (hfile : file.bytes = out.bytes) (hread : readTable segmentIndex = file.readExactAt)
    (hbound : firstChunk + chunks.length < u64Limit) (hsize : chunkSize ≤ maxChunkSize) :
    ∃ sections, ListsSections file out context.terminalSection sections ∧
      ∀ logicalSize, chunks ≠ [] ∨ logicalSize = 0 → ∃ ranges,
        parseEwf1Ranges file sections segmentIndex firstChunk logicalSize profile = .ok ranges ∧
        FindsChunks spool file out chunks readTable segmentIndex firstChunk chunkSize profile
          ranges := by
  obtain ⟨fileHeader, before, groups, after, hshape⟩ := writeEwf1Segment_shape h
  exact ⟨_, hshape.listsSections hfile, fun logicalSize hcoverage =>
    hshape.findsChunks _ _ _ _ _ _ hfile hread hbound hcoverage hsize⟩

/-! ## Sizes that the reader does not admit -/

def noPayloads : Ewf1PayloadEncoders :=
  ⟨fun _ => .ok none, fun _ => .ok none, fun _ => .ok none, fun _ => .ok none,
    fun _ => .ok none, fun _ => .ok none, fun _ => .ok none, fun _ => .ok none⟩

/-- A SMART image with chunks of one byte. -/
def oneByteSmart : WriteOptions where
  format := .ewf1Smart
  sectorsPerChunk := 1
  bytesPerSector := 1

def onlySegment : Ewf1SegmentWriteContext where
  segmentNumber := 1
  chunkCount := 2
  sectorCount := 2
  sections := .forSegment true true
  terminalSection := .done

def smartProfile : Ewf1RangeProfile := ⟨true, .zlib⟩

/-- A raw chunk of `dataSize` bytes at the start of the spool. -/
def rawChunk (dataSize : Nat) : ChunkDescriptor where
  dataOffset := 0
  dataSize
  compressed := false
  hasChecksum := true
  patternFill := none

/-- Raw chunks with the checksum of their byte; the second one has a byte too many. -/
def paddedChunks : List ChunkDescriptor := [rawChunk 5, rawChunk 6]

theorem paddedChunks_written : ∃ (out : SegmentOutput Bytes) (file : SegmentFile),
    writeEwf1Segment noPayloads [7, 8, 0, 8, 0, 0] paddedChunks oneByteSmart onlySegment = .ok out ∧
      file.bytes = out.bytes := by
  have hlength : (writeEwf1Segment noPayloads [7, 8, 0, 8, 0, 0] paddedChunks oneByteSmart
      onlySegment).map (·.bytes.length) = .ok 454 := by
    decide +kernel
  cases hwritten : writeEwf1Segment noPayloads [7, 8, 0, 8, 0, 0] paddedChunks oneByteSmart
      onlySegment with
  | error e =>
    rw [hwritten] at hlength
    cases hlength
  | ok out =>
    rw [hwritten] at hlength
    have hbytes : out.bytes.length = 454 := Except.ok.inj hlength
    refine ⟨out, ⟨out.bytes, ?_⟩, rfl, rfl⟩
    rw [hbytes]
    decide

/-- The segment of two raw chunks is read back, the first chunk as it was placed. -/
theorem readBack_of_writeEwf1Segment_padded : ∃ (out : SegmentOutput Bytes) (file : SegmentFile),
    writeEwf1Segment noPayloads [7, 8, 0, 8, 0, 0] paddedChunks oneByteSmart onlySegment = .ok out ∧
      ∃ sections, ListsSections file out .done sections ∧
        ∀ logicalSize, paddedChunks ≠ [] ∨ logicalSize = 0 → ∃ ranges,
          parseEwf1Ranges file sections 0 0 logicalSize smartProfile = .ok ranges ∧
          FindsChunks [7, 8, 0, 8, 0, 0] file out paddedChunks (fun _ => file.readExactAt) 0 0 1
            smartProfile ranges := by
  obtain ⟨out, file, hwritten, hfile⟩ := paddedChunks_written
  exact ⟨out, file, hwritten, readBack_of_writeEwf1Segment smartProfile hwritten hfile rfl
    (by decide) (by decide)⟩

/-- Not every chunk that the segment writer accepts is read back: a raw chunk with a byte too many
is taken for a compressed one. -/
theorem not_readBack_of_any_chunk :
    ¬ ∀ (encoders : Ewf1PayloadEncoders) (spool : Bytes) (chunks : List ChunkDescriptor)
      (options : WriteOptions) (context : Ewf1SegmentWriteContext) (out : SegmentOutput Bytes)
      (file : SegmentFile) (profile : Ewf1RangeProfile) (logicalSize : Nat),
      writeEwf1Segment encoders spool chunks options context = .ok out → file.bytes = out.bytes →
      chunks.length < u64Limit →
      options.sectorsPerChunk.toNat * options.bytesPerSector.toNat ≤ maxChunkSize →
      ∃ sections ranges, scanEwf1Sections file = .ok sections ∧
        parseEwf1Ranges file sections 0 0 logicalSize profile = .ok ranges ∧
        ∀ i chunk, chunks[i]? = some chunk → ∃ placement range,
          out.placements[i]? = some placement ∧ coveringRange ranges i = some range ∧
          IsPlaced (lookupEwf1Chunk (fun _ => file.readExactAt) range
            (options.sectorsPerChunk.toNat * options.bytesPerSector.toNat) (i - range.firstChunk)
            (min (logicalSize - i * (options.sectorsPerChunk.toNat * options.bytesPerSector.toNat))
              (options.sectorsPerChunk.toNat * options.bytesPerSector.toNat))) 0 placement chunk := by
  intro hall
  obtain ⟨out, file, hwritten, hfile⟩ := paddedChunks_written
  obtain ⟨sections, ranges, hscan, hparse, hchunks⟩ :=
    hall _ _ _ _ _ out file smartProfile 2 hwritten hfile (by decide) (by decide)
  obtain ⟨fileHeader, before, groups, after, hshape⟩ := writeEwf1Segment_shape hwritten
  have hsections := Except.ok.inj (hscan.symm.trans (hshape.scan hfile))
  subst hsections
  obtain ⟨ranges', hparse', hfinds⟩ := hshape.findsChunks (fun _ => file.readExactAt) 0 0 1 2
    smartProfile hfile rfl (by decide) (.inl (by decide)) (by decide)
  have hranges := Except.ok.inj (hparse.symm.trans hparse')
  subst hranges
  obtain ⟨placement, range, hplacement, hrange, hplaced⟩ := hchunks 1 (rawChunk 6) rfl
  obtain ⟨placement', range', hplacement', -, hrange', -, hlookup⟩ := hfinds.found 1 (rawChunk 6) rfl
  have hsame : placement = placement' := Option.some.inj (hplacement.symm.trans hplacement')
  have hsameRange : range = range' := Option.some.inj (hrange.symm.trans hrange')
  subst hsame hsameRange
  have hadmits := (hlookup 1).mp hplaced
  rw [admits_raw (by decide) rfl] at hadmits
  exact absurd hadmits.2 (by decide)

end EwfImage.Ewf1
