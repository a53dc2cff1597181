import EwfImage.Image.OpenedSequential
import EwfImage.Lib.Collecting
import EwfImage.Writer.Geometry
import EwfImage.Writer.SegmentGroups

/-!
# Reading back what the sequential writer finishes

An image of all segments of a run has the padded source as its media: every chunk is looked up in
the segment that stores it, and decodes to its piece of the source.

The main result is `sequential_image_reads_source`, about every run of a writer of physical EWF1
images: calls of any lengths, batches of any size, any encoders of headers. The image that is
opened of all segments has the padded source as its media, each chunk decodes, and the errors
and digests are those of the run. The compression libraries invert each other and keep to their
bounds.
-/

namespace EwfImage.SequentialWriter

open Fallible Ewf1 LittleEndian Pieces Reading Slice Word

variable {settings : SequentialOptions} {w : SequentialWriter} {codec : Codec}
  {ewf2 : Ewf2PayloadEncoders} {header header2 xheader ltree : WriteOptions → Result (Option Bytes)}
  {hashes : WriteHashes} {stored merged : StoredHashes} {hint : FormatProfile}
  {files : List SegmentFile} {encoded : List EncodedChunk}

/-! ## All segments -/

/-- The runs: only that of an empty source has no chunks. -/
theorem segmentRuns_eq_cons {perSegment : Nat} (hpos : 0 < perSegment)
    (encoded : List EncodedChunk) :
    ∃ run rest, segmentRuns perSegment encoded = run :: rest ∧ run ++ rest.flatten = encoded ∧
      (run = [] → encoded = []) ∧ ∀ other ∈ rest, other ≠ [] := by
  rw [segmentRuns]
  by_cases hnil : encoded = []
  · rw [if_pos hnil, hnil]
    exact ⟨[], [], rfl, rfl, fun _ => rfl, fun other hother => (by cases hother)⟩
  · rw [if_neg hnil]
    have hflatten := flatten_pieces hpos encoded
    have hnonempty : ∀ piece ∈ pieces perSegment encoded, piece ≠ [] :=
      fun piece hpiece => (ne_nil_of_mem_pieces hpos hpiece).1
    cases hpieces : pieces perSegment encoded with
    | nil =>
      rw [hpieces, List.flatten_nil] at hflatten
      exact absurd hflatten.symm hnil
    | cons run rest =>
      rw [hpieces] at hflatten hnonempty
      exact ⟨run, rest, rfl, hflatten, fun hrun => absurd hrun (hnonempty run List.mem_cons_self),
        fun other hother => hnonempty other (List.mem_cons_of_mem _ hother)⟩

theorem openSegmentSources_staged (decodeHeaderBytes : Bytes → List Char)
    (h : Created (ewf1PayloadEncoders codec header header2 xheader ltree) settings w)
    (hlimits : Limits settings w) (hformat : settings.write.format = .ewf1Physical)
    (hstored : ReadsHashes codec { w.options with hashes } true stored)
    (hmerge : mergeHashes {} stored = .ok merged)
    (hhint : Hinted (initialProfile false false true hint))
    (hrun : stageRuns codec (ewf1PayloadEncoders codec header header2 xheader ltree) ewf2 w
      (w.withHashes hashes) 1 (segmentRuns w.perSegment encoded) = .ok (files.map (·.bytes)))
    (hempty : encoded = [] → w.logicalSize = 0) (hbound : encoded.length < u64Limit) :
    ∃ volume state, OpensChunks files (readSegments files) w volume
        (initialProfile false false true hint) merged encoded state ∧
      openSegmentSources codec decodeHeaderBytes hint files none = state.finish files none := by
  obtain ⟨run, rest, hruns, hall, hnil, hnonempty⟩ :=
    segmentRuns_eq_cons h.perSegment_bounds.1 encoded
  have hlength : encoded.length = run.length + rest.flatten.length := by
    rw [← hall, List.length_append]
  rw [hruns] at hrun
  simp only [stageRuns, bind_eq_ok, pure_eq_ok, Except.ok.injEq] at hrun
  obtain ⟨group, hgroup, bytes, hstage, behind, hbehind, hsegments⟩ := hrun
  cases files with
  | nil => cases hsegments
  | cons first others =>
    rw [List.map_cons, List.cons.injEq] at hsegments
    have hrunOr : run ≠ [] ∨ w.logicalSize = 0 := by
      by_cases hempties : run = []
      · exact .inr (hempty (hnil hempties))
      · exact .inl hempties
    obtain ⟨volume, segment, hvolume, hsegment, hcovers, hfinds, hopen⟩ :=
      openSegment_run decodeHeaderBytes none h hlimits hformat hstored hhint.ne_smart hgroup hstage
        hsegments.1.symm (show (first :: others)[0]? = some first from rfl) hrunOr
        (show 0 + run.length < u64Limit by omega)
    rw [Nat.zero_add] at hcovers
    obtain ⟨state, hfirst, hopens⟩ := opensChunks_first hvolume hsegment
      (mergeHashes_last (rest = []) hmerge) (by omega) hcovers hfinds
    by_cases hlast : rest = []
    · rw [if_pos hlast] at hopens
      subst hlast
      have hnone : others = [] := by
        obtain rfl := Except.ok.inj hbehind
        exact List.map_eq_nil_iff.mp hsegments.2.symm
      rw [List.flatten_nil, List.append_nil] at hall
      rw [hall] at hopens
      refine ⟨volume, state, hopens, ?_⟩
      rw [openSegmentSources, hopen, ok_bind, hfirst, ok_bind, hnone]
      rfl
    · rw [if_neg hlast] at hopens
      obtain ⟨final, hfinal, hchunks⟩ := openSegmentsFrom_staged decodeHeaderBytes h hlimits hformat
        hstored hmerge hhint hvolume Nat.one_ne_zero hlast hnonempty hopens
        hbehind hsegments.2.symm (fun i => by rw [Nat.add_comm, List.getElem?_cons_succ])
        (by omega)
      rw [hall] at hchunks
      refine ⟨volume, final, hchunks, ?_⟩
      rw [openSegmentSources, hopen, ok_bind, hfirst, ok_bind, hfinal, ok_bind]

/-! ## The image -/

/-- What is opened of the segments of a run. -/
structure OpensAs (files : List SegmentFile) (w : SequentialWriter) (stored : StoredHashes)
    (encoded : List EncodedChunk) (opened : OpenedImage) : Prop where
  segments : opened.image.segments = files
  chunkSize : opened.image.chunkSize = w.chunkSize
  logicalSize : opened.image.logicalSize = w.logicalSize
  unencrypted : ∀ segmentIndex, opened.image.encryptionContext segmentIndex = none
  chunks : opened.image.index.logicalChunks = encoded.length
  complete : opened.acquisitionComplete = true
  errors : opened.metadata.acquisitionErrors = w.options.acquisitionErrors
  hashes : opened.metadata.storedHashes = stored
  found : FindsEncoded files (readSegments files) w.chunkSize 0 encoded opened.image.index.ranges

theorem OpensChunks.finish {volume : ParsedVolume} {start : ProfileState} {state : OpenState}
    (h : OpensChunks files (readSegments files) w volume start stored encoded state)
    (hpos : 0 < w.chunkSize) (hcount : encoded.length = divCeil w.logicalSize w.chunkSize)
    (hbound : encoded.length < u64Limit) :
    ∃ opened, state.finish files none = .ok opened ∧ OpensAs files w stored encoded opened := by
  have hsize : state.imageSize = .ok ⟨state.logicalSize, state.logicalSize_lt⟩ := by
    unfold OpenState.imageSize
    split
    · rename_i hundeclared
      have hzero : encoded.length = 0 := by
        rw [hcount, ← h.logicalSize, hundeclared.1, divCeil, if_pos (Nat.zero_mod _), Nat.zero_div]
      have hproduct : state.chunkSize * state.discoveredTableChunks = 0 := by
        rw [h.discovered, hzero, Nat.mul_zero]
      rw [dif_pos (by rw [hproduct]; exact Nat.two_pow_pos 64)]
      congr 1
      exact Subtype.ext (hproduct.trans hundeclared.1.symm)
    · rfl
  have hchunks : logicalChunkCount state.logicalSize state.chunkSize = .ok encoded.length := by
    rw [h.chunkSize, h.logicalSize, hcount]
    exact divCeil_eq_logicalChunkCount hpos
  obtain ⟨index, hindex⟩ := (exists_new_iff hchunks hbound).mpr
    (TableRange.Partition.of_covers h.covers)
  obtain ⟨hindexChunks, hranges⟩ := new_spec hindex
  rw [hchunks, Except.ok.injEq] at hindexChunks
  have hcommitted : committedSize ⟨state.logicalSize, state.logicalSize_lt⟩ none =
      .ok ⟨state.logicalSize, state.logicalSize_lt⟩ := rfl
  unfold OpenState.finish
  rw [hsize, ok_bind, hcommitted, ok_bind]
  split
  · rename_i e herror
    rw [hindex] at herror
    cases herror
  · rename_i found hfound
    rw [hindex] at hfound
    obtain rfl := Except.ok.inj hfound
    refine ⟨_, rfl, rfl, h.chunkSize, h.logicalSize, ?_, hindexChunks.symm, h.complete, h.errors,
      h.hashes, ?_⟩
    · intro segmentIndex
      unfold Image.encryptionContext
      rw [List.getElem?_map]
      cases files[segmentIndex]? <;> rfl
    · intro i chunk hi
      obtain ⟨range, hrange, hleads⟩ := h.found i chunk hi
      refine ⟨range, ?_, hleads⟩
      rw [hranges]
      exact List.mem_mergeSort.mpr hrange

/-! ## Chunks -/

/-- Bytes that a table is read from when the segment is opened are read again later. -/
theorem readDirect_of_readSegments {image : Image} (hsegments : image.segments = files)
    {segmentIndex offset size : Nat} {bytes : Bytes} (hsize : 0 < size)
    (h : readSegments files segmentIndex offset size = .ok bytes) :
    image.readDirect segmentIndex offset size = .ok bytes := by
  unfold readSegments at h
  split at h
  · cases h
  · rename_i file hfile
    unfold SegmentFile.readExactAt at h
    split at h
    · rename_i hfits
      refine readDirect_eq_ok.mpr ⟨file, by rw [hsegments, hfile], ?_, (Except.ok.inj h).symm⟩
      rcases hfits with hzero | hfits
      · omega
      · exact hfits
    · cases h

theorem lookupEwf1Chunk_of_reads {readTable readTable' : Nat → Nat → Nat → Result Bytes}
    (hreads : ∀ segmentIndex offset bytes, readTable segmentIndex offset 4 = .ok bytes →
      readTable' segmentIndex offset 4 = .ok bytes)
    {range : TableRange} {chunkSize localIndex logicalSize : Nat} {chunk : Chunk}
    (h : lookupEwf1Chunk readTable range chunkSize localIndex logicalSize = .ok chunk) :
    lookupEwf1Chunk readTable' range chunkSize localIndex logicalSize = .ok chunk := by
  unfold lookupEwf1Chunk at h ⊢
  simp only [bind_eq_ok] at h ⊢
  obtain ⟨entryOffset, hentry, raw, hraw, nextRaw, hnext, hchunk⟩ := h
  refine ⟨entryOffset, hentry, raw, hreads _ _ _ hraw, nextRaw, ?_, hchunk⟩
  by_cases hmore : localIndex + 1 < range.chunkCount
  · rw [if_pos hmore] at hnext ⊢
    simp only [bind_eq_ok] at hnext ⊢
    obtain ⟨nextOffset, hnextOffset, bytes, hbytes, hsome⟩ := hnext
    exact ⟨nextOffset, hnextOffset, bytes, hreads _ _ _ hbytes, hsome⟩
  · rw [if_neg hmore] at hnext ⊢
    exact hnext

/-- The reader knows a chunk of an EWF1 image by its compressed flag. -/
theorem storedAs_flag {options : WriteOptions} {chunkSize : Nat} {data : Bytes}
    {chunk : EncodedChunk} {encoding : ChunkEncoding}
    (h : StoredAs codec options chunkSize data chunk encoding)
    (hformat : isEwf2Format options.format = false) :
    encoding = flagEncoding .zlib chunk.compressed := by
  cases h with
  | pattern pattern format repeated =>
    rw [hformat] at format
    cases format
  | zeros format emptyBlock zeros => rfl
  | raw => rfl
  | zlib level method shorter => rfl
  | bzip2 level method format =>
    rw [hformat] at format
    cases format

theorem storedAs_admits {options : WriteOptions} {chunkSize : Nat} {data : Bytes}
    {chunk : EncodedChunk} {encoding : ChunkEncoding}
    (h : StoredAs codec options chunkSize data chunk encoding) (hbounded : codec.Bounded)
    (hformat : options.format = .ewf1Physical) (hchunk : chunkSize ≤ maxChunkSize)
    (hsize : data.length ≤ chunkSize) (offset : Nat) :
    Admits chunkSize ⟨false, .zlib⟩ (chunk.descriptorAt offset) := by
  have hewf1 : isEwf2Format options.format = false := by
    rw [hformat]
    rfl
  have hmax : maxChunkSize = 134217728 := rfl
  have hlimit : u64Limit = 18446744073709551616 := rfl
  have hfound := h.storedEncoding (by omega) hsize
  have hvalid := (h.validateStoredSize_iff hbounded hchunk hsize).mpr fun hsmart => by
    rw [hformat] at hsmart
    cases hsmart
  rw [validateStoredSize, hfound, ok_bind, hewf1, if_neg (by decide), hformat] at hvalid
  rw [storedEncoding_ewf1 hewf1, storedAs_flag h hewf1] at hfound
  rw [storedAs_flag h hewf1] at hvalid
  exact ⟨hfound, hvalid⟩

theorem storedAs_checksum {options : WriteOptions} {chunkSize : Nat} {data : Bytes}
    {chunk : EncodedChunk} {encoding : ChunkEncoding} {segmentIndex placement offset : Nat}
    (h : StoredAs codec options chunkSize data chunk encoding) :
    (if (placedChunk .zlib segmentIndex placement data.length
        (chunk.descriptorAt offset)).validateChecksum then
      validateRawChunkChecksum chunk.bytes data.length else .ok ()) = .ok () := by
  cases h with
  | raw =>
    rw [validateRawChunkChecksum_raw]
    split <;> rfl
  | pattern pattern format repeated => rfl
  | zeros format emptyBlock zeros => rfl
  | zlib level method shorter => rfl
  | bzip2 level method format => rfl

/-- A chunk that the ranges lead to decodes to the bytes that it was encoded from. -/
theorem strictChunk_of_leadsTo {opened : OpenedImage} {chunkId : Nat} {chunk : EncodedChunk}
    {encoding : ChunkEncoding} {data : Bytes} (hlaw : codec.Lawful) (hbounded : codec.Bounded)
    (hopened : OpensAs files w stored encoded opened) (hformat : w.options.format = .ewf1Physical)
    (hchunk : w.chunkSize ≤ maxChunkSize) (hlogical : w.logicalSize < u64Limit)
    (hstored : StoredAs codec w.options w.chunkSize data chunk encoding)
    (hsize : data.length = min (w.logicalSize - chunkId * w.chunkSize) w.chunkSize)
    (hpos : 0 < data.length) (hid : encoded[chunkId]? = some chunk) :
    opened.image.strictChunk codec chunkId = .ok data := by
  have hmax : maxChunkSize = 134217728 := rfl
  have hlimit : u64Limit = 18446744073709551616 := rfl
  have hewf1 : isEwf2Format w.options.format = false := by
    rw [hformat]
    rfl
  have hle : data.length ≤ w.chunkSize := by
    rw [hsize]
    exact Nat.min_le_right _ _
  have hlt := (List.getElem?_eq_some_iff.mp hid).1
  obtain ⟨range, hrange, segmentIndex, placement, descriptor, hleads⟩ := hopened.found chunkId chunk hid
  rw [Nat.zero_add] at hleads
  obtain ⟨offset, rfl⟩ := hleads.describes
  have hadmits := storedAs_admits hstored hbounded hformat hchunk hle offset
  -- the lookup, through the reads of the image
  have hplaced := eq_placedChunk_of_isPlaced hleads.rangeOf.method
    ((hleads.placed data.length).mpr hadmits)
  have hdirect : lookupEwf1Chunk opened.image.readDirect range w.chunkSize
      (chunkId - range.firstChunk) data.length = _ :=
    lookupEwf1Chunk_of_reads
      (fun _ _ _ hread => readDirect_of_readSegments hopened.segments (by decide) hread) hplaced
  have hfor : opened.image.index.rangeFor chunkId = .ok range := by
    unfold LazyChunkIndex.rangeFor
    dsimp only
    rw [rejectIf_neg _ (by rw [hopened.chunks]; omega), ok_bind,
      coveringRange_eq_some opened.image.index.covers opened.image.index.logicalChunks_lt hrange
        hleads.contains.1 hleads.contains.2, okOr_some]
  have hlookup : opened.image.strictLookup chunkId =
      .ok (placedChunk .zlib segmentIndex placement data.length (chunk.descriptorAt offset)) := by
    unfold Image.strictLookup
    rw [hfor, ok_bind, checkedSub, if_pos hleads.contains.1, okOr_some, ok_bind, hopened.logicalSize,
      hopened.chunkSize, logicalChunkSize, checkedMul_of_lt (by omega), okOr_some, ok_bind, ← hsize,
      pure_eq_ok, ok_bind, hleads.rangeOf.kind]
    exact hdirect
  -- its stored bytes
  have hpositive : 0 < chunk.bytes.length :=
    validateEwf1EncodedSize_pos (flagEncoding_ne_patternFill _ _) hadmits.2
  have hbytes : opened.image.encodedChunkBytes chunkId
      (placedChunk .zlib segmentIndex placement data.length (chunk.descriptorAt offset)) =
        .ok chunk.bytes := by
    obtain ⟨file, hfile, hslice⟩ := hleads.stored
    have hfits : placement + chunk.bytes.length ≤ file.bytes.length := by
      have hlength := congrArg List.length hslice
      rw [length_slice] at hlength
      omega
    have hread : opened.image.readSegmentRange segmentIndex placement chunk.bytes.length false =
        .ok chunk.bytes :=
      readDirect_eq_ok.mpr ⟨file, by rw [hopened.segments, hfile], hfits, hslice.symm⟩
    unfold Image.encodedChunkBytes
    split
    · rename_i pattern hpattern
      exact absurd hpattern (flagEncoding_ne_patternFill _ _ _)
    · dsimp only [placedChunk, EncodedChunk.descriptorAt]
      rw [hread, ok_bind, hopened.unencrypted]
      rfl
  have hmaximum : data.length ≤ opened.image.maximumDecodedSize
      (placedChunk .zlib segmentIndex placement data.length (chunk.descriptorAt offset)) ∧
      opened.image.maximumDecodedSize (placedChunk .zlib segmentIndex placement data.length
        (chunk.descriptorAt offset)) ≤ w.chunkSize := by
    unfold Image.maximumDecodedSize
    split
    · rw [hopened.chunkSize]
      exact ⟨hle, Nat.le_refl _⟩
    · exact ⟨Nat.le_refl _, hle⟩
  have hdecodes := hstored.decodes hlaw (by omega) hle hmaximum.1 (by omega)
  rw [decodeEncoded, decodeStoredBytes, hstored.storedEncoding (by omega) hle, ok_bind,
    storedAs_flag hstored hewf1] at hdecodes
  obtain ⟨_, -, hdecodes⟩ := bind_eq_ok.mp hdecodes
  unfold Image.strictChunk Image.decodeChunk
  rw [hlookup, ok_bind, hbytes, ok_bind]
  change ((if (placedChunk .zlib segmentIndex placement data.length
      (chunk.descriptorAt offset)).validateChecksum then
    validateRawChunkChecksum chunk.bytes data.length else .ok ()) >>= fun _ => _) = _
  rw [storedAs_checksum hstored, ok_bind]
  exact hdecodes

/-! ## The media -/

theorem Created.length_paddedSource {encoders : Ewf1PayloadEncoders}
    (h : Created encoders settings w) {source : Bytes} (hsize : source.length = settings.sourceSize) :
    (w.paddedSource source).length = w.logicalSize := by
  have hsource : w.sourceSize = settings.sourceSize := by rw [h.fresh]
  have hle := h.sourceSize_le
  rw [paddedSource, List.length_append, List.length_replicate, hsource]
  omega

/-- Every chunk of the image decodes to its piece of the media. -/
theorem strictChunk_pieces {encoders : Ewf1PayloadEncoders} {opened : OpenedImage} {media : Bytes}
    (hlaw : codec.Lawful) (hbounded : codec.Bounded) (h : Created encoders settings w)
    (hlimits : Limits settings w) (hformat : settings.write.format = .ewf1Physical)
    (hopened : OpensAs files w stored encoded opened) (hmedia : media.length = w.logicalSize)
    (hencoded : (pieces w.chunkSize media).mapM (w.encodeOne codec) = .ok encoded)
    (hpos : 0 < w.chunkSize) {chunkId : Nat} (hid : chunkId < encoded.length) :
    ∃ piece, (pieces w.chunkSize media)[chunkId]? = some piece ∧
      opened.image.strictChunk codec chunkId = .ok piece := by
  have hoptions : w.options = settings.write := by rw [h.fresh]
  have hmaximum : maximumChunkSize ≤ maxChunkSize := by decide
  obtain ⟨chunk, hchunk⟩ : ∃ chunk, encoded[chunkId]? = some chunk :=
    ⟨_, List.getElem?_eq_getElem hid⟩
  obtain ⟨piece, hpiece, hencode⟩ := getElem?_of_mapM_eq_ok hencoded hchunk
  have hnonempty := ne_nil_of_mem_pieces hpos (List.mem_of_getElem? hpiece)
  have hlength : piece.length = min (w.logicalSize - chunkId * w.chunkSize) w.chunkSize := by
    rw [getElem?_pieces hpos hpiece, List.length_take, List.length_drop, hmedia, Nat.min_comm]
  have hvalid := h.valid
  rw [← hoptions] at hvalid
  obtain ⟨found, encoding, hfound, hstoredAs⟩ := encodeChunk_storedAs codec w.chunkSize piece hvalid
  rw [encodeOne, hfound] at hencode
  obtain rfl := Except.ok.inj hencode
  exact ⟨piece, hpiece, strictChunk_of_leadsTo hlaw hbounded hopened (by rw [hoptions, hformat])
    (hlimits.chunkSize.trans hmaximum) hlimits.logicalSize hstoredAs hlength
    (List.length_pos_iff.mpr hnonempty.1) hchunk⟩

theorem media_of_pieces {image : Reading.Image} {size : Nat} {media : Bytes} (hpos : 0 < size)
    (hcount : image.index.logicalChunks = (pieces size media).length)
    (h : ∀ chunkId, chunkId < image.index.logicalChunks → ∃ piece,
      (pieces size media)[chunkId]? = some piece ∧ image.strictChunk codec chunkId = .ok piece) :
    image.media codec = media := by
  have hmap : (List.range image.index.logicalChunks).map (image.mediaChunk codec) =
      pieces size media := by
    apply List.ext_getElem?
    intro chunkId
    by_cases hlt : chunkId < image.index.logicalChunks
    · obtain ⟨piece, hpiece, hstrict⟩ := h chunkId hlt
      rw [hpiece, List.getElem?_map, List.getElem?_range hlt, Option.map_some,
        Image.mediaChunk_of_ok hstrict]
    · rw [List.getElem?_eq_none (by rw [List.length_map, List.length_range]; omega),
        List.getElem?_eq_none (by rw [← hcount]; omega)]
  rw [Image.media_eq, List.flatMap_def, hmap, flatten_pieces hpos]

/-- The digests that the last segment is finished with are read from it. -/
theorem exists_readsHashes (hlaw : codec.Lawful) {digests : Digests} (hdigests : digests.Sized)
    (hsized : w.options.hashes.Sized) {media : Bytes}
    (heffective : effectiveWriteHashes w.options.hashes (digests.md5 media) (digests.sha1 media)
      (digests.sha256 media) = .ok hashes) (hreadable : hashes.Readable) :
    ∃ segment stored, ReadsHashes codec { w.options with hashes } true segment ∧
      mergeHashes {} segment = .ok stored ∧ stored.md5 = hashes.md5 ∧ stored.sha1 = hashes.sha1 ∧
      stored.hashValues.get "SHA256" = hashes.hashValues.get "SHA256" := by
  obtain ⟨md5, sha1, hcomplete⟩ := complete_of_effectiveWriteHashes hsized (hdigests.md5 media)
    (hdigests.sha1 media) (hdigests.sha256 media) heffective
  obtain ⟨digest, xhash, segment, stored, hdigest, hxhash, hsegment, hmerge, hmd5, hsha1, hsha256⟩ :=
    openStoredHashes_written hlaw w.options.compressionValues.level hcomplete
      (wordDigests_of_effectiveWriteHashes heffective) hreadable
  refine ⟨segment, stored, ?_, hmerge, by rw [hmd5, hcomplete.md5], by rw [hsha1, hcomplete.sha1],
    hsha256⟩
  exact ⟨digest, xhash, hdigest, hxhash, hsegment⟩

/-- Whatever the sequential writer finishes is opened again, in every segment: the media is the
padded source, no chunk is lost, and the acquisition errors and digests are those of the run. -/
theorem sequential_image_reads_source (codec : Codec) (hlaw : codec.Lawful)
    (hbounded : codec.Bounded) (digests : Digests) (hdigests : digests.Sized)
    (header header2 xheader ltree : WriteOptions → Result (Option Bytes))
    (ewf2 : Ewf2PayloadEncoders) (decodeHeaderBytes : Bytes → List Char)
    (settings : SequentialOptions) (w : SequentialWriter)
    (hcreate : create (ewf1PayloadEncoders codec header header2 xheader ltree) settings = .ok w)
    (hformat : settings.write.format = .ewf1Physical) (hsized : settings.write.hashes.Sized)
    (extension : Option (List Char)) (hextension : ewf1FormatProfileHint extension ≠ .smart)
    (batchSize : Nat) (hbatch : 0 < batchSize) (writes : List Bytes)
    (hsize : writes.flatten.length = settings.sourceSize) (hashes : WriteHashes)
    (heffective : effectiveWriteHashes settings.write.hashes
      (digests.md5 (w.paddedSource writes.flatten)) (digests.sha1 (w.paddedSource writes.flatten))
      (digests.sha256 (w.paddedSource writes.flatten)) = .ok hashes)
    (hreadable : hashes.Readable) (result : SequentialResult)
    (hrun : run codec (ewf1PayloadEncoders codec header header2 xheader ltree) ewf2 digests batchSize
      w writes = .ok result)
    (files : List SegmentFile) (hfiles : files.map (·.bytes) = result.segments) :
    ∃ opened, openSegmentSources codec decodeHeaderBytes (ewf1FormatProfileHint extension) files none =
        .ok opened ∧
      opened.image.media codec = w.paddedSource writes.flatten ∧
      (∀ chunkId < opened.image.index.logicalChunks, opened.image.Decodes codec chunkId) ∧
      opened.acquisitionComplete = true ∧
      opened.metadata.acquisitionErrors = settings.write.acquisitionErrors ∧
      opened.metadata.storedHashes.md5 = hashes.md5 ∧
      opened.metadata.storedHashes.sha1 = hashes.sha1 ∧
      opened.metadata.storedHashes.hashValues.get "SHA256" = hashes.hashValues.get "SHA256" := by
  have h := create_spec hcreate
  have hlimits := create_limits hcreate
  have hoptions : w.options = settings.write := by rw [h.fresh]
  have hpos : 0 < w.chunkSize := by
    obtain ⟨hsector, hsectors⟩ := h.sectors
    rw [h.chunkSize]
    exact Nat.mul_pos hsectors hsector
  have hmedia := h.length_paddedSource hsize
  obtain ⟨encoded, hashes', hencoded, hlength, heffective', hstaged⟩ :=
    @run_eq codec _ ewf2 digests batchSize settings w writes h hbatch hsize
  rw [hoptions, heffective] at heffective'
  obtain rfl := Except.ok.inj heffective'
  rw [← hoptions] at heffective hsized
  obtain ⟨segment, stored, hstored, hmerge, hmd5, hsha1, hsha256⟩ :=
    exists_readsHashes hlaw hdigests hsized heffective hreadable
  rw [hstaged] at hrun
  cases hsegments : stageRuns codec (ewf1PayloadEncoders codec header header2 xheader ltree) ewf2 w
      (w.withHashes hashes) 1 (segmentRuns w.perSegment encoded) with
  | error e =>
    rw [hsegments] at hrun
    cases hrun
  | ok segments =>
    rw [hsegments] at hrun
    obtain rfl := Except.ok.inj hrun
    have hcount : encoded.length = divCeil w.logicalSize w.chunkSize := by
      rw [hlength, h.totalChunks]
    have hbound : encoded.length < u64Limit := by
      rw [hlength]
      exact w.totalChunks.toNat_lt.trans (by decide)
    have hsame : (pieces w.chunkSize (w.paddedSource writes.flatten)).length = encoded.length :=
      (mapM_eq_ok_iff.mp hencoded).length_eq
    have hempty : encoded = [] → w.logicalSize = 0 := by
      intro hnil
      have hnone := flatten_pieces hpos (w.paddedSource writes.flatten)
      rw [hnil, List.length_nil, List.length_eq_zero_iff] at hsame
      rw [hsame, List.flatten_nil] at hnone
      rw [← hmedia, ← hnone, List.length_nil]
    have hhint := hinted_initialProfile hextension
    obtain ⟨volume, state, hstate, hopen⟩ := openSegmentSources_staged decodeHeaderBytes h hlimits
      hformat hstored hmerge hhint (by rw [hsegments]; exact congrArg _ hfiles.symm) hempty hbound
    obtain ⟨opened, hfinish, hopened⟩ := hstate.finish hpos hcount hbound
    have hchunks := fun chunkId (hid : chunkId < encoded.length) =>
      strictChunk_pieces hlaw hbounded h hlimits hformat hopened hmedia hencoded hpos hid
    refine ⟨opened, hopen.trans hfinish, ?_, ?_, hopened.complete, ?_, ?_, ?_, ?_⟩
    · refine media_of_pieces hpos (by rw [hopened.chunks, hsame]) fun chunkId hid => ?_
      exact hchunks chunkId (by rw [← hopened.chunks]; exact hid)
    · intro chunkId hid
      obtain ⟨piece, -, hstrict⟩ := hchunks chunkId (by rw [← hopened.chunks]; exact hid)
      exact ⟨piece, hstrict⟩
    · rw [hopened.errors, hoptions]
    · rw [hopened.hashes, hmd5]
    · rw [hopened.hashes, hsha1]
    · rw [hopened.hashes, hsha256]

/-! ## Two small segments -/

/-- Five bytes in sectors of two, with two chunks in a segment. -/
def twoSegments : SequentialOptions where
  sourceSize := 5
  chunksPerSegment := 2
  write := { sectorsPerChunk := 1, bytesPerSector := 2, compression := .zlib }

def noHeaders : Ewf1PayloadEncoders :=
  ewf1PayloadEncoders smallCodec (fun _ => .ok none) (fun _ => .ok none) (fun _ => .ok none)
    fun _ => .ok none

def fixedDigests : Digests where
  md5 := fun _ => List.replicate 16 1
  sha1 := fun _ => List.replicate 20 2
  sha256 := fun _ => List.replicate 32 3

def fixedHashes : WriteHashes where
  md5 := some (List.replicate 16 1)
  sha1 := some (List.replicate 20 2)
  hashValues := [("SHA256", hexString (List.replicate 32 3))]

theorem fixedHashes_readable : fixedHashes.Readable where
  tags := by
    have hname : IsElementName "xhash".toList "SHA256".toList := by decide
    intro pair hpair _
    obtain rfl := List.mem_singleton.mp hpair
    exact hname
  size := by
    have hlength : (xhashXml fixedHashes).map (fun xml => (xmlBytes xml).length) = some 243 := by
      decide +kernel
    intro xml hxml
    rw [hxml, Option.map_some, Option.some.injEq] at hlength
    rw [hlength]
    decide

/-- The writer of the two segments. -/
def twoWriter : SequentialWriter where
  options := twoSegments.write
  sourceSize := 5
  logicalSize := 6
  chunkSize := 2
  capacity := 2
  perSegment := 2
  totalChunks := 3

def twoChunks : List EncodedChunk :=
  [rawEncodedChunk [1, 0], rawEncodedChunk [0, 2], rawEncodedChunk [3, 0]]

theorem run_two : ∃ result,
    run smallCodec noHeaders bareEwf2 fixedDigests 1 twoWriter [[1], [0, 0, 2], [3]] = .ok result ∧
      result.segments.map List.length = [1529, 1992] := by
  have hcreate : create noHeaders twoSegments = .ok twoWriter := rfl
  have hencode : (pieces 2 [1, 0, 0, 2, 3, 0]).mapM (twoWriter.encodeOne smallCodec) =
      .ok twoChunks := by
    decide
  have hruns : segmentRuns 2 twoChunks =
      [[rawEncodedChunk [1, 0], rawEncodedChunk [0, 2]], [rawEncodedChunk [3, 0]]] := by
    decide
  have hstaged : (stageRuns smallCodec noHeaders bareEwf2 twoWriter
      (twoWriter.withHashes fixedHashes) 1 (segmentRuns 2 twoChunks)).map (·.map List.length) =
        .ok [1529, 1992] := by
    rw [hruns]
    -- `mapIdx` fills an array, which is slow to evaluate
    simp only [stageRuns, stageGroup, writeEwf1Segment, volumeData, patch,
      List.mapIdx_eq_zipIdx_map]
    decide +kernel
  obtain ⟨encoded, hashes, hencoded, -, heffective, hrun⟩ := @run_eq smallCodec _ bareEwf2
    fixedDigests 1 _ _ [[1], [0, 0, 2], [3]] (create_spec hcreate) Nat.one_pos rfl
  obtain rfl : twoChunks = encoded := Except.ok.inj (hencode.symm.trans hencoded)
  obtain rfl : fixedHashes = hashes := Except.ok.inj heffective
  rw [hrun]
  cases hsegments : stageRuns smallCodec noHeaders bareEwf2 twoWriter
      (twoWriter.withHashes fixedHashes) 1 (segmentRuns twoWriter.perSegment twoChunks) with
  | error e =>
    rw [show segmentRuns 2 twoChunks = segmentRuns twoWriter.perSegment twoChunks from rfl,
      hsegments] at hstaged
    cases hstaged
  | ok segments =>
    rw [show segmentRuns 2 twoChunks = segmentRuns twoWriter.perSegment twoChunks from rfl,
      hsegments] at hstaged
    exact ⟨_, rfl, Except.ok.inj hstaged⟩

theorem sequential_image_reads_source_two : ∃ (files : List SegmentFile) (opened : OpenedImage),
    files.length = 2 ∧
      openSegmentSources smallCodec (fun _ => []) (ewf1FormatProfileHint (some ['E', '0', '1'])) files
        none = .ok opened ∧
      opened.image.media smallCodec = [1, 0, 0, 2, 3, 0] := by
  obtain ⟨result, hrun, hsegments⟩ := run_two
  obtain ⟨first, rest, hresult, hfirst, hrest⟩ := List.map_eq_cons_iff.mp hsegments
  obtain ⟨second, none, rfl, hsecond, hnone⟩ := List.map_eq_cons_iff.mp hrest
  obtain rfl := List.map_eq_nil_iff.mp hnone
  obtain ⟨opened, hopen, hmedia, -⟩ := sequential_image_reads_source smallCodec
    smallCodec_lawful smallCodec_bounded fixedDigests ⟨fun _ => rfl, fun _ => rfl, fun _ => rfl⟩
    (fun _ => .ok none) (fun _ => .ok none) (fun _ => .ok none) (fun _ => .ok none) bareEwf2
    (fun _ => []) twoSegments twoWriter rfl rfl
    ⟨fun _ hnone => (by cases hnone), fun _ hnone => (by cases hnone)⟩ (some ['E', '0', '1'])
    (by decide) 1 Nat.one_pos [[1], [0, 0, 2], [3]] rfl fixedHashes rfl fixedHashes_readable
    result hrun [⟨first, by rw [hfirst]; decide⟩, ⟨second, by rw [hsecond]; decide⟩] hresult.symm
  exact ⟨_, opened, rfl, hopen, hmedia⟩

end EwfImage.SequentialWriter
