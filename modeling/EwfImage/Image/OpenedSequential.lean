import EwfImage.Image.Coverage
import EwfImage.Image.OpenedMetadata
import EwfImage.Reading.Media
import EwfImage.Writer.SequentialCorrect
import EwfImage.Writer.StoredSize

/-!
# Opening what the sequential writer finishes

The segments of a sequential EWF1 writer open one behind the other: all have the volume of the
writer, the first one the errors and headers, the last one the digests, and their ranges lead to
the encoded chunks in order. The media of the image is the padded source.

The main result is `openSegmentsFrom_staged`, by induction on the segments that are left:
`OpensChunks` is what has been opened so far, with the chunks that the ranges lead to. It is
about physical EWF1 images without a password.
-/

namespace EwfImage.SequentialWriter

open Fallible Ewf1 Reading Slice Word

/-! ## Limits of a new writer -/

/-- The limits under which a writer is created. -/
structure Limits (settings : SequentialOptions) (w : SequentialWriter) : Prop where
  chunkSize : w.chunkSize ≤ maximumChunkSize
  logicalSize : w.logicalSize < u64Limit
  sessions : validateSessionRanges "sessions" settings.write.sessions
    (w.logicalSize / settings.write.bytesPerSector.toNat) = .ok ()
  tracks : validateSessionRanges "tracks" settings.write.tracks
    (w.logicalSize / settings.write.bytesPerSector.toNat) = .ok ()

theorem create_limits {encoders : Ewf1PayloadEncoders} {settings : SequentialOptions}
    {w : SequentialWriter} (h : create encoders settings = .ok w) : Limits settings w := by
  simp only [create, bind_eq_ok, rejectIf_eq_ok, okOr_eq_ok, Option.map_eq_some_iff,
    checkedAdd_eq_some, pure_eq_ok, Except.ok.injEq] at h
  obtain ⟨_, -, _, -, ⟨chunkSize, capacity⟩, -, _, hcapacity, logicalSize,
    ⟨_, ⟨hlt, rfl⟩, rfl⟩, _, -, _, -, _, hsessions, _, htracks, perSegment, -, rfl⟩ := h
  have hchunk : chunkSize ≤ maximumChunkSize :=
    Nat.le_of_not_lt fun hlarge => hcapacity (.inl hlarge)
  exact ⟨hchunk, Nat.lt_of_le_of_lt (Nat.div_mul_le_self _ _) hlt, hsessions, htracks⟩

variable {settings : SequentialOptions} {w : SequentialWriter} {codec : Codec}
  {ewf1 : Ewf1PayloadEncoders} {ewf2 : Ewf2PayloadEncoders}

/-! ## One segment -/

/-- The sectors of the media. -/
def sectorCount (w : SequentialWriter) : Nat := w.logicalSize / w.options.bytesPerSector.toNat

theorem stageGroup_ewf1 {hashes : WriteHashes} {group : Group} {number : Nat} {last : Bool}
    {bytes : Bytes} (hformat : isEwf2Format w.options.format = false)
    (h : (w.withHashes hashes).stageGroup codec ewf1 ewf2 group number last = .ok bytes) :
    number < 2 ^ 16 ∧ ∃ out, writeEwf1Segment ewf1 group.spool group.chunks
        { w.options with hashes } {
          segmentNumber := UInt16.ofNat number
          chunkCount := w.totalChunks
          sectorCount := w.sectorCount
          sections := .forSegment (number = 1) last
          terminalSection := .done } = .ok out ∧ bytes = out.bytes := by
  unfold stageGroup at h
  rw [if_neg (by rw [withHashes, hformat]; decide)] at h
  simp only [bind_eq_ok, rejectIf_eq_ok, pure_eq_ok, Except.ok.injEq] at h
  obtain ⟨_, hnumber, out, hout, _, -, rfl⟩ := h
  exact ⟨Nat.lt_of_not_le hnumber, out, hout, rfl⟩

theorem Created.sectorCount_mul (h : Created ewf1 settings w) :
    w.sectorCount * w.options.bytesPerSector.toNat = w.logicalSize := by
  have hoptions : w.options = settings.write := by rw [h.fresh]
  obtain ⟨hsector, -⟩ := h.sectors
  rw [sectorCount, hoptions]
  refine Nat.div_mul_cancel ?_
  rw [h.logicalSize]
  exact Nat.dvd_mul_left _ _

/-- The volume that all segments of a writer have. -/
structure HasVolume (w : SequentialWriter) (parsed : ParsedVolume) : Prop where
  written : ∃ volume, volumeData w.options w.totalChunks w.sectorCount = .ok volume ∧
    parseEwf1Volume volume (ascii "volume") = .ok parsed
  chunkSize : parsed.geometry.chunkSize = w.chunkSize
  logicalSize : parsed.geometry.logicalSize = w.logicalSize
  smart : parsed.volume.smart = false

theorem HasVolume.unique {parsed parsed' : ParsedVolume} (h : HasVolume w parsed)
    (h' : HasVolume w parsed') : parsed = parsed' := by
  obtain ⟨volume, hvolume, hparsed⟩ := h.written
  obtain ⟨volume', hvolume', hparsed'⟩ := h'.written
  rw [hvolume] at hvolume'
  obtain rfl := Except.ok.inj hvolume'
  rw [hparsed] at hparsed'
  exact Except.ok.inj hparsed'

/-- What a segment of a writer is opened as. -/
structure OpenedAs (w : SequentialWriter) (volume : ParsedVolume) (start : ProfileState)
    (segmentIndex count : Nat) (stored : StoredHashes) (segment : ParsedSegment) : Prop where
  method : segment.compressionMethod = .zlib
  volume : segment.volume = some volume
  complete : segment.acquisitionComplete = true
  detects : Detects start segment.metadata.profile
  hinted : segmentIndex ≠ 0 → segment.metadata.profile = start
  errors : segment.metadata.acquisitionErrors =
    if segmentIndex = 0 then w.options.acquisitionErrors else []
  hashes : segment.metadata.storedHashes = stored
  count : segment.tableChunkCount = count

section Segment

variable {header header2 xheader ltree : WriteOptions → Result (Option Bytes)}
  {hashes : WriteHashes} {group : Group} {segmentIndex firstChunk : Nat} {last : Bool}
  {bytes : Bytes} {file : SegmentFile} {stored : StoredHashes} {hint : FormatProfile}

theorem openSegment_staged (decodeHeaderBytes : Bytes → List Char)
    (inherited : Option Ewf1MediaGeometry)
    (h : Created (ewf1PayloadEncoders codec header header2 xheader ltree) settings w)
    (hlimits : Limits settings w) (hformat : settings.write.format = .ewf1Physical)
    (hstage : (w.withHashes hashes).stageGroup codec
      (ewf1PayloadEncoders codec header header2 xheader ltree) ewf2 group (segmentIndex + 1) last =
        .ok bytes)
    (hfile : file.bytes = bytes) (hchunks : group.chunks ≠ [] ∨ w.logicalSize = 0)
    (hbound : firstChunk + group.chunks.length < u64Limit)
    (hstored : ReadsHashes codec { w.options with hashes } last stored)
    (hhint : (initialProfile false false true hint).profile ≠ .smart)
    {readTable : Nat → Nat → Nat → Result Bytes} (hread : readTable segmentIndex = file.readExactAt) :
    ∃ volume out segment, HasVolume w volume ∧
      OpenedAs w volume (initialProfile false false true hint) segmentIndex group.chunks.length
        stored segment ∧
      FindsChunks group.spool file out group.chunks readTable segmentIndex firstChunk w.chunkSize
        ⟨false, .zlib⟩ segment.ranges ∧
      (∀ range ∈ segment.ranges, RangesOf segmentIndex ⟨false, .zlib⟩ range) ∧
      openSegment codec decodeHeaderBytes hint file segmentIndex firstChunk inherited =
        .ok segment := by
  have hoptions : w.options = settings.write := by rw [h.fresh]
  have hphysical : w.options.format = .ewf1Physical := by rw [hoptions, hformat]
  obtain ⟨hnumber, out, hout, rfl⟩ := stageGroup_ewf1 (by rw [hphysical]; rfl) hstage
  have hsound : ({ w.options with hashes } : WriteOptions).Sound := by
    have hvalid := sound_of_validateOptions h.valid
    rw [← hoptions] at hvalid
    exact ⟨hvalid.bzip2, hvalid.sectorsPerChunk, hvalid.bytesPerSector⟩
  have hsize : w.options.sectorsPerChunk.toNat * w.options.bytesPerSector.toNat = w.chunkSize := by
    rw [hoptions, h.chunkSize]
  have hsectors := h.sectorCount_mul
  have hchunkSize := hlimits.chunkSize
  have hlogical := hlimits.logicalSize
  have hmaximum : maximumChunkSize ≤ maxChunkSize := by decide
  have hempty : w.sectorCount = 0 → w.totalChunks.toNat = 0 := by
    intro hzero
    rw [hzero, Nat.zero_mul] at hsectors
    rw [h.totalChunks, ← hsectors, divCeil, if_pos (Nat.zero_mod _), Nat.zero_div]
  have hcoverage : group.chunks ≠ [] ∨ w.sectorCount = 0 := by
    refine hchunks.imp_right fun hzero => ?_
    rw [sectorCount, hzero, Nat.zero_div]
  obtain ⟨metadata, volumeBytes, parsed, ranges, hencoded, hvolume, hparsed, hfinds, hranges,
    hopen⟩ := openSegment_written codec decodeHeaderBytes hint inherited readTable hread hout hfile
      hsound
      (by
        dsimp only
        rw [UInt16.toNat_ofNat', Nat.mod_eq_of_lt hnumber])
      (by rw [hsize]; omega) (by dsimp only; rw [hsectors]; exact hlogical) hempty hcoverage hbound
  dsimp only at hfinds hranges hopen
  rw [hphysical, hsize] at hfinds
  rw [hphysical] at hranges hopen
  have hvolume' : volumeData w.options w.totalChunks w.sectorCount = .ok volumeBytes := hvolume
  obtain ⟨parsed', hparsed', -, -, -, hsmart, hgeometry⟩ := parseEwf1Volume_written hvolume'
    ⟨hsound.bzip2, hsound.sectorsPerChunk, hsound.bytesPerSector⟩ (by rw [hsize]; omega)
    (by rw [hsectors]; exact hlogical) hempty
  rw [hparsed] at hparsed'
  obtain rfl := Except.ok.inj hparsed'
  rw [hsize, hsectors] at hgeometry
  rw [hphysical] at hsmart
  have hsessions := hlimits.sessions
  have htracks := hlimits.tracks
  rw [← hoptions] at hsessions htracks
  change validateSessionRanges _ _ w.sectorCount = _ at hsessions htracks
  obtain ⟨read, hfold, hdetects, hhinted, herrors, hhashes⟩ := exists_foldlM_metadataSections
    decodeHeaderBytes hencoded hsessions htracks hhint hstored
  have hfirst : decide (segmentIndex + 1 = 1) = decide (segmentIndex = 0) :=
    decide_eq_decide.mpr (by omega)
  rw [hfirst] at hhinted herrors
  have hopened : openSegment codec decodeHeaderBytes hint file segmentIndex firstChunk inherited =
      .ok {
        segmentNumber := segmentIndex + 1
        compressionMethod := .zlib
        volume := some parsed
        media := parsed.media false .zlib
        acquisitionComplete := true
        metadata := read
        ranges
        tableChunkCount := group.chunks.length } := by
    refine hopen.trans ?_
    have hstart : (initialProfile (WriteFormat.ewf1Physical = .ewf1Logical)
        (WriteFormat.ewf1Physical = .ewf1Smart) true hint) =
          initialProfile false false true hint := rfl
    rw [hstart, hfold]
    rfl
  refine ⟨parsed, out, ⟨segmentIndex + 1, .zlib, some parsed, parsed.media false .zlib, true, read,
    ranges, group.chunks.length⟩, ⟨⟨volumeBytes, hvolume', hparsed⟩, by rw [hgeometry],
    by rw [hgeometry], hsmart⟩, ⟨rfl, rfl, rfl, hdetects, ?_, ?_, hhashes, rfl⟩, hfinds, hranges,
    hopened⟩
  · intro hlater
    exact hhinted (decide_eq_false hlater)
  · rw [herrors]
    by_cases hzero : segmentIndex = 0
    · rw [if_pos hzero, if_pos (decide_eq_true hzero)]
    · rw [if_neg hzero, if_neg (by simp [hzero])]

end Segment

/-! ## The chunks of the segments -/

/-- The chunks of a group are described and stored in order. -/
theorem groupOf_holds {chunks : List EncodedChunk} {group : Group} (h : groupOf chunks = .ok group)
    {i : Nat} {encoded : EncodedChunk} (hi : chunks[i]? = some encoded) :
    ∃ offset, group.chunks[i]? = some (encoded.descriptorAt offset) ∧
      offset + encoded.bytes.length ≤ group.spool.length ∧
      slice group.spool offset encoded.bytes.length = encoded.bytes := by
  induction chunks using List.reverseRecOn generalizing group with
  | nil => cases hi
  | append_singleton chunks last ih =>
    rw [groupOf, foldlM_concat] at h
    obtain ⟨front, hfront, hlast⟩ := bind_eq_ok.mp h
    have hlength : front.chunks.length = chunks.length := groupOf_length hfront
    obtain ⟨⟨descriptor, spool⟩, happend, hgroup⟩ := bind_eq_ok.mp hlast
    obtain ⟨rfl, rfl⟩ := appendChunk_eq_ok happend
    obtain rfl := Except.ok.inj hgroup
    dsimp only
    by_cases hlt : i < chunks.length
    · rw [List.getElem?_append_left hlt] at hi
      obtain ⟨offset, hdescriptor, hfits, hslice⟩ := ih hfront hi
      refine ⟨offset, ?_, ?_, ?_⟩
      · rw [List.getElem?_append_left (by omega), hdescriptor]
      · rw [List.length_append]
        omega
      · rw [slice_append_left hfits, hslice]
    · have heq : i = chunks.length := by
        have hbound := (List.getElem?_eq_some_iff.mp hi).1
        rw [List.length_append, List.length_singleton] at hbound
        omega
      rw [heq, List.getElem?_concat_length] at hi
      obtain rfl := Option.some.inj hi
      refine ⟨front.spool.length, ?_, by rw [List.length_append], copyChunk_appended _ _⟩
      rw [heq, ← hlength, List.getElem?_concat_length]

/-- The ranges lead to a chunk in a segment. -/
structure LeadsTo (files : List SegmentFile) (readTable : Nat → Nat → Nat → Result Bytes)
    (chunkSize chunkId : Nat) (encoded : EncodedChunk) (range : TableRange) (segmentIndex placement :
    Nat) (descriptor : ChunkDescriptor) : Prop where
  rangeOf : RangesOf segmentIndex ⟨false, .zlib⟩ range
  contains : range.firstChunk ≤ chunkId ∧ chunkId < range.firstChunk + range.chunkCount
  stored : ∃ file, files[segmentIndex]? = some file ∧
    slice file.bytes placement encoded.bytes.length = encoded.bytes
  describes : ∃ offset, descriptor = encoded.descriptorAt offset
  placed : ∀ logicalSize, IsPlaced (lookupEwf1Chunk readTable range chunkSize
    (chunkId - range.firstChunk) logicalSize) segmentIndex placement descriptor ↔
      Admits chunkSize ⟨false, .zlib⟩ descriptor

/-- The encoded chunks are found from `firstChunk` on. -/
def FindsEncoded (files : List SegmentFile) (readTable : Nat → Nat → Nat → Result Bytes)
    (chunkSize firstChunk : Nat) (encoded : List EncodedChunk) (ranges : List TableRange) : Prop :=
  ∀ i chunk, encoded[i]? = some chunk → ∃ range ∈ ranges, ∃ segmentIndex placement descriptor,
    LeadsTo files readTable chunkSize (firstChunk + i) chunk range segmentIndex placement descriptor

theorem findsEncoded_of_findsChunks {files : List SegmentFile} {file : SegmentFile}
    {readTable : Nat → Nat → Nat → Result Bytes} {segmentIndex firstChunk chunkSize : Nat}
    {chunks : List EncodedChunk} {group : Group} {out : SegmentOutput Bytes}
    {ranges : List TableRange} (hfile : files[segmentIndex]? = some file)
    (hgroup : groupOf chunks = .ok group)
    (hfinds : FindsChunks group.spool file out group.chunks readTable segmentIndex firstChunk
      chunkSize ⟨false, .zlib⟩ ranges)
    (hranges : ∀ range ∈ ranges, RangesOf segmentIndex ⟨false, .zlib⟩ range)
    (hbound : firstChunk + group.chunks.length < u64Limit) :
    FindsEncoded files readTable chunkSize firstChunk chunks ranges := by
  intro i chunk hi
  obtain ⟨offset, hdescriptor, -, hslice⟩ := groupOf_holds hgroup hi
  obtain ⟨placement, range, -, hstored, hcovering, hfirst, hplaced⟩ := hfinds.found i _ hdescriptor
  have hlt := (List.getElem?_eq_some_iff.mp hdescriptor).1
  obtain ⟨other, hother, hfound, hbounds⟩ := exists_coveringRange hfinds.covers hbound
    (Nat.le_add_right firstChunk i) (Nat.add_lt_add_left hlt firstChunk)
  rw [hcovering] at hfound
  obtain rfl := Option.some.inj hfound
  exact ⟨range, hother, segmentIndex, placement, _, hranges range hother, hbounds,
    ⟨file, hfile, hstored.trans hslice⟩, ⟨offset, rfl⟩, hplaced⟩

theorem FindsEncoded.append {files : List SegmentFile} {readTable : Nat → Nat → Nat → Result Bytes}
    {chunkSize firstChunk : Nat} {encoded others : List EncodedChunk}
    {ranges otherRanges : List TableRange}
    (h : FindsEncoded files readTable chunkSize firstChunk encoded ranges)
    (h' : FindsEncoded files readTable chunkSize (firstChunk + encoded.length) others otherRanges) :
    FindsEncoded files readTable chunkSize firstChunk (encoded ++ others) (ranges ++ otherRanges) := by
  intro i chunk hi
  by_cases hlt : i < encoded.length
  · rw [List.getElem?_append_left hlt] at hi
    obtain ⟨range, hrange, hleads⟩ := h i chunk hi
    exact ⟨range, List.mem_append_left _ hrange, hleads⟩
  · rw [List.getElem?_append_right (Nat.le_of_not_lt hlt)] at hi
    obtain ⟨range, hrange, hleads⟩ := h' _ chunk hi
    have hid : firstChunk + encoded.length + (i - encoded.length) = firstChunk + i := by omega
    rw [hid] at hleads
    exact ⟨range, List.mem_append_right _ hrange, hleads⟩

/-! ## Opening the segments in order -/

/-- The image so far: the segments of the writer with these chunks. -/
structure OpensChunks (files : List SegmentFile) (readTable : Nat → Nat → Nat → Result Bytes)
    (w : SequentialWriter) (volume : ParsedVolume) (start : ProfileState) (stored : StoredHashes)
    (encoded : List EncodedChunk) (state : OpenState) : Prop where
  chunkSize : state.chunkSize = w.chunkSize
  logicalSize : state.logicalSize = w.logicalSize
  complete : state.acquisitionComplete = true
  method : state.compressionMethod = .zlib
  geometry : state.mediaGeometry = some volume.mediaGeometry
  identifier : state.setIdentifier = volume.volume.setIdentifier
  nextChunk : state.nextChunk = encoded.length
  discovered : state.discoveredTableChunks = encoded.length
  detects : Detects start state.metadata.profile
  errors : state.metadata.acquisitionErrors = w.options.acquisitionErrors
  hashes : state.metadata.storedHashes = stored
  covers : TableRange.covers state.ranges 0 encoded.length
  found : FindsEncoded files readTable w.chunkSize 0 encoded state.ranges

section Steps

variable {files : List SegmentFile} {readTable : Nat → Nat → Nat → Result Bytes}
  {volume : ParsedVolume} {start : ProfileState} {stored merged : StoredHashes}
  {encoded chunks : List EncodedChunk} {segment : ParsedSegment}

theorem agreeing_self {α : Type} [DecidableEq α] (value : Option α) (e : EwfError) :
    agreeing value value e = .ok value := by
  unfold agreeing
  rw [rejectIf_neg _ (by cases value <;> simp), ok_bind, Option.or_self, pure_eq_ok]

theorem opensChunks_first (hvolume : HasVolume w volume)
    (hsegment : OpenedAs w volume start 0 chunks.length stored segment)
    (hmerge : mergeHashes {} stored = .ok merged) (hbound : chunks.length < u64Limit)
    (hcovers : TableRange.covers segment.ranges 0 chunks.length)
    (hfinds : FindsEncoded files readTable w.chunkSize 0 chunks segment.ranges) :
    ∃ state, OpenState.first segment = .ok state ∧
      OpensChunks files readTable w volume start merged chunks state := by
  have hdiscovered := discoverTableChunks_of_covers hcovers hbound
  unfold OpenState.first advanceChunks
  rw [hsegment.hashes, hmerge, ok_bind, hsegment.count, checkedAdd_of_lt (by omega), okOr_some,
    ok_bind, hdiscovered, ok_bind, pure_eq_ok]
  refine ⟨_, rfl, ?_⟩
  have herrors := hsegment.errors
  rw [if_pos rfl] at herrors
  refine ⟨?_, ?_, hsegment.complete, hsegment.method, ?_, ?_, Nat.zero_add _, rfl, hsegment.detects,
    herrors, rfl, hcovers, hfinds⟩
  · dsimp only
    rw [hsegment.volume, Option.map_some, Option.getD_some, hvolume.chunkSize]
  · dsimp only
    rw [hsegment.volume, Option.map_some, Option.getD_some, hvolume.logicalSize]
  · dsimp only
    rw [hsegment.volume, Option.map_some]
  · dsimp only
    rw [hsegment.volume, Option.bind_some]

theorem opensChunks_next {segmentIndex : Nat} {state : OpenState} (hstart : Hinted start)
    (hstate : OpensChunks files readTable w volume start {} encoded state)
    (hlater : segmentIndex ≠ 0)
    (hsegment : OpenedAs w volume start segmentIndex chunks.length stored segment)
    (hmerge : mergeHashes {} stored = .ok merged)
    (hbound : encoded.length + chunks.length < u64Limit)
    (hcovers : TableRange.covers segment.ranges encoded.length (encoded.length + chunks.length))
    (hfinds : FindsEncoded files readTable w.chunkSize encoded.length chunks segment.ranges) :
    ∃ next, state.next segment = .ok next ∧
      OpensChunks files readTable w volume start merged (encoded ++ chunks) next := by
  have hdiscovered := discoverTableChunks_of_covers hcovers hbound
  have hprofile : mergeSegmentFormatProfile state.metadata.profile segment.metadata.profile =
      .ok state.metadata.profile := by
    rw [hsegment.hinted hlater]
    exact mergeSegmentFormatProfile_hinted hstart hstate.detects
  have herrors : mergeAcquisitionErrors state.metadata.acquisitionErrors
      segment.metadata.acquisitionErrors = .ok state.metadata.acquisitionErrors := by
    rw [hsegment.errors, if_neg hlater]
    rfl
  unfold OpenState.next advanceChunks
  rw [hsegment.volume, Option.bind_some, Option.map_some, hstate.identifier, agreeing_self, ok_bind,
    hstate.method, hsegment.method, rejectIf_neg _ (by simp), ok_bind, hstate.geometry, agreeing_self,
    ok_bind, hprofile, ok_bind, herrors, ok_bind, hstate.hashes, hsegment.hashes, hmerge, ok_bind,
    hstate.nextChunk, hsegment.count, checkedAdd_of_lt hbound, okOr_some, ok_bind, hstate.discovered,
    hdiscovered, ok_bind, pure_eq_ok]
  refine ⟨_, rfl, ?_⟩
  have hlength : (encoded ++ chunks).length = encoded.length + chunks.length := List.length_append
  refine ⟨hstate.chunkSize, hstate.logicalSize, hsegment.complete, rfl, rfl, rfl,
    hlength.symm, hlength.symm, hstate.detects, hstate.errors, rfl, ?_, ?_⟩
  · rw [hlength]
    exact Tiling.Tiles.append hstate.covers hcovers
  · refine hstate.found.append ?_
    rw [Nat.zero_add]
    exact hfinds

end Steps

/-- The bytes of the segments, as their tables are read. -/
def readSegments (files : List SegmentFile) (segmentIndex offset size : Nat) : Result Bytes :=
  match files[segmentIndex]? with
  | none => .error (.malformed "missing segment source")
  | some file => file.readExactAt offset size

section Runs

variable {header header2 xheader ltree : WriteOptions → Result (Option Bytes)}
  {hashes : WriteHashes} {stored merged : StoredHashes} {hint : FormatProfile}
  {files : List SegmentFile}

/-- The segment of a run of chunks is opened behind those in front of it. -/
theorem openSegment_run (decodeHeaderBytes : Bytes → List Char)
    (inherited : Option Ewf1MediaGeometry)
    (h : Created (ewf1PayloadEncoders codec header header2 xheader ltree) settings w)
    (hlimits : Limits settings w) (hformat : settings.write.format = .ewf1Physical)
    (hstored : ReadsHashes codec { w.options with hashes } true stored)
    (hhint : (initialProfile false false true hint).profile ≠ .smart)
    {run : List EncodedChunk} {rest : List (List EncodedChunk)} {group : Group} {bytes : Bytes}
    {segmentIndex firstChunk : Nat} {file : SegmentFile} (hgroup : groupOf run = .ok group)
    (hstage : (if rest = [] then (w.withHashes hashes).stageGroup codec
        (ewf1PayloadEncoders codec header header2 xheader ltree) ewf2 group (segmentIndex + 1) true
      else w.stageGroup codec (ewf1PayloadEncoders codec header header2 xheader ltree) ewf2 group
        (segmentIndex + 1) false) = .ok bytes)
    (hbytes : file.bytes = bytes) (hfile : files[segmentIndex]? = some file)
    (hrun : run ≠ [] ∨ w.logicalSize = 0) (hbound : firstChunk + run.length < u64Limit) :
    ∃ volume segment, HasVolume w volume ∧
      OpenedAs w volume (initialProfile false false true hint) segmentIndex run.length
        (if rest = [] then stored else {}) segment ∧
      TableRange.covers segment.ranges firstChunk (firstChunk + run.length) ∧
      FindsEncoded files (readSegments files) w.chunkSize firstChunk run segment.ranges ∧
      openSegment codec decodeHeaderBytes hint file segmentIndex firstChunk inherited =
        .ok segment := by
  have hlength := groupOf_length hgroup
  have hread : readSegments files segmentIndex = file.readExactAt := by
    funext offset size
    rw [readSegments, hfile]
  have hchunks : group.chunks ≠ [] ∨ w.logicalSize = 0 := by
    refine hrun.imp_left fun hne hnil => hne ?_
    rw [hnil, List.length_nil] at hlength
    exact List.length_eq_zero_iff.mp hlength.symm
  have hopened : ∃ volume out segment, HasVolume w volume ∧
      OpenedAs w volume (initialProfile false false true hint) segmentIndex group.chunks.length
        (if rest = [] then stored else {}) segment ∧
      FindsChunks group.spool file out group.chunks (readSegments files) segmentIndex firstChunk
        w.chunkSize ⟨false, .zlib⟩ segment.ranges ∧
      (∀ range ∈ segment.ranges, RangesOf segmentIndex ⟨false, .zlib⟩ range) ∧
      openSegment codec decodeHeaderBytes hint file segmentIndex firstChunk inherited =
        .ok segment := by
    by_cases hlast : rest = []
    · rw [if_pos hlast] at hstage ⊢
      exact openSegment_staged decodeHeaderBytes inherited h hlimits hformat hstage hbytes hchunks
        (by omega) hstored hhint hread
    · rw [if_neg hlast] at hstage ⊢
      have hown : (w.withHashes w.options.hashes).stageGroup codec
          (ewf1PayloadEncoders codec header header2 xheader ltree) ewf2 group (segmentIndex + 1)
            false = .ok bytes := hstage
      exact openSegment_staged decodeHeaderBytes inherited h hlimits hformat hown hbytes hchunks
        (by omega) rfl hhint hread
  obtain ⟨volume, out, segment, hvolume, hsegment, hfinds, hranges, hopen⟩ := hopened
  have hcovers := hfinds.covers
  rw [hlength] at hsegment hcovers
  exact ⟨volume, segment, hvolume, hsegment, hcovers,
    findsEncoded_of_findsChunks hfile hgroup hfinds hranges (by omega), hopen⟩

/-- The digests of an image are those of its last segment. -/
theorem mergeHashes_last (last : Prop) [Decidable last] (h : mergeHashes {} stored = .ok merged) :
    mergeHashes {} (if last then stored else {}) = .ok (if last then merged else {}) := by
  by_cases hlast : last
  · rw [if_pos hlast, if_pos hlast, h]
  · rw [if_neg hlast, if_neg hlast]
    rfl

/-- The segments behind the first one are opened in order. -/
theorem openSegmentsFrom_staged (decodeHeaderBytes : Bytes → List Char)
    (h : Created (ewf1PayloadEncoders codec header header2 xheader ltree) settings w)
    (hlimits : Limits settings w) (hformat : settings.write.format = .ewf1Physical)
    (hstored : ReadsHashes codec { w.options with hashes } true stored)
    (hmerge : mergeHashes {} stored = .ok merged)
    (hhint : Hinted (initialProfile false false true hint)) {volume : ParsedVolume}
    (hvolume : HasVolume w volume) {runs : List (List EncodedChunk)} {segments : List Bytes}
    {segmentIndex : Nat} {encoded : List EncodedChunk} {state : OpenState}
    {others : List SegmentFile} (hlater : segmentIndex ≠ 0) (hne : runs ≠ [])
    (hnonempty : ∀ run ∈ runs, run ≠ [])
    (hstate : OpensChunks files (readSegments files) w volume
      (initialProfile false false true hint) {} encoded state)
    (hrun : stageRuns codec (ewf1PayloadEncoders codec header header2 xheader ltree) ewf2 w
      (w.withHashes hashes) (segmentIndex + 1) runs = .ok segments)
    (hbytes : others.map (·.bytes) = segments)
    (hfiles : ∀ i, others[i]? = files[segmentIndex + i]?)
    (hbound : encoded.length + runs.flatten.length < u64Limit) :
    ∃ final, openSegmentsFrom codec decodeHeaderBytes hint segmentIndex state others = .ok final ∧
      OpensChunks files (readSegments files) w volume (initialProfile false false true hint) merged
        (encoded ++ runs.flatten) final := by
  induction runs generalizing segments segmentIndex encoded state others with
  | nil => exact absurd rfl hne
  | cons run rest ih =>
    simp only [stageRuns, bind_eq_ok, pure_eq_ok, Except.ok.injEq] at hrun
    obtain ⟨group, hgroup, bytes, hstage, behind, hbehind, rfl⟩ := hrun
    cases others with
    | nil => cases hbytes
    | cons file others =>
      rw [List.map_cons, List.cons.injEq] at hbytes
      rw [List.flatten_cons, List.length_append] at hbound
      have hfile : files[segmentIndex]? = some file := by
        have hfirst := hfiles 0
        rw [Nat.add_zero] at hfirst
        exact hfirst.symm
      obtain ⟨volume', segment, hvolume', hsegment, hcovers, hfinds, hopen⟩ :=
        openSegment_run decodeHeaderBytes state.mediaGeometry h hlimits hformat hstored hhint.ne_smart
          hgroup hstage hbytes.1 hfile (.inl (hnonempty run List.mem_cons_self))
          (show encoded.length + run.length < u64Limit by omega)
      obtain rfl := hvolume'.unique hvolume
      obtain ⟨next, hnext, hopens⟩ := opensChunks_next hhint hstate hlater hsegment
        (mergeHashes_last (rest = []) hmerge) (by omega) hcovers hfinds
      rw [openSegmentsFrom, hstate.nextChunk, hopen, ok_bind, hnext, ok_bind]
      by_cases hlast : rest = []
      · rw [if_pos hlast] at hopens
        subst hlast
        have hnone : others = [] := by
          obtain rfl := Except.ok.inj hbehind
          exact List.map_eq_nil_iff.mp hbytes.2
        refine ⟨next, by rw [hnone]; rfl, ?_⟩
        rw [List.flatten_cons, List.flatten_nil, List.append_nil]
        exact hopens
      · rw [if_neg hlast] at hopens
        obtain ⟨final, hfinal, hall⟩ := ih (by omega) hlast
          (fun run hrun => hnonempty run (List.mem_cons_of_mem _ hrun)) hopens hbehind hbytes.2
          (fun i => by
            have hbehindFirst := hfiles (i + 1)
            rw [List.getElem?_cons_succ] at hbehindFirst
            rw [hbehindFirst]
            congr 1
            omega)
          (by rw [List.length_append]; omega)
        refine ⟨final, hfinal, ?_⟩
        rw [List.flatten_cons, ← List.append_assoc]
        exact hall

end Runs

end EwfImage.SequentialWriter
