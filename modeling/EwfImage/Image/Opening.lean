import EwfImage.Image.AcquisitionErrors
import EwfImage.Image.Ewf1Probe
import EwfImage.Image.Geometry
import EwfImage.Image.StoredHashes
import EwfImage.Lib.Utf16
import EwfImage.Metadata.Session
import EwfImage.Reading.Reader

/-!
# Opening an EWF1 image

The segments are parsed in order: the section chain, the volume, the metadata sections and
the table ranges of each, which the segments in front of it have to agree with. The image is
the index over all ranges. The image is opened without a password. The values of the header
texts and the catalogs of logical images are left out.

The functions are those of the source with their checks in order, so that an image which is
refused is refused with the error of the source. A segment is opened on top of what the segments
before it said (`OpenState`), and `finish` makes the image of it.
-/

namespace EwfImage

open Ewf1 Fallible LittleEndian Slice Word

/-! ## Metadata payloads -/

def maxDecompressedMetadata : Nat := 16 * 1024 * 1024

def decompressMetadata (reader : DecoderStream) (format : String) : Result Bytes :=
  if maxDecompressedMetadata < reader.output.length then
    .error (.malformed s!"{format} metadata exceeds decompressed size limit")
  else match reader.failure with
    | none => .ok reader.output
    | some err => .error (.malformed s!"{format} metadata decompression failed: {err}")

/-- A payload that zlib does not decompress within the limit is taken as it is. -/
def ewf1MetadataPayload (codec : Codec) (compressionMethod : CompressionMethod) (data : Bytes) :
    Result Bytes :=
  if compressionMethod = .zstd ∧ [0x28, 0xb5, 0x2f, 0xfd].isPrefixOf data then do
    let decoder ← (codec.zstdDecoder maxDecompressedMetadata data).mapError fun err =>
      .malformed s!"EWF1 metadata Zstandard decoder initialization failed: {err}"
    decompressMetadata decoder "EWF1"
  else
    let reader := codec.zlibDecoder data
    if reader.failure = none ∧ reader.output.length ≤ maxDecompressedMetadata then
      .ok reader.output
    else .ok data

/-! ## The compression method -/

def lowerAscii (byte : UInt8) : UInt8 := if 65 ≤ byte ∧ byte ≤ 90 then byte + 32 else byte

/-- The method that a compression marker of a descriptor names. -/
def descriptorCompressionMethod (marker : Bytes) : Result CompressionMethod :=
  let name := marker.map lowerAscii
  if name = ascii "zstd" then .ok .zstd
  else if name = ascii "zlib" ∨ name = ascii "deflate" then .ok .zlib
  else
    let text := (String.ofList (Text.fromUtf8Lossy marker)).quote
    .error (.malformed s!"unsupported EWF1 descriptor compression marker {text}")

def detectEwf1CompressionMethod (fileHeader : FileHeader) (sections : List Ewf1Section) :
    Result CompressionMethod := do
  let marker := fileHeader.formatMarker
  let headerMethod ← (if marker = 0x01 ∨ marker = 0x81 then .ok .zlib
    else if marker = 0x21 ∨ marker = 0xa1 then .ok .zstd
    else
      let digits := hexString [marker]
      .error (.malformed s!"unsupported EWF1 file header marker 0x{digits}"))
  let markers := (sections.filter (·.desc.sectionType = ascii "header")).filterMap
    (·.desc.compressionMethod)
  let descriptorMethod ← markers.foldlM (fun (expected : Option CompressionMethod) marker => do
    let observed ← descriptorCompressionMethod marker
    rejectIf (expected.any (· ≠ observed))
      (.malformed "EWF1 descriptor compression marker conflict")
    return some (expected.getD observed)) none
  rejectIf (descriptorMethod.any (· ≠ headerMethod))
    (.malformed "EWF1 file header and descriptor compression marker conflict")
  return headerMethod

def ewf1AcquisitionComplete (sections : List Ewf1Section) : Bool :=
  sections.getLast?.all (·.desc.sectionType ≠ ascii "next")

/-! ## Format profiles -/

/-- `decode_utf16le`, with a byte order mark left out. -/
def decodeUtf16le (raw : Bytes) : Option (List Char) :=
  if raw.length < 2 then none
  else match Utf16.ofBytes raw with
    | [] => none
    | unit :: units => Utf16.decode (if unit = 0xfeff then units else unit :: units)

/-- The line ends `\r\n` and `\r` as `\n`. -/
def normalizeLineEnds : List Char → List Char
  | '\r' :: '\n' :: rest => '\n' :: normalizeLineEnds rest
  | '\r' :: rest => '\n' :: normalizeLineEnds rest
  | c :: rest => c :: normalizeLineEnds rest
  | [] => []

def headerLines (text : List Char) : List (List Char) :=
  let lines := (normalizeLineEnds text).splitOn '\n'
  if lines.getLast? = some [] then lines.dropLast else lines

/-- The profile that one field name of a header stands for, else the one found before. -/
def headerFieldProfile (hasCarriageReturn : Bool) (headerSection : Nat)
    (numberOfSections : List Char) (softwareVersion : Option Char)
    (profile : Option FormatProfile) (index : Nat) (name : List Char) : Option FormatProfile :=
  let single := numberOfSections = ['1']
  let three := numberOfSections = ['3']
  if headerSection = 1 ∧ index = 5 ∧ name = ['a', 'v'] then some .linen5
  else if headerSection = 2 ∧ index = 5 ∧ name = ['a', 'v'] ∧ single then some .enCase4
  else if headerSection = 2 ∧ index = 5 ∧ name = ['a', 'v'] ∧ three then some .enCase5
  else if headerSection = 1 ∧ index = 5 ∧ name = ['m', 'd'] then some .linen6
  else if headerSection = 2 ∧ index = 5 ∧ name = ['m', 'd'] then some .enCase6
  else if headerSection = 1 ∧ name = ['l'] then some .linen7
  else if headerSection = 2 ∧ name = ['l'] then some .enCase7
  else if headerSection = 1 ∧ index = 8 ∧ name = ['r'] then some .enCase1
  else if headerSection = 1 ∧ index = 10 ∧ name = ['r'] ∧ hasCarriageReturn then
    match softwareVersion with
    | some '2' => some .enCase2
    | some '3' => some .enCase3
    | _ => profile
  else if headerSection = 1 ∧ index = 10 ∧ name = ['r'] then some .ftkImager
  else profile

def detectEwf1HeaderProfile (text : List Char) (headerSection : Nat) : Option FormatProfile :=
  match headerLines text with
  | numberOfSections :: _ :: typeLine :: rest =>
    let types := typeLine.splitOn '\t'
    let values := (rest.headD []).splitOn '\t'
    let softwareVersion := (types.findIdx? (· = ['a', 'v'])).bind fun index =>
      (values[index]?).bind List.head?
    types.zipIdx.foldl
      (fun profile (name, index) => headerFieldProfile (text.contains '\r') headerSection
        numberOfSections softwareVersion profile index name)
      (if headerSection = 1 ∧ numberOfSections = ['3'] then some .linen5 else none)
  | _ => none

/-- `apply_detected_ewf1_format_profile`; `none` when the profile stays as it is. -/
def applyDetectedProfile (target : FormatProfile) (detected : Option FormatProfile) :
    Option FormatProfile :=
  match detected.filter (· ≠ .unknown) with
  | none => none
  | some detected =>
    if target = .smart ∧ detected = .ftkImager then some detected
    else if target ∈ [.smart, .logicalEnCase5, .logicalEnCase6, .logicalEnCase7] then none
    else some detected

/-- The profile that the extension of the first segment hints at. -/
def ewf1FormatProfileHint (extension : Option (List Char)) : FormatProfile :=
  match extension.bind List.head? with
  | some 'e' => .ewf
  | some 'E' => .enCase2
  | some 'L' => .logicalEnCase5
  | some 's' | some 'S' => .smart
  | _ => .unknown

def profileHintMatchesDetected (hint detected : FormatProfile) : Bool :=
  hint ∈ [.enCase2, .enCase5, .ewf] && detected ∈ [.enCase1, .enCase2, .enCase3, .enCase4, .enCase5,
    .enCase6, .enCase7, .ftkImager, .linen5, .linen6, .linen7]

/-- The profile of an image, and whether only a hint stands for it. -/
structure ProfileState where
  profile : FormatProfile
  hintOnly : Bool
  deriving DecidableEq

/-- `merge_segment_format_profile`. -/
def mergeSegmentFormatProfile (target source : ProfileState) : Result ProfileState :=
  if source.profile = .unknown then .ok target
  else if target.profile = .unknown then .ok source
  else if target.profile = source.profile then
    .ok { target with hintOnly := target.hintOnly && source.hintOnly }
  else if target.hintOnly ∧ source.hintOnly = false ∧
      profileHintMatchesDetected target.profile source.profile then
    .ok { source with hintOnly := false }
  else if target.hintOnly = false ∧ source.hintOnly ∧
      profileHintMatchesDetected source.profile target.profile then .ok target
  else .error (.malformed "segment format profiles do not match")

/-! ## The volume -/

namespace Ewf1

/-- The volume section with its profile, which short volumes do not have. -/
structure VolumeProfile extends Volume where
  setIdentifier : Option SetIdentifier
  mediaType : Option UInt8
  mediaFlags : Option UInt8
  compressionLevel : Option UInt8
  errorGranularity : Option Nat
  smart : Bool

def storedSetIdentifier (buf : Bytes) : Option SetIdentifier :=
  if hsize : (slice buf 64 16).length = 16 then
    if slice buf 64 16 = List.replicate 16 0 then none else some ⟨slice buf 64 16, hsize⟩
  else none

def VolumeProfile.parse (buf : Bytes) : Result VolumeProfile := do
  let volume ← Volume.parse buf
  let smart := buf.length = smartVolumeSize
  let hasFullProfile := ¬ smart ∧ volumeDataSize ≤ buf.length
  return { volume with
    setIdentifier := if smart then none else storedSetIdentifier buf
    mediaType := if hasFullProfile then some (buf.getD 0 0) else none
    mediaFlags := if hasFullProfile then some (buf.getD 36 0) else none
    compressionLevel := buf[52]?
    errorGranularity := if hasFullProfile then (some (leAt buf 56 4)).filter (· ≠ 0) else none
    smart }

end Ewf1

def ewf1MediaType (value : UInt8) : MediaType :=
  if value = 0x00 then .removable
  else if value = 0x01 then .fixed
  else if value = 0x03 then .optical
  else if value = 0x0e then .singleFiles
  else if value = 0x10 then .memory
  else .unknown value

def ewf1MediaFlags (value : Option UInt8) (logicalFileHeader : Bool) : MediaFlags :=
  match value with
  | none => { physical := !logicalFileHeader }
  | some value => {
      physical := value &&& 0x02 ≠ 0
      fastbloc := value &&& 0x04 ≠ 0
      tableau := value &&& 0x08 ≠ 0 }

/-- `CompressionLevel::from_i8` of the byte of a volume. -/
def compressionLevelOfByte (value : UInt8) : CompressionLevel :=
  if value = 0xff then .default
  else if value = 0 then .none
  else if value = 1 then .fast
  else if value = 2 then .best
  else .unknown value.toInt8

def validatePresentEwf1MediaChecksum (data : Bytes) (sectionType : Bytes) : Result Unit :=
  let label := String.ofList (Text.fromUtf8Lossy sectionType)
  if data.length < 4 then .ok ()
  else validatePresentAdler32Checksum data (data.length - 4) (data.length - 4) s!"EWF1 {label}"

structure Ewf1MediaGeometry where
  chunkSize : Nat
  logicalSize : Nat
  sectorsPerChunk : Nat
  bytesPerSector : Nat
  sectorCount : Nat
  chunkCount : Nat
  deriving DecidableEq

theorem Ewf1.openGeometry_lt {payload : Bytes} {geometry : OpenedGeometry}
    (h : openGeometry payload = .ok geometry) : geometry.logicalSize < u64Limit := by
  simp only [openGeometry, Volume.logicalSize, bind_eq_ok, okOr_eq_ok, checkedMul_eq_some,
    pure_eq_ok, Except.ok.injEq] at h
  obtain ⟨volume, -, chunkSize, -, _, -, declared, ⟨hlt, rfl⟩, logicalSize, hsize, rfl⟩ := h
  split at hsize
  · cases hsize
    exact hlt
  · simp only [okOr_eq_ok, checkedMul_eq_some] at hsize
    obtain ⟨hlogical, rfl⟩ := hsize
    exact hlogical

/-- The volume of a segment with the geometry that the segment is opened under. -/
structure ParsedVolume where
  volume : VolumeProfile
  geometry : OpenedGeometry
  logicalSize_lt : geometry.logicalSize < u64Limit

/-- The payload of a volume section. -/
def parseEwf1Volume (data sectionType : Bytes) : Result ParsedVolume := do
  validatePresentEwf1MediaChecksum data sectionType
  let volume ← VolumeProfile.parse data
  match hgeometry : openGeometry data with
  | .error e => .error e
  | .ok geometry => return { volume, geometry, logicalSize_lt := openGeometry_lt hgeometry }

def ParsedVolume.mediaGeometry (parsed : ParsedVolume) : Ewf1MediaGeometry where
  chunkSize := parsed.geometry.chunkSize
  logicalSize := parsed.geometry.logicalSize
  sectorsPerChunk := parsed.volume.sectorsPerChunk
  bytesPerSector := parsed.volume.bytesPerSector
  sectorCount := parsed.volume.sectorCount
  chunkCount := parsed.volume.chunkCount

def ParsedVolume.media (parsed : ParsedVolume) (logical : Bool) (method : CompressionMethod) :
    MediaInfo :=
  let volume := parsed.volume
  let smartProfile := !logical && volume.smart
  { sectorsPerChunk := some volume.sectorsPerChunk
    bytesPerSector := some volume.bytesPerSector
    setIdentifier := volume.setIdentifier
    mediaType := (volume.mediaType.map ewf1MediaType).or
      (if smartProfile then some .removable else none)
    errorGranularity := volume.errorGranularity
    mediaFlags := ewf1MediaFlags volume.mediaFlags (logical || smartProfile)
    compressionMethod := some method
    compressionValues := {
      level := (volume.compressionLevel.map compressionLevelOfByte).getD .none } }

/-! ## The metadata sections -/

/-- What the metadata sections of a segment are read into. -/
structure SegmentMetadata where
  profile : ProfileState
  detectedFromHeader2 : Bool := false
  storedHashes : StoredHashes := {}
  acquisitionErrors : List AcquisitionError := []
  sessions : List SectorRange := []
  tracks : List SectorRange := []
  deriving DecidableEq

/-- A profile that a header names. -/
def SegmentMetadata.detect (metadata : SegmentMetadata) (detected : Option FormatProfile)
    (fromHeader2 : Bool) : SegmentMetadata :=
  match applyDetectedProfile metadata.profile.profile detected with
  | none => metadata
  | some profile => { metadata with
      profile := ⟨profile, false⟩
      detectedFromHeader2 := metadata.detectedFromHeader2 || fromHeader2 }

section Sections

variable (codec : Codec) (decodeHeaderBytes : Bytes → List Char)

def readHashSection (method : CompressionMethod) (metadata : SegmentMetadata) (found : HashSection) :
    Result SegmentMetadata := do
  let entries ← found.entries (ewf1MetadataPayload codec method)
  let storedHashes ← insertAll metadata.storedHashes entries
  return { metadata with storedHashes }

/-- The sections that `parse_ewf1_segment` reads the payloads of, beside the volume and the
tables. -/
def metadataSectionTypes : List Bytes :=
  [ascii "header", ascii "header2", ascii "xheader", ascii "error2", ascii "session", ascii "hash",
    ascii "digest", ascii "xhash"]

def IsMetadataSection (sectionType : Bytes) : Prop := sectionType ∈ metadataSectionTypes

instance (sectionType : Bytes) : Decidable (IsMetadataSection sectionType) :=
  inferInstanceAs (Decidable (sectionType ∈ metadataSectionTypes))

/-- What the payload of a metadata section adds to the metadata. -/
def readMetadataPayload (method : CompressionMethod) (sectorCount : Option Nat)
    (metadata : SegmentMetadata) (sectionType data : Bytes) : Result SegmentMetadata :=
  if sectionType = ascii "header" then do
    let payload ← ewf1MetadataPayload codec method data
    return if metadata.detectedFromHeader2 then metadata
      else metadata.detect (detectEwf1HeaderProfile (decodeHeaderBytes payload) 1) false
  else if sectionType = ascii "header2" then do
    let payload ← ewf1MetadataPayload codec method data
    return metadata.detect ((decodeUtf16le payload).bind (detectEwf1HeaderProfile · 2)) true
  else if sectionType = ascii "xheader" then do
    let _ ← ewf1MetadataPayload codec method data
    return metadata
  else if sectionType = ascii "error2" then do
    let errors ← parseError2Data data
    return { metadata with acquisitionErrors := metadata.acquisitionErrors ++ errors }
  else if sectionType = ascii "session" then do
    let sectorCount ← okOr
      (.malformed "EWF1 session section has no media geometry to inherit") sectorCount
    let parsed ← parseSessionData data 1 sectorCount
    return { metadata with
      sessions := metadata.sessions ++ parsed.sessions
      tracks := metadata.tracks ++ parsed.tracks }
  else if sectionType = ascii "hash" then readHashSection codec method metadata (.ewf1Hash data)
  else if sectionType = ascii "digest" then readHashSection codec method metadata (.ewf1Digest data)
  else readHashSection codec method metadata (.ewf1Xhash data)

/-- The turn of `parse_ewf1_segment` at one section. -/
def readMetadataSection (file : SegmentFile) (method : CompressionMethod)
    (sectorCount : Option Nat) (metadata : SegmentMetadata) (found : Ewf1Section) :
    Result SegmentMetadata :=
  if IsMetadataSection found.desc.sectionType then do
    let data ← file.readExactAt found.dataOffset found.dataSize
    readMetadataPayload codec decodeHeaderBytes method sectorCount metadata found.desc.sectionType
      data
  else .ok metadata

end Sections

/-! ## One segment -/

structure ParsedSegment where
  segmentNumber : Nat
  compressionMethod : CompressionMethod
  /-- The volume, with the media values that the first segment contributes. -/
  volume : Option ParsedVolume
  media : MediaInfo
  acquisitionComplete : Bool
  metadata : SegmentMetadata
  ranges : List TableRange
  tableChunkCount : Nat

def isVolumeSection (found : Ewf1Section) : Bool :=
  found.desc.sectionType = ascii "volume" || found.desc.sectionType = ascii "disk" ||
    found.desc.sectionType = ascii "data"

/-- The profile of a segment before its headers are read. -/
def initialProfile (logical smartProfile hasVolume : Bool) (hint : FormatProfile) :
    ProfileState where
  profile :=
    if logical then .logicalEnCase5
    else if smartProfile then .smart
    else if hasVolume = false then .unknown
    else if hint ≠ .unknown then hint
    else .enCase5
  hintOnly := !logical && !smartProfile

def tableChunkCount (ranges : List TableRange) : Result Nat :=
  ranges.foldlM (fun count range =>
    okOr (.malformed "EWF1 table chunk count overflow") (checkedAdd count range.chunkCount)) 0

/-- `parse_ewf1_segment`; `inherited` is the geometry of the segments in front. -/
def parseEwf1Segment (codec : Codec) (decodeHeaderBytes : Bytes → List Char) (file : SegmentFile)
    (segmentIndex firstChunk : Nat) (inherited : Option Ewf1MediaGeometry)
    (profileHint : FormatProfile) : Result ParsedSegment := do
  let header ← file.readExactAt 0 fileHeaderSize
  let fileHeader ← FileHeader.parse header
  let sections ← scanEwf1Sections file
  let method ← detectEwf1CompressionMethod fileHeader sections
  let volume ← (match sections.find? isVolumeSection with
    | none => .ok none
    | some found => do
      let data ← file.readExactAt found.dataOffset found.dataSize
      let parsed ← parseEwf1Volume data found.desc.sectionType
      return some parsed)
  rejectIf (segmentIndex = 0 ∧ volume.isNone) (.malformed "missing EWF1 media section")
  let smart := volume.any (·.volume.smart)
  let sectorCount := (volume.map (·.volume.sectorCount)).or (inherited.map (·.sectorCount))
  let metadata ← sections.foldlM
    (readMetadataSection codec decodeHeaderBytes file method sectorCount)
    { profile := initialProfile fileHeader.logical (!fileHeader.logical && smart) volume.isSome
        profileHint }
  let ranges ← parseEwf1Ranges file sections segmentIndex firstChunk
    ((volume.map (·.geometry.logicalSize)).getD 0) ⟨smart, method⟩
  let tableChunkCount ← tableChunkCount ranges
  return {
    segmentNumber := fileHeader.segmentNumber
    compressionMethod := method
    volume
    media := (volume.map (·.media fileHeader.logical method)).getD {}
    acquisitionComplete := ewf1AcquisitionComplete sections
    metadata
    ranges
    tableChunkCount }

/-! ## The image -/

/-- What the segments so far have been read into. -/
structure OpenState where
  chunkSize : Nat
  logicalSize : Nat
  logicalSize_lt : logicalSize < u64Limit
  media : MediaInfo
  acquisitionComplete : Bool
  metadata : SegmentMetadata
  setIdentifier : Option SetIdentifier
  compressionMethod : CompressionMethod
  mediaGeometry : Option Ewf1MediaGeometry
  nextChunk : Nat
  discoveredTableChunks : Nat
  ranges : List TableRange

/-- `expected` and what a segment says, when both are there, have to be the same. -/
def agreeing {α : Type} [DecidableEq α] (expected observed : Option α) (e : EwfError) :
    Result (Option α) := do
  rejectIf (observed.any fun observed => expected.any (· ≠ observed)) e
  return expected.or observed

/-- The end of the coverage behind some more ranges. -/
def discoverTableChunks (discovered : Nat) (ranges : List TableRange) : Result Nat :=
  ranges.foldlM (fun discovered range => do
    let last ← okOr (.malformed "table range chunk count overflow")
      (checkedAdd range.firstChunk range.chunkCount)
    return max discovered last) discovered

def advanceChunks (nextChunk tableChunkCount : Nat) : Result Nat :=
  okOr (.malformed "EWF1 chunk count overflow") (checkedAdd nextChunk tableChunkCount)

/-- The state behind the first segment. -/
def OpenState.first (parsed : ParsedSegment) : Result OpenState := do
  let storedHashes ← mergeHashes {} parsed.metadata.storedHashes
  let nextChunk ← advanceChunks 0 parsed.tableChunkCount
  let discoveredTableChunks ← discoverTableChunks 0 parsed.ranges
  return {
    chunkSize := (parsed.volume.map (·.geometry.chunkSize)).getD 0
    logicalSize := (parsed.volume.map (·.geometry.logicalSize)).getD 0
    logicalSize_lt := by
      cases parsed.volume with
      | none => exact Nat.two_pow_pos 64
      | some volume => exact volume.logicalSize_lt
    media := parsed.media
    acquisitionComplete := parsed.acquisitionComplete
    metadata := { parsed.metadata with storedHashes }
    setIdentifier := parsed.volume.bind (·.volume.setIdentifier)
    compressionMethod := parsed.compressionMethod
    mediaGeometry := parsed.volume.map (·.mediaGeometry)
    nextChunk
    discoveredTableChunks
    ranges := parsed.ranges }

/-- The state behind a later segment. -/
def OpenState.next (state : OpenState) (parsed : ParsedSegment) : Result OpenState := do
  let setIdentifier ← agreeing state.setIdentifier (parsed.volume.bind (·.volume.setIdentifier))
    (.malformed "segment set identifier mismatch")
  rejectIf (state.compressionMethod ≠ parsed.compressionMethod)
    (.malformed "EWF1 compression method mismatch across segments")
  let mediaGeometry ← agreeing state.mediaGeometry (parsed.volume.map (·.mediaGeometry))
    (.malformed "EWF1 media geometry mismatch across segments")
  let profile ← mergeSegmentFormatProfile state.metadata.profile parsed.metadata.profile
  let acquisitionErrors ← mergeAcquisitionErrors state.metadata.acquisitionErrors
    parsed.metadata.acquisitionErrors
  let storedHashes ← mergeHashes state.metadata.storedHashes parsed.metadata.storedHashes
  let nextChunk ← advanceChunks state.nextChunk parsed.tableChunkCount
  let discoveredTableChunks ← discoverTableChunks state.discoveredTableChunks parsed.ranges
  return { state with
    acquisitionComplete := parsed.acquisitionComplete
    metadata := { state.metadata with
      profile
      storedHashes
      acquisitionErrors
      sessions := state.metadata.sessions ++ parsed.metadata.sessions
      tracks := state.metadata.tracks ++ parsed.metadata.tracks }
    setIdentifier
    mediaGeometry
    nextChunk
    discoveredTableChunks
    ranges := state.ranges ++ parsed.ranges }

/-- The size of an image that does not declare one is that of its chunks. -/
def OpenState.imageSize (state : OpenState) : Result { size : Nat // size < u64Limit } :=
  if state.logicalSize = 0 ∧ 0 < state.chunkSize then
    if hlt : state.chunkSize * state.discoveredTableChunks < u64Limit then .ok ⟨_, hlt⟩
    else .error (.malformed "logical size overflow")
  else .ok ⟨state.logicalSize, state.logicalSize_lt⟩

/-- An opened image and what it exposes of its metadata. -/
structure OpenedImage where
  image : Reading.Image
  media : MediaInfo
  acquisitionComplete : Bool
  metadata : SegmentMetadata

/-- The size under which the segments are opened: all of the media, or of a sealed acquisition
what is committed of it. -/
def committedSize (size : { size : Nat // size < u64Limit }) :
    Option (Nat × Nat) → Result { size : Nat // size < u64Limit }
  | none => .ok size
  | some (expected, committed) =>
    if hvalid : size.val = expected ∧ committed ≠ 0 ∧ committed ≤ expected then
      .ok ⟨committed, Nat.lt_of_le_of_lt (hvalid.2.2.trans hvalid.1.ge) size.property⟩
    else .error (.malformed "invalid acquisition prefix geometry")

theorem chunks_of_new {ranges : List TableRange} {logicalSize chunkSize : Nat}
    {index : LazyChunkIndex} (h : LazyChunkIndex.new ranges logicalSize chunkSize = .ok index) :
    logicalChunkCount logicalSize chunkSize = .ok index.logicalChunks := by
  unfold LazyChunkIndex.new at h
  rw [bind_eq_ok] at h
  obtain ⟨chunks, hchunks, h⟩ := h
  dsimp only at h
  split at h
  · cases h
  · split at h
    · cases h
    · cases h
      exact hchunks

def OpenState.finish (state : OpenState) (files : List SegmentFile)
    (committed : Option (Nat × Nat)) : Result OpenedImage := do
  let size ← state.imageSize
  let logicalSize ← committedSize size committed
  match hindex : LazyChunkIndex.new state.ranges logicalSize.val state.chunkSize with
  | .error e => .error e
  | .ok index => return {
      image := {
        format := .ewf1
        formatProfile := state.metadata.profile.profile
        logicalSize := logicalSize.val
        chunkSize := state.chunkSize
        bytesPerSector := state.media.bytesPerSector
        index
        segments := files
        encryptionContexts := files.map fun _ => none
        chunks := chunks_of_new hindex
        logicalSize_lt := logicalSize.property }
      media := state.media
      acquisitionComplete := state.acquisitionComplete
      metadata := state.metadata }

section Opening

variable (codec : Codec) (decodeHeaderBytes : Bytes → List Char) (hint : FormatProfile)

/-- One segment, which has to be the next one and not encrypted. -/
def openSegment (file : SegmentFile) (segmentIndex firstChunk : Nat)
    (inherited : Option Ewf1MediaGeometry) : Result ParsedSegment := do
  let encryption ← readXwaysEncryption file
  rejectIf encryption.isSome .passwordRequired
  let parsed ← parseEwf1Segment codec decodeHeaderBytes file segmentIndex firstChunk inherited hint
  let declared := parsed.segmentNumber
  let number := segmentIndex + 1
  rejectIf (parsed.segmentNumber ≠ segmentIndex + 1)
    (.malformed s!"segment {number} declares segment number {declared}, expected {number}")
  return parsed

/-- The segments behind the first one. -/
def openSegmentsFrom : Nat → OpenState → List SegmentFile → Result OpenState
  | _, state, [] => .ok state
  | segmentIndex, state, file :: files => do
    let parsed ← openSegment codec decodeHeaderBytes hint file segmentIndex state.nextChunk
      state.mediaGeometry
    let state ← state.next parsed
    openSegmentsFrom (segmentIndex + 1) state files

/-- `open_segment_sources` of EWF1 segments without a password. -/
def openSegmentSources (files : List SegmentFile) (committed : Option (Nat × Nat)) :
    Result OpenedImage :=
  match files with
  | [] => .error (.noSegments "empty segment list")
  | first :: rest => do
    let parsed ← openSegment codec decodeHeaderBytes hint first 0 0 none
    let state ← OpenState.first parsed
    let state ← openSegmentsFrom codec decodeHeaderBytes hint 1 state rest
    state.finish files committed

end Opening

end EwfImage
