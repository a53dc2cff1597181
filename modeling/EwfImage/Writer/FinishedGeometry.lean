import EwfImage.Writer.Geometry
import EwfImage.Writer.MetadataTexts
import EwfImage.Writer.SegmentGroups

/-!
# The geometry of finished images

A finished image is opened with the geometry that its volume section or its tables of text hold,
and `finished_geometry_opens_iff` says for which configurations the reader accepts it. The writer
only asks for a chunk of at least one byte, while the reader bounds the chunk size. Beside it the
reader takes numbers from what the caller has put into the metadata: the record of a catalog in
place of the media size, and the columns of the case data where the device information is silent,
with products that must not overflow even where they are not needed. A volume section without a
catalog and tables with whole columns are read as the geometry of the image (`opened_volume_eq`,
`opened_tables_eq`).

The results are about every writer that operations lead to, with any header values, catalog and
grouping into segments at the end.
-/

namespace EwfImage

open Ewf1 Fallible Runs Word

/-! ## Opening what was written -/

/-- Where a finished image has its geometry. -/
inductive WrittenGeometry
  /-- The volume section, and the first lines of the catalog in the last segment. -/
  | volume (payload : Bytes) (catalog : Option (List (List Char)))
  | tables (deviceInformation caseData : List Char)

/-- A catalog is written into a logical image. -/
def writeCatalog (format : WriteFormat) (singleFiles : Option SingleFilesInfo) :
    Result (Option (List (List Char))) :=
  match singleFiles with
  | some info => if format = .ewf1Logical then (catalogRecord info).map some else .ok none
  | none => .ok none

/-- What a prepared image is finished with, as far as a reader takes its geometry from it. -/
def PreparedWrite.writeGeometry (prepared : PreparedWrite) (metadata : HeaderMetadata)
    (singleFiles : Option SingleFilesInfo) : Result WrittenGeometry :=
  if isEwf2Format prepared.options.format then .ok (.tables
    (ewf2DeviceInformation prepared.options metadata prepared.sectorCount prepared.chunkCount)
    (ewf2CaseData prepared.options metadata prepared.chunkCount))
  else do
    let payload ← volumeData prepared.options (UInt32.ofNat prepared.chunkCount)
      prepared.sectorCount
    let catalog ← writeCatalog prepared.options.format singleFiles
    return .volume payload catalog

/-- The geometry at the end of the segments, when the tables of the first one cover
`tableChunks` chunks. -/
def WrittenGeometry.read (written : WrittenGeometry) (tableChunks : Nat) :
    Result OpenedGeometry :=
  match written with
  | .volume payload none => Ewf1.openGeometry payload
  | .volume payload (some catalog) => do
    let geometry ← Ewf1.openGeometry payload
    let dataSize ← Ewf1.catalogDataSize catalog
    return geometry.withDataSize dataSize
  | .tables deviceInformation caseData =>
    Ewf2.openGeometry deviceInformation caseData tableChunks

/-- The chunks of the first segment. -/
def firstSegmentChunks (groups : List ChunkRange) : Nat :=
  (groups.head?.map ChunkRange.count).getD 0

/-- The geometry that the image is opened with, when its chunks are stored in these groups. -/
def WrittenGeometry.opened (written : WrittenGeometry) (groups : List ChunkRange)
    (chunkCount : Nat) : Result OpenedGeometry := do
  let geometry ← written.read (firstSegmentChunks groups)
  geometry.finish chunkCount

/-! ## The condition -/

/-- The size of a chunk under the options. -/
def WriteOptions.chunkBytes (options : WriteOptions) : Nat :=
  options.sectorsPerChunk.toNat * options.bytesPerSector.toNat

/-- A tab or a line feed stands for the type of the media. -/
def WriteMediaProfile.BreaksColumns (profile : WriteMediaProfile) : Prop :=
  profile.mediaType = some (.unknown 9) ∨ profile.mediaType = some (.unknown 10)

/-- The chunks are not too large, and a size in the record of a catalog asks for as many chunks as
there are. -/
structure PreparedWrite.Ewf1Accepted (prepared : PreparedWrite)
    (singleFiles : Option SingleFilesInfo) : Prop where
  chunkBytes : prepared.options.chunkBytes ≤ maxChunkSize
  record : prepared.options.format = .ewf1Logical → ∀ info size, singleFiles = some info →
    singleFilesRecordDataSize info = .ok size →
      size = 0 ∨ divCeil size prepared.options.chunkBytes = prepared.chunkCount

/-- The columns of the case data, with the header values among them, hold numbers whose products
fit. The chunks are not too large, and no size is declared for an image without sectors; where
the media type breaks the columns of the device information, both are as the case data say, 32768
bytes and what the first segment holds if they are silent. -/
structure PreparedWrite.Ewf2Accepted (prepared : PreparedWrite) (declared : Ewf2.DeviceInformation)
    (groups : List ChunkRange) : Prop where
  fits : declared.Fits
  kept : ¬ prepared.options.mediaProfile.BreaksColumns →
    prepared.options.chunkBytes ≤ maxChunkSize ∧
      (prepared.sectorCount = 0 → declared.logicalSize = none)
  broken : prepared.options.mediaProfile.BreaksColumns →
    declared.chunkSize.getD 32768 ≤ maxChunkSize ∧
      prepared.chunkCount = declared.logicalSize.elim (firstSegmentChunks groups)
        fun size => divCeil size (declared.chunkSize.getD 32768)

/-- The reader accepts the geometry. For EWF2 this is said of the columns of the case data, for the
other formats of the numbers in the volume section and of the record of the catalog. -/
def PreparedWrite.GeometryAccepted (prepared : PreparedWrite) (metadata : HeaderMetadata)
    (singleFiles : Option SingleFilesInfo) (groups : List ChunkRange) : Prop :=
  if isEwf2Format prepared.options.format then
    prepared.Ewf2Accepted
      (.parse (ewf2CaseData prepared.options metadata prepared.chunkCount)) groups
  else prepared.Ewf1Accepted singleFiles

/-! ## What the reader checks -/

theorem divCeil_mul_left {size : Nat} (count : Nat) (hpos : 0 < size) :
    divCeil (size * count) size = count := by
  refine (divCeil_unique hpos (Nat.le_of_eq (Nat.mul_comm size count)) ?_).symm
  intro hcount
  rw [Nat.mul_comm size count, Nat.mul_comm, Nat.mul_comm count]
  exact Nat.mul_lt_mul_of_pos_left (by omega) hpos

theorem divCeil_pos {n size : Nat} (hpos : 0 < size) (hn : 0 < n) : 0 < divCeil n size := by
  have hge := divCeil_mul_ge (n := n) hpos
  exact Nat.pos_of_ne_zero fun hzero => by rw [hzero, Nat.zero_mul] at hge; omega

section Finish

variable {geometry : OpenedGeometry} {count : Nat}

/-- The end of opening accepts a size that asks for as many chunks as there are. -/
theorem finish_isOk_iff (hpos : 0 < geometry.chunkSize)
    (hfit : geometry.chunkSize * count < u64Limit) :
    (∃ opened, geometry.finish count = .ok opened) ↔
      geometry.logicalSize = 0 ∨ divCeil geometry.logicalSize geometry.chunkSize = count := by
  have hcount : ∀ size, logicalChunkCount size geometry.chunkSize =
      .ok (divCeil size geometry.chunkSize) := fun _ => divCeil_eq_logicalChunkCount hpos
  unfold OpenedGeometry.finish
  by_cases hempty : geometry.logicalSize = 0
  · rw [if_pos ⟨hempty, hpos⟩, checkedMul_of_lt hfit, okOr_some, ok_bind, hcount, ok_bind,
      divCeil_mul_left count hpos, rejectIf_neg _ (by omega), ok_bind]
    exact iff_of_true ⟨_, rfl⟩ (.inl hempty)
  · rw [if_neg (by omega), ok_bind, hcount, ok_bind]
    constructor
    · rintro ⟨opened, hopened⟩
      simp only [bind_eq_ok, rejectIf_eq_ok] at hopened
      obtain ⟨_, hsame, _⟩ := hopened
      exact .inr (not_not.mp hsame).symm
    · rintro (hzero | hsame)
      · exact absurd hzero hempty
      · rw [rejectIf_neg _ (by omega), ok_bind]
        exact ⟨_, rfl⟩

/-- A declared size that fits is the one an image is opened with. -/
theorem finish_eq_ok (hpos : 0 < geometry.chunkSize)
    (h : divCeil geometry.logicalSize geometry.chunkSize = count) :
    geometry.finish count = .ok geometry := by
  have hcount : logicalChunkCount geometry.logicalSize geometry.chunkSize = .ok count := by
    rw [← h]
    exact divCeil_eq_logicalChunkCount hpos
  unfold OpenedGeometry.finish
  by_cases hempty : geometry.logicalSize = 0
  · have hnone : count = 0 := by
      rw [← h, hempty]
      simp [divCeil]
    have hzero : checkedMul geometry.chunkSize 0 = some 0 := rfl
    rw [if_pos ⟨hempty, hpos⟩, hnone, hzero, okOr_some, ok_bind, ← hempty, hcount, ok_bind,
      rejectIf_neg _ (by omega), ok_bind]
    rfl
  · rw [if_neg (by omega), ok_bind, hcount, ok_bind, rejectIf_neg _ (by omega), ok_bind]
    rfl

end Finish

section Tables

variable {first count : Nat}

/-- Sizes are accepted if the size of the media asks for as many chunks as there are; without one
the media end with the chunks of the first segment. -/
theorem segmentGeometry_isOk_iff {chunkSize : Nat} {logicalSize : Option Nat}
    (hpos : 0 < chunkSize) (hpositive : ∀ size, logicalSize = some size → 0 < size)
    (hfirst : first ≤ count) (hstored : 0 < count → 0 < first) (hcount : count < u32Limit) :
    (∃ opened, (do
      let geometry ← Ewf2.segmentGeometry chunkSize (logicalSize.getD 0) first
      geometry.finish count) = .ok opened) ↔
      chunkSize ≤ maxChunkSize ∧
        count = logicalSize.elim first fun size => divCeil size chunkSize := by
  unfold Ewf2.segmentGeometry
  by_cases hmax : chunkSize ≤ maxChunkSize
  · have hfit : ∀ n ≤ count, chunkSize * n < u64Limit := by
      intro n hn
      calc chunkSize * n ≤ maxChunkSize * u32Limit := Nat.mul_le_mul hmax (by omega)
        _ < u64Limit := by decide
    rw [validateChunkSize_eq_ok.mpr ⟨hpos, hmax⟩, ok_bind]
    cases logicalSize with
    | none =>
      have hend := @finish_isOk_iff ⟨chunkSize, chunkSize * first⟩ count hpos
        (hfit count (Nat.le_refl _))
      rw [Option.getD_none, rejectIf_neg _ (by omega), ok_bind, if_pos rfl,
        checkedMul_of_lt (hfit first hfirst), okOr_some, ok_bind, pure_eq_ok, ok_bind, hend,
        divCeil_mul_left first hpos, Nat.mul_eq_zero, Option.elim_none]
      constructor
      · rintro ((hzero | hzero) | hsame)
        · omega
        · exact ⟨hmax, by omega⟩
        · exact ⟨hmax, hsame.symm⟩
      · rintro ⟨-, hsame⟩
        exact .inr hsame.symm
    | some size =>
      have hsize := hpositive size rfl
      have hasked := divCeil_pos hpos hsize
      rw [Option.getD_some, Option.elim_some]
      by_cases hnone : first = 0
      · rw [rejectIf_pos _ ⟨hnone, hsize⟩]
        refine iff_of_false ?_ ?_
        · rintro ⟨opened, hopened⟩
          cases hopened
        · rintro ⟨-, hsame⟩
          omega
      · have hend := @finish_isOk_iff ⟨chunkSize, size⟩ count hpos (hfit count (Nat.le_refl _))
        rw [rejectIf_neg _ (by omega), ok_bind, if_neg (by omega), ok_bind, pure_eq_ok, ok_bind,
          hend]
        constructor
        · rintro (hzero | hsame)
          · exact absurd hzero (Nat.ne_of_gt hsize)
          · exact ⟨hmax, hsame.symm⟩
        · rintro ⟨-, hsame⟩
          exact .inr hsame.symm
  · refine iff_of_false ?_ fun h => hmax h.1
    rintro ⟨opened, hopened⟩
    simp only [bind_eq_ok] at hopened
    obtain ⟨_, ⟨_, hvalid, _⟩, _⟩ := hopened
    exact hmax (validateChunkSize_eq_ok.mp hvalid).2

variable {deviceInformation caseData : List Char} {device : Option Nat × Option Nat}
  {declared : Ewf2.DeviceInformation}

/-- The tables of EWF2, when the device information declares these sizes and the case data these
numbers. -/
theorem openGeometry_isOk_iff (hdeclared : Ewf2.DeviceInformation.parse caseData = declared)
    (hdevice : (Ewf2.DeviceInformation.parse deviceInformation).geometry = .ok device)
    (hpositive : ∀ size, device.1 = some size ∨ device.2 = some size → 0 < size)
    (hfirst : first ≤ count) (hstored : 0 < count → 0 < first) (hcount : count < u32Limit) :
    (∃ opened, (do
      let geometry ← Ewf2.openGeometry deviceInformation caseData first
      geometry.finish count) = .ok opened) ↔
      declared.Fits ∧ (device.1.or declared.chunkSize).getD 32768 ≤ maxChunkSize ∧
        count = (device.2.or declared.logicalSize).elim first
          fun size => divCeil size ((device.1.or declared.chunkSize).getD 32768) := by
  have hchunkSize : 0 < (device.1.or declared.chunkSize).getD 32768 := by
    cases hsize : device.1.or declared.chunkSize with
    | none => decide
    | some size =>
      rcases Option.or_eq_some_iff.mp hsize with hsome | ⟨-, hsome⟩
      · exact hpositive size (.inl hsome)
      · exact Ewf2.positive_of_product hsome
  have hlogicalSize : ∀ size, device.2.or declared.logicalSize = some size → 0 < size := by
    intro size hsize
    rcases Option.or_eq_some_iff.mp hsize with hsome | ⟨-, hsome⟩
    · exact hpositive size (.inr hsome)
    · exact Ewf2.positive_of_product hsome
  unfold Ewf2.openGeometry
  rw [hdevice, ok_bind, hdeclared]
  by_cases hfits : declared.Fits
  · rw [Ewf2.DeviceInformation.geometry_eq_ok.mpr ⟨hfits, rfl⟩, ok_bind,
      segmentGeometry_isOk_iff hchunkSize hlogicalSize hfirst hstored hcount, and_iff_right hfits]
  · refine iff_of_false ?_ fun h => hfits h.1
    rintro ⟨opened, hopened⟩
    simp only [bind_eq_ok] at hopened
    obtain ⟨_, ⟨_, hgeometry, _⟩, _⟩ := hopened
    exact hfits (Ewf2.DeviceInformation.geometry_eq_ok.mp hgeometry).1

end Tables

/-! ## What was written -/

section Groups

variable {codec : Codec} {ewf1 : Ewf1PayloadEncoders} {ewf2 : Ewf2PayloadEncoders}
  {options : WriteOptions} {sectorCount totalChunkCount : Nat} {chunks : List ChunkDescriptor}
  {maximumSegmentSize : Option Nat} {groups : List ChunkRange}

/-- Without a maximum there is one segment. -/
theorem segmentGroups_none : segmentGroups codec ewf1 ewf2 options sectorCount totalChunkCount
    chunks none = .ok [⟨0, chunks.length⟩] := rfl

/-- The first segment holds a chunk if there is one. -/
theorem firstSegmentChunks_of_groups
    (h : segmentGroups codec ewf1 ewf2 options sectorCount totalChunkCount chunks
      maximumSegmentSize = .ok groups) :
    firstSegmentChunks groups ≤ chunks.length ∧
      (0 < chunks.length → 0 < firstSegmentChunks groups) := by
  cases maximumSegmentSize with
  | none =>
    cases h
    exact ⟨Nat.le_refl _, fun hpos => hpos⟩
  | some maximum =>
    obtain ⟨htiles, hempty, -⟩ := segmentGroups_closed h
    by_cases hne : chunks = []
    · rw [hempty hne, hne]
      exact ⟨Nat.le_refl _, fun hpos => hpos⟩
    · have hchunks := htiles hne
      cases groups with
      | nil =>
        have hzero : 0 = chunks.length := hchunks
        exact absurd (List.length_eq_zero_iff.mp hzero.symm) hne
      | cons range groups =>
        have hbounds := hchunks.bounds List.mem_cons_self
        obtain ⟨hstart, hpos, -⟩ := hchunks
        have hfirst : firstSegmentChunks (range :: groups) = range.count := rfl
        rw [hfirst]
        exact ⟨by omega, fun _ => hpos⟩

end Groups

section Opening

variable {w : EwfWriter} {prepared : PreparedWrite}

/-- The geometry of the prepared image. -/
def PreparedWrite.geometry (prepared : PreparedWrite) : OpenedGeometry where
  chunkSize := prepared.chunkSize
  logicalSize := prepared.logicalSize

theorem PreparesGeometry.no_chunks (h : PreparesGeometry w prepared)
    (hempty : prepared.logicalSize = 0) : prepared.chunkCount = 0 := by
  rw [h.chunkCount, hempty]
  simp [divCeil]

theorem chunkSize_lt_u64Limit (spc bps : UInt32) : spc.toNat * bps.toNat < u64Limit := by
  have hspc := spc.toNat_lt
  have hbps := bps.toNat_lt
  calc spc.toNat * bps.toNat ≤ (2 ^ 32 - 1) * (2 ^ 32 - 1) := Nat.mul_le_mul (by omega) (by omega)
    _ < u64Limit := by decide

theorem PreparesGeometry.sectorCount_lt (h : PreparesGeometry w prepared)
    (hbps : 0 < w.options.bytesPerSector.toNat) : prepared.sectorCount < u64Limit := by
  have hle := Nat.le_mul_of_pos_right prepared.sectorCount hbps
  have hlt := h.logicalSize_lt
  rw [h.sectors] at hle
  omega

/-- Only the chunk size is validated in a volume section that was written. -/
theorem openGeometry_volume (h : PreparesGeometry w prepared) {payload : Bytes}
    (hpayload : volumeData prepared.options (UInt32.ofNat prepared.chunkCount)
      prepared.sectorCount = .ok payload) (hbps : 0 < w.options.bytesPerSector.toNat) :
    Ewf1.openGeometry payload =
      (validateChunkSize prepared.chunkSize).map fun _ => prepared.geometry := by
  have hsectors := h.sectorCount_lt hbps
  have hsize : prepared.options.sectorsPerChunk.toNat * prepared.options.bytesPerSector.toNat =
      prepared.chunkSize := by
    rw [h.sectorsPerChunk, h.bytesPerSector, h.chunkSize]
  have hlogical : prepared.sectorCount * prepared.options.bytesPerSector.toNat =
      prepared.logicalSize := by
    rw [h.bytesPerSector, h.sectors]
  have hchunkSize := checkedMul_of_lt
    (chunkSize_lt_u64Limit prepared.options.sectorsPerChunk prepared.options.bytesPerSector)
  have hlogicalSize := checkedMul_of_lt (a := prepared.sectorCount)
    (b := prepared.options.bytesPerSector.toNat) (by rw [hlogical]; exact h.logicalSize_lt)
  unfold Ewf1.openGeometry
  rw [parse_volumeData hsectors hpayload, ok_bind]
  simp only [Volume.chunkSize, Volume.logicalSize, hchunkSize, hlogicalSize, okOr_some, ok_bind,
    hsize, hlogical]
  cases validateChunkSize prepared.chunkSize with
  | error e => rfl
  | ok _ =>
    rw [ok_bind]
    by_cases hempty : prepared.logicalSize = 0
    · have hcount := h.no_chunks hempty
      rw [if_neg (by omega), hcount]
      simp [checkedMul, u64Limit, okOr, Except.map, PreparedWrite.geometry, hempty]
    · rw [if_pos (by omega), ok_bind]
      rfl

theorem PreparesGeometry.chunkBytes (h : PreparesGeometry w prepared) :
    prepared.options.chunkBytes = prepared.chunkSize := by
  rw [WriteOptions.chunkBytes, h.sectorsPerChunk, h.bytesPerSector, h.chunkSize]

theorem PreparesGeometry.chunkSize_pos (h : PreparesGeometry w prepared) (hfit : Fitted w) :
    0 < prepared.chunkSize := by
  rw [h.chunkSize]
  exact Nat.mul_pos hfit.sectorsPerChunk hfit.bytesPerSector

/-- A catalog is written with the size in its record, or it is not written. -/
theorem writeCatalog_eq_ok {format : WriteFormat} {singleFiles : Option SingleFilesInfo}
    {catalog : Option (List (List Char))} (h : writeCatalog format singleFiles = .ok catalog) :
    (catalog = none ∧ (format = .ewf1Logical → singleFiles = none)) ∨
      ∃ info size lines, singleFiles = some info ∧ format = .ewf1Logical ∧
        singleFilesRecordDataSize info = .ok size ∧ catalog = some lines ∧
        Ewf1.catalogDataSize lines = .ok size := by
  unfold writeCatalog at h
  cases singleFiles with
  | none =>
    cases h
    exact .inl ⟨rfl, fun _ => rfl⟩
  | some info =>
    by_cases hlogical : format = .ewf1Logical
    · dsimp only at h
      rw [if_pos hlogical] at h
      cases hrecord : catalogRecord info with
      | error e =>
        rw [hrecord] at h
        cases h
      | ok lines =>
        rw [hrecord] at h
        cases h
        obtain ⟨size, hsize, hdata⟩ := catalogDataSize_of_record hrecord
        exact .inr ⟨info, size, lines, rfl, hlogical, hsize, rfl, hdata⟩
    · dsimp only at h
      rw [if_neg hlogical] at h
      cases h
      exact .inl ⟨rfl, fun hformat => absurd hformat hlogical⟩

/-- The volume section, and the catalog if there is one. -/
theorem opened_volume_iff (h : PreparesGeometry w prepared) (hfit : Fitted w) {payload : Bytes}
    {catalog : Option (List (List Char))} {singleFiles : Option SingleFilesInfo}
    (hpayload : volumeData prepared.options (UInt32.ofNat prepared.chunkCount)
      prepared.sectorCount = .ok payload)
    (hcatalog : writeCatalog prepared.options.format singleFiles = .ok catalog)
    (groups : List ChunkRange) :
    (∃ opened, (WrittenGeometry.volume payload catalog).opened groups prepared.chunkCount =
      .ok opened) ↔ prepared.Ewf1Accepted singleFiles := by
  have hpos := h.chunkSize_pos hfit
  have hread := openGeometry_volume h hpayload hfit.bytesPerSector
  unfold WrittenGeometry.opened
  by_cases hmax : prepared.chunkSize ≤ maxChunkSize
  · have hsmall : prepared.options.chunkBytes ≤ maxChunkSize := by
      rw [h.chunkBytes]
      exact hmax
    rw [validateChunkSize_eq_ok.mpr ⟨hpos, hmax⟩] at hread
    rcases writeCatalog_eq_ok hcatalog with
      ⟨rfl, hnone⟩ | ⟨info, size, lines, rfl, hlogical, hsize, rfl, hdata⟩
    · simp only [WrittenGeometry.read, hread, Except.map, ok_bind]
      refine iff_of_true ⟨_, finish_eq_ok hpos h.chunkCount.symm⟩ ⟨hsmall, ?_⟩
      intro hformat info size hinfo
      rw [hnone hformat] at hinfo
      cases hinfo
    · have hfits : prepared.chunkSize * prepared.chunkCount < u64Limit := by
        calc prepared.chunkSize * prepared.chunkCount ≤ maxChunkSize * u32Limit :=
            Nat.mul_le_mul hmax (Nat.le_of_lt h.chunkCount_lt)
          _ < u64Limit := by decide
      have hend := @finish_isOk_iff (prepared.geometry.withDataSize size) prepared.chunkCount
        hpos hfits
      simp only [WrittenGeometry.read, hread, Except.map, ok_bind, hdata, pure_eq_ok]
      rw [hend]
      constructor
      · intro hasked
        refine ⟨hsmall, ?_⟩
        rintro - other otherSize ⟨⟩ hother
        rw [hsize] at hother
        cases hother
        rw [h.chunkBytes]
        exact hasked
      · intro haccepted
        have hasked := haccepted.record hlogical info size rfl hsize
        rw [h.chunkBytes] at hasked
        exact hasked
  · refine iff_of_false ?_ fun haccepted => hmax (h.chunkBytes ▸ haccepted.chunkBytes)
    rintro ⟨opened, hopened⟩
    have hrefused : ∀ geometry, Ewf1.openGeometry payload ≠ .ok geometry := by
      intro geometry hgeometry
      rw [hread] at hgeometry
      cases hvalid : validateChunkSize prepared.chunkSize with
      | error e =>
        rw [hvalid] at hgeometry
        cases hgeometry
      | ok _ => exact hmax (validateChunkSize_eq_ok.mp hvalid).2
    obtain ⟨geometry, hgeometry, -⟩ := bind_eq_ok.mp hopened
    cases catalog with
    | none => exact hrefused geometry hgeometry
    | some lines =>
      obtain ⟨volume, hvolume, -⟩ := bind_eq_ok.mp hgeometry
      exact hrefused volume hvolume

/-- A media type that is no tab and no line feed. -/
theorem deviceMediaType_kept {options : WriteOptions}
    (h : ¬ options.mediaProfile.BreaksColumns) :
    deviceMediaType options ≠ '\t' ∧ deviceMediaType options ≠ '\n' := by
  have hcode : ∀ value : UInt8, (Char.ofNat value.toNat).toNat = value.toNat := by
    intro value
    have hlt := value.toNat_lt
    have hvalid : value.toNat.isValidChar := .inl (by omega)
    rw [Char.ofNat, dif_pos hvalid]
    rfl
  unfold WriteMediaProfile.BreaksColumns at h
  unfold deviceMediaType
  cases htype : options.mediaProfile.mediaType with
  | none => decide
  | some mediaType =>
    rw [htype] at h
    cases mediaType with
    | unknown value =>
      refine ⟨fun heq => h (.inl ?_), fun heq => h (.inr ?_)⟩
      · have hvalue : value = 9 :=
          UInt8.toNat_inj.mp ((hcode value).symm.trans (congrArg Char.toNat heq))
        rw [hvalue]
      · have hvalue : value = 10 :=
          UInt8.toNat_inj.mp ((hcode value).symm.trans (congrArg Char.toNat heq))
        rw [hvalue]
    | removable | fixed | optical | singleFiles | memory => decide

theorem deviceMediaType_broken {options : WriteOptions}
    (h : options.mediaProfile.BreaksColumns) :
    deviceMediaType options = '\t' ∨ deviceMediaType options = '\n' := by
  unfold deviceMediaType
  rcases h with h | h
  · rw [h]
    exact .inl (by decide)
  · rw [h]
    exact .inr (by decide)

/-- The sizes that the device information declares. -/
theorem geometry_deviceInformation (h : PreparesGeometry w prepared) (hfit : Fitted w)
    (metadata : HeaderMetadata) (hmedia : ¬ prepared.options.mediaProfile.BreaksColumns) :
    (Ewf2.DeviceInformation.parse (ewf2DeviceInformation prepared.options metadata
      prepared.sectorCount prepared.chunkCount)).geometry =
      .ok (some prepared.chunkSize,
        if prepared.logicalSize = 0 then none else some prepared.logicalSize) := by
  have hbps : 0 < prepared.options.bytesPerSector.toNat := by
    rw [h.bytesPerSector]
    exact hfit.bytesPerSector
  have hspc : 0 < prepared.options.sectorsPerChunk.toNat := by
    rw [h.sectorsPerChunk]
    exact hfit.sectorsPerChunk
  have hsize : prepared.options.bytesPerSector.toNat * prepared.options.sectorsPerChunk.toNat =
      prepared.chunkSize := by
    rw [h.sectorsPerChunk, h.bytesPerSector, h.chunkSize, Nat.mul_comm]
  have hlogical : prepared.options.bytesPerSector.toNat * prepared.sectorCount =
      prepared.logicalSize := by
    rw [h.bytesPerSector, Nat.mul_comm, h.sectors]
  have hchunks : prepared.chunkCount < u64Limit := Nat.lt_trans h.chunkCount_lt (by decide)
  have hzero : 0 < u64Limit := by decide
  rw [parse_deviceInformation (deviceMediaType_kept hmedia)
    (h.sectorCount_lt hfit.bytesPerSector) hchunks, Ewf2.DeviceInformation.geometry_eq_ok]
  generalize hinfo : ({
    bytesPerSector := some prepared.options.bytesPerSector.toNat
    sectorsPerChunk := some prepared.options.sectorsPerChunk.toNat
    totalSectors := some prepared.sectorCount
    chunkCount := some prepared.chunkCount } : Ewf2.DeviceInformation) = info
  have hchunkSize : info.chunkSize = some prepared.chunkSize := by
    rw [← hinfo, ← hsize]
    exact if_pos ⟨hbps, hspc⟩
  have hchunkSize_lt : prepared.chunkSize < u64Limit := by
    rw [← hsize]
    exact chunkSize_lt_u64Limit _ _
  have hlogicalSize : info.logicalSize =
      if prepared.logicalSize = 0 then none else some prepared.logicalSize := by
    unfold Ewf2.DeviceInformation.logicalSize Ewf2.DeviceInformation.sectorCount
    rw [← hinfo]
    by_cases hempty : prepared.sectorCount = 0
    · have hnothing : prepared.logicalSize = 0 := by rw [← hlogical, hempty, Nat.mul_zero]
      rw [if_pos hnothing, hempty, h.no_chunks hnothing]
      simp [Ewf2.product]
    · have hsome : prepared.logicalSize ≠ 0 := by
        rw [← hlogical]
        exact Nat.ne_of_gt (Nat.mul_pos hbps (by omega))
      have hfilter : (some prepared.sectorCount).filter (0 < ·) = some prepared.sectorCount := by
        simp only [Option.filter_some, decide_eq_true_eq]
        exact if_pos (by omega)
      rw [if_neg hsome, hfilter, Option.some_or, ← hlogical]
      exact if_pos ⟨hbps, by omega⟩
  refine ⟨⟨?_, ?_, ?_⟩, ?_⟩
  · rw [hchunkSize]
    exact hchunkSize_lt
  · rw [← hinfo]
    intro hnone
    have hempty : prepared.sectorCount = 0 := by
      have hall := Option.filter_eq_none_iff.mp hnone prepared.sectorCount rfl
      simp only [decide_eq_true_eq] at hall
      omega
    have hnothing : prepared.logicalSize = 0 := by rw [← hlogical, hempty, Nat.mul_zero]
    rw [Ewf2.getD_product, h.no_chunks hnothing, Nat.mul_zero]
    exact hzero
  · rw [hlogicalSize]
    by_cases hempty : prepared.logicalSize = 0
    · rw [if_pos hempty]
      exact hzero
    · rw [if_neg hempty]
      exact h.logicalSize_lt
  · rw [hchunkSize, hlogicalSize]

/-- The two tables. -/
theorem opened_tables_iff (h : PreparesGeometry w prepared) (hfit : Fitted w)
    (metadata : HeaderMetadata) {groups : List ChunkRange}
    (hfirst : firstSegmentChunks groups ≤ prepared.chunkCount)
    (hstored : 0 < prepared.chunkCount → 0 < firstSegmentChunks groups) :
    (∃ opened, (WrittenGeometry.tables
        (ewf2DeviceInformation prepared.options metadata prepared.sectorCount prepared.chunkCount)
        (ewf2CaseData prepared.options metadata prepared.chunkCount)).opened groups
          prepared.chunkCount = .ok opened) ↔
      prepared.Ewf2Accepted
        (.parse (ewf2CaseData prepared.options metadata prepared.chunkCount)) groups := by
  have hpos := h.chunkSize_pos hfit
  have hempty : prepared.sectorCount = 0 ↔ prepared.logicalSize = 0 := by
    rw [← h.sectors, Nat.mul_eq_zero]
    exact ⟨.inl, fun hzero => hzero.resolve_right (Nat.ne_of_gt hfit.bytesPerSector)⟩
  generalize hdeclared :
    Ewf2.DeviceInformation.parse (ewf2CaseData prepared.options metadata prepared.chunkCount) =
      declared
  unfold WrittenGeometry.opened WrittenGeometry.read
  by_cases hbroken : prepared.options.mediaProfile.BreaksColumns
  · have hdevice := @geometry_deviceInformation_shifted prepared.options metadata
      prepared.sectorCount prepared.chunkCount (deviceMediaType_broken hbroken)
      (h.sectorCount_lt hfit.bytesPerSector)
    have hiff := openGeometry_isOk_iff hdeclared hdevice (by simp) hfirst hstored h.chunkCount_lt
    rw [Option.none_or, Option.none_or] at hiff
    rw [hiff]
    constructor
    · rintro ⟨hfits, hmax, hcount⟩
      exact ⟨hfits, fun hkept => absurd hbroken hkept, fun _ => ⟨hmax, hcount⟩⟩
    · intro haccepted
      exact ⟨haccepted.fits, haccepted.broken hbroken⟩
  · have hdevice := geometry_deviceInformation h hfit metadata hbroken
    have hpositive : ∀ size, some prepared.chunkSize = some size ∨
        (if prepared.logicalSize = 0 then none else some prepared.logicalSize) = some size →
          0 < size := by
      rintro size (hsize | hsize)
      · cases hsize
        exact hpos
      · by_cases hzero : prepared.logicalSize = 0
        · rw [if_pos hzero] at hsize
          cases hsize
        · rw [if_neg hzero] at hsize
          cases hsize
          omega
    have hiff := openGeometry_isOk_iff hdeclared hdevice hpositive hfirst hstored h.chunkCount_lt
    rw [Option.some_or, Option.getD_some] at hiff
    rw [hiff, ← h.chunkBytes]
    by_cases hzero : prepared.logicalSize = 0
    · have hcount := h.no_chunks hzero
      rw [if_pos hzero, Option.none_or]
      constructor
      · rintro ⟨hfits, hmax, hasked⟩
        refine ⟨hfits, fun _ => ⟨hmax, fun _ => ?_⟩, fun hmedia => absurd hmedia hbroken⟩
        cases hsize : declared.logicalSize with
        | none => rfl
        | some size =>
          rw [hsize, Option.elim_some, hcount] at hasked
          have hsome := divCeil_pos (h.chunkBytes ▸ hpos) (Ewf2.positive_of_product hsize)
          omega
      · intro haccepted
        obtain ⟨hmax, hnone⟩ := haccepted.kept hbroken
        refine ⟨haccepted.fits, hmax, ?_⟩
        rw [hnone (hempty.mpr hzero), Option.elim_none]
        omega
    · rw [if_neg hzero, Option.some_or, Option.elim_some]
      constructor
      · rintro ⟨hfits, hmax, -⟩
        exact ⟨hfits, fun _ => ⟨hmax, fun hnone => absurd (hempty.mp hnone) hzero⟩,
          fun hmedia => absurd hmedia hbroken⟩
      · intro haccepted
        refine ⟨haccepted.fits, (haccepted.kept hbroken).1, ?_⟩
        rw [h.chunkBytes]
        exact h.chunkCount

/-- A volume section without a catalog is read as the geometry of the image. -/
theorem opened_volume_eq (h : PreparesGeometry w prepared) (hfit : Fitted w) {payload : Bytes}
    (hpayload : volumeData prepared.options (UInt32.ofNat prepared.chunkCount)
      prepared.sectorCount = .ok payload)
    (hmax : prepared.options.chunkBytes ≤ maxChunkSize) (groups : List ChunkRange) :
    (WrittenGeometry.volume payload none).opened groups prepared.chunkCount =
      .ok prepared.geometry := by
  have hpos := h.chunkSize_pos hfit
  have hread := openGeometry_volume h hpayload hfit.bytesPerSector
  rw [h.chunkBytes] at hmax
  rw [validateChunkSize_eq_ok.mpr ⟨hpos, hmax⟩] at hread
  have hfinish := @finish_eq_ok prepared.geometry prepared.chunkCount hpos h.chunkCount.symm
  unfold WrittenGeometry.opened
  simp only [WrittenGeometry.read, hread, Except.map, ok_bind, hfinish]

/-- Tables with whole columns are read as the geometry of the image. -/
theorem opened_tables_eq (h : PreparesGeometry w prepared) (hfit : Fitted w)
    (metadata : HeaderMetadata) {groups : List ChunkRange}
    (hfirst : firstSegmentChunks groups ≤ prepared.chunkCount)
    (hstored : 0 < prepared.chunkCount → 0 < firstSegmentChunks groups)
    (hkept : ¬ prepared.options.mediaProfile.BreaksColumns)
    (haccepted : prepared.Ewf2Accepted
      (.parse (ewf2CaseData prepared.options metadata prepared.chunkCount)) groups) :
    (WrittenGeometry.tables
        (ewf2DeviceInformation prepared.options metadata prepared.sectorCount prepared.chunkCount)
        (ewf2CaseData prepared.options metadata prepared.chunkCount)).opened groups
          prepared.chunkCount = .ok prepared.geometry := by
  have hpos := h.chunkSize_pos hfit
  obtain ⟨hmax, hnone⟩ := haccepted.kept hkept
  rw [h.chunkBytes] at hmax
  have hdevice := geometry_deviceInformation h hfit metadata hkept
  have hdeclared := Ewf2.DeviceInformation.geometry_eq_ok.mpr ⟨haccepted.fits, rfl⟩
  have hgeometry : prepared.geometry = ⟨prepared.chunkSize, prepared.logicalSize⟩ := rfl
  have hfinish := @finish_eq_ok prepared.geometry prepared.chunkCount hpos h.chunkCount.symm
  unfold WrittenGeometry.opened WrittenGeometry.read Ewf2.openGeometry Ewf2.segmentGeometry
  simp only [hdevice, hdeclared, ok_bind, Option.some_or, Option.getD_some,
    validateChunkSize_eq_ok.mpr ⟨hpos, hmax⟩]
  by_cases hzero : prepared.logicalSize = 0
  · have hempty : prepared.sectorCount = 0 := by
      have hsectors := h.sectors
      rw [hzero, Nat.mul_eq_zero] at hsectors
      exact hsectors.resolve_right (Nat.ne_of_gt hfit.bytesPerSector)
    have hcount := h.no_chunks hzero
    have hnothing : checkedMul prepared.chunkSize 0 = some 0 := rfl
    rw [hcount] at hfirst
    rw [if_pos hzero, hnone hempty, Option.or_none, Option.getD_none, rejectIf_neg _ (by omega),
      ok_bind, if_pos rfl, Nat.le_zero.mp hfirst, hnothing, okOr_some, ok_bind, pure_eq_ok, ok_bind]
    rw [hgeometry, hzero] at hfinish ⊢
    exact hfinish
  · have hcount : 0 < prepared.chunkCount := by
      rw [h.chunkCount]
      exact divCeil_pos hpos (by omega)
    have hstarted := hstored hcount
    rw [if_neg hzero, Option.some_or, Option.getD_some, rejectIf_neg _ (by omega), ok_bind,
      if_neg hzero, ok_bind, pure_eq_ok, ok_bind]
    exact hfinish

end Opening

/-- Whatever was set, copied and written before, and whatever is in the metadata: a finished image
is opened for its geometry exactly under the condition. -/
theorem finished_geometry_opens_iff {codec : Codec} {digests : Digests}
    {ewf1 : Ewf1PayloadEncoders} {ewf2 : Ewf2PayloadEncoders} {options : WriteOptions}
    {w w' : EwfWriter} {ops : List WriterOp} {prepared : PreparedWrite} {groups : List ChunkRange}
    {written : WrittenGeometry} (metadata : HeaderMetadata) (singleFiles : Option SingleFilesInfo)
    (hcreate : EwfWriter.create options = .ok w) (hrun : Run (WriterStep codec) w ops w')
    (hp : w'.prepareWrite codec digests = .ok prepared)
    (hgroups : segmentGroups codec ewf1 ewf2 prepared.options prepared.sectorCount
      prepared.chunkCount prepared.spooled.chunks prepared.options.maximumSegmentSize = .ok groups)
    (hwritten : prepared.writeGeometry metadata singleFiles = .ok written) :
    (∃ opened, written.opened groups prepared.chunkCount = .ok opened) ↔
      prepared.GeometryAccepted metadata singleFiles groups := by
  have hfit : Fitted w' := (Fitted.of_create hcreate).run hrun
  have hprepares := hfit.prepareWrite hp
  obtain ⟨hfirst, hstored⟩ := firstSegmentChunks_of_groups hgroups
  rw [hprepares.chunks] at hfirst hstored
  unfold PreparedWrite.writeGeometry at hwritten
  unfold PreparedWrite.GeometryAccepted
  by_cases hewf2 : isEwf2Format prepared.options.format = true
  · rw [if_pos hewf2] at hwritten ⊢
    cases hwritten
    exact opened_tables_iff hprepares hfit metadata hfirst hstored
  · rw [if_neg hewf2] at hwritten ⊢
    simp only [bind_eq_ok, pure_eq_ok, Except.ok.injEq] at hwritten
    obtain ⟨payload, hpayload, catalog, hcatalog, rfl⟩ := hwritten
    exact opened_volume_iff hprepares hfit hpayload hcatalog groups

/-- Two sectors of a byte in a chunk, with header values that stand among the numbers. -/
def tableOptions : WriteOptions where
  format := .ewf2Physical
  sectorsPerChunk := 2
  bytesPerSector := 1

def tableMetadata : HeaderMetadata where
  caseNumber := some "1\t2"
  headerValues := [("bp", "512"), ("serial_number", "7")]

/-- One byte under such metadata is opened. -/
theorem finished_geometry_opens_iff_tables : ∃ (prepared : PreparedWrite)
    (written : WrittenGeometry) (groups : List ChunkRange) (opened : OpenedGeometry),
    prepared.writeGeometry tableMetadata none = .ok written ∧
      written.opened groups prepared.chunkCount = .ok opened := by
  have hsteps : (do
      let w ← EwfWriter.create tableOptions
      let w ← w.apply markerCodec (.writeAll [7])
      let prepared ← w.prepareWrite markerCodec noDigests
      let written ← prepared.writeGeometry tableMetadata none
      return (prepared.options.maximumSegmentSize, prepared.options.format,
        prepared.options.mediaProfile.mediaType, prepared.options.chunkBytes, prepared.sectorCount,
        Ewf2.DeviceInformation.parse
          (ewf2CaseData prepared.options tableMetadata prepared.chunkCount)) : Result _) =
      .ok (none, .ewf2Physical, none, 2, 1, ⟨some 512, some 2, none, some 1⟩) := by
    decide
  simp only [bind_eq_ok, pure_eq_ok, Except.ok.injEq, Prod.mk.injEq] at hsteps
  obtain ⟨w, hcreate, w', hwrite, prepared, hp, written, hwritten, hmaximum, hformat, hmedia,
    hchunk, hsectors, hdeclared⟩ := hsteps
  have hgroups : segmentGroups markerCodec bareEwf1 bareEwf2 prepared.options prepared.sectorCount
      prepared.chunkCount prepared.spooled.chunks prepared.options.maximumSegmentSize =
        .ok [⟨0, prepared.spooled.chunks.length⟩] := by
    rw [hmaximum]
    exact segmentGroups_none
  have haccepted : prepared.GeometryAccepted tableMetadata none
      [⟨0, prepared.spooled.chunks.length⟩] := by
    have hunbroken : ¬ prepared.options.mediaProfile.BreaksColumns := by
      simp [WriteMediaProfile.BreaksColumns, hmedia]
    have hewf2 : isEwf2Format prepared.options.format = true := by
      rw [hformat]
      rfl
    unfold PreparedWrite.GeometryAccepted
    rw [if_pos hewf2, hdeclared]
    refine ⟨⟨by decide, fun _ => by decide, by decide⟩, fun _ => ⟨?_, fun hzero => ?_⟩,
      fun hbroken => absurd hbroken hunbroken⟩
    · rw [hchunk]
      decide
    · rw [hsectors] at hzero
      cases hzero
  obtain ⟨opened, hopened⟩ := (finished_geometry_opens_iff tableMetadata none hcreate (.one hwrite)
    hp hgroups hwritten).mpr haccepted
  exact ⟨prepared, written, _, opened, hwritten, hopened⟩

/-- A header value under the name of a number: its product with the sectors of a chunk overflows,
and the image is refused. -/
example : ¬ (Ewf2.DeviceInformation.parse (ewf2CaseData tableOptions
    { headerValues := [("bp", "18446744073709551615")] } 1)).Fits := by
  have hparsed : Ewf2.DeviceInformation.parse (ewf2CaseData tableOptions
      { headerValues := [("bp", "18446744073709551615")] } 1) =
        ⟨some 18446744073709551615, some 2, none, some 1⟩ := by
    decide
  rw [hparsed]
  exact fun hfits => absurd hfits.chunkSize (by decide)

/-! ## A chunk of more than 128 MiB -/

/-- One sector more than fits into the largest chunk that the reader accepts. -/
def largeOptions : WriteOptions where
  sectorsPerChunk := 0x8000001
  bytesPerSector := 1

theorem largeOptions_written : ∃ w w' prepared payload,
    EwfWriter.create largeOptions = .ok w ∧
    Run (WriterStep markerCodec) w [.writeAll [7]] w' ∧
    w'.prepareWrite markerCodec noDigests = .ok prepared ∧
    volumeData prepared.options (UInt32.ofNat prepared.chunkCount) prepared.sectorCount =
      .ok payload ∧
    prepared.options.maximumSegmentSize = none ∧
    isEwf2Format prepared.options.format = false ∧
    maxChunkSize < prepared.options.chunkBytes := by
  have hpayload : (do
      let w ← EwfWriter.create largeOptions
      let w ← w.apply markerCodec (.writeAll [7])
      let prepared ← w.prepareWrite markerCodec noDigests
      let _ ← volumeData prepared.options (UInt32.ofNat prepared.chunkCount) prepared.sectorCount
      return (prepared.options.maximumSegmentSize, isEwf2Format prepared.options.format,
        decide (maxChunkSize < prepared.options.chunkBytes)) : Result _) =
      .ok (none, false, true) := by
    decide
  simp only [bind_eq_ok, pure_eq_ok, Except.ok.injEq, Prod.mk.injEq, decide_eq_true_eq] at hpayload
  obtain ⟨w, hcreate, w', hwrite, prepared, hp, payload, hvolume, hmaximum, hformat, hlarge⟩ :=
    hpayload
  exact ⟨w, w', prepared, payload, hcreate, .one hwrite, hp, hvolume, hmaximum, hformat, hlarge⟩

/-- Without the condition an image is finished that is not opened. -/
theorem not_finished_geometry_opens :
    ¬ ∀ (codec : Codec) (digests : Digests) (ewf1 : Ewf1PayloadEncoders)
      (ewf2 : Ewf2PayloadEncoders) (options : WriteOptions) (w w' : EwfWriter)
      (ops : List WriterOp) (prepared : PreparedWrite) (groups : List ChunkRange)
      (metadata : HeaderMetadata) (singleFiles : Option SingleFilesInfo)
      (written : WrittenGeometry),
      EwfWriter.create options = .ok w → Run (WriterStep codec) w ops w' →
      w'.prepareWrite codec digests = .ok prepared →
      segmentGroups codec ewf1 ewf2 prepared.options prepared.sectorCount prepared.chunkCount
        prepared.spooled.chunks prepared.options.maximumSegmentSize = .ok groups →
      prepared.writeGeometry metadata singleFiles = .ok written →
      ∃ opened, written.opened groups prepared.chunkCount = .ok opened := by
  intro hall
  obtain ⟨w, w', prepared, payload, hcreate, hrun, hp, hvolume, hmaximum, hformat, hlarge⟩ :=
    largeOptions_written
  have hgroups : segmentGroups markerCodec bareEwf1 bareEwf2 prepared.options prepared.sectorCount
      prepared.chunkCount prepared.spooled.chunks prepared.options.maximumSegmentSize =
        .ok [⟨0, prepared.spooled.chunks.length⟩] := by
    rw [hmaximum]
    exact segmentGroups_none
  have hwritten : prepared.writeGeometry {} none = .ok (.volume payload none) := by
    unfold PreparedWrite.writeGeometry
    rw [hformat, if_neg Bool.false_ne_true, hvolume]
    rfl
  have hfit : Fitted w' := (Fitted.of_create hcreate).run hrun
  have hcatalog : writeCatalog prepared.options.format none = .ok none := rfl
  have haccepted := (opened_volume_iff (hfit.prepareWrite hp) hfit hvolume hcatalog _).mp
    (hall _ _ _ _ _ w w' _ prepared _ {} none _ hcreate hrun hp hgroups hwritten)
  exact absurd haccepted.chunkBytes (Nat.not_le.mpr hlarge)

end EwfImage
