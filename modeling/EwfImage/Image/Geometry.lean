import EwfImage.Image.Index
import EwfImage.Image.Lookup
import EwfImage.Lib.Decimal
import EwfImage.Lib.Lines

/-!
# Media geometry

What a reader takes for the geometry of an image. EWF1 has it in the volume section; the catalog
of a logical image then replaces the size of the media by the one that its record declares. EWF2
has it in two tables of text, the device information and the case data: the device information
goes first, and the case data say what it leaves open. Both formats compute the chunk size as a
product and validate it in the same way. The texts are taken as they are once they are
decompressed and decoded from UTF-16; the segments behind the first repeat the tables, so their
geometry is the one of the first.
-/

namespace EwfImage

open Fallible LittleEndian Slice Text Word

/-- `validate_chunk_size`. -/
def validateChunkSize (chunkSize : Nat) : Result Unit := do
  rejectIf (chunkSize = 0) (.malformed "chunk size is zero")
  rejectIf (maxChunkSize < chunkSize)
    (.malformed s!"chunk size {chunkSize} exceeds maximum {maxChunkSize}")

theorem validateChunkSize_eq_ok {chunkSize : Nat} :
    validateChunkSize chunkSize = .ok () ↔ 0 < chunkSize ∧ chunkSize ≤ maxChunkSize := by
  simp only [validateChunkSize, bind_eq_ok, rejectIf_eq_ok]
  constructor
  · rintro ⟨_, hpos, hmax⟩
    omega
  · rintro ⟨hpos, hmax⟩
    exact ⟨(), by omega, by omega⟩

/-- The geometry under which an image is opened. -/
structure OpenedGeometry where
  chunkSize : Nat
  logicalSize : Nat
  deriving DecidableEq

/-- The size of a catalog stands for the one of the media. -/
def OpenedGeometry.withDataSize (geometry : OpenedGeometry) (dataSize : Nat) : OpenedGeometry :=
  { geometry with logicalSize := dataSize }

/-- The end of opening: an image without a declared size has the size of its chunks, and the
chunks are the ones that the tables cover. -/
def OpenedGeometry.finish (geometry : OpenedGeometry) (discoveredTableChunks : Nat) :
    Result OpenedGeometry := do
  let logicalSize ← (if geometry.logicalSize = 0 ∧ 0 < geometry.chunkSize then
      okOr (.malformed "logical size overflow")
        (checkedMul geometry.chunkSize discoveredTableChunks)
    else .ok geometry.logicalSize)
  let logicalChunks ← logicalChunkCount logicalSize geometry.chunkSize
  rejectIf (discoveredTableChunks ≠ logicalChunks) (.malformed
    s!"table coverage ends at chunk {discoveredTableChunks}, expected {logicalChunks}")
  return { geometry with logicalSize }

/-! ## EWF1 -/

namespace Ewf1

/-- The volume section, as far as the geometry goes. -/
structure Volume where
  chunkCount : Nat
  sectorsPerChunk : Nat
  bytesPerSector : Nat
  sectorCount : Nat
  deriving DecidableEq

def Volume.parse (buf : Bytes) : Result Volume := do
  rejectIf (buf.length < 24) (.bufferTooShort 24 buf.length)
  let smartVolume := buf.length = smartVolumeSize
  return {
    chunkCount := leAt buf 4 4
    sectorsPerChunk := leAt buf 8 4
    bytesPerSector := leAt buf 12 4
    sectorCount := if smartVolume then leAt buf 16 4 else leAt buf 16 8 }

def Volume.chunkSize (volume : Volume) : Result Nat :=
  okOr (.malformed "EWF1 chunk size overflow")
    (checkedMul volume.sectorsPerChunk volume.bytesPerSector)

def Volume.logicalSize (volume : Volume) : Result Nat :=
  okOr (.malformed "EWF1 logical size overflow")
    (checkedMul volume.sectorCount volume.bytesPerSector)

/-- The geometry that `parse_ewf1_segment` takes from the payload of the volume section. -/
def openGeometry (payload : Bytes) : Result OpenedGeometry := do
  let volume ← Volume.parse payload
  let chunkSize ← volume.chunkSize
  validateChunkSize chunkSize
  let declaredLogicalSize ← volume.logicalSize
  let logicalSize ← (if 0 < declaredLogicalSize then .ok declaredLogicalSize
    else okOr (.malformed "EWF1 logical size overflow") (checkedMul chunkSize volume.chunkCount))
  return { chunkSize, logicalSize }

/-! ### The record of a catalog -/

def getLine (lines : List (List Char)) (index : Nat) (label : String) : Result (List Char) :=
  okOr (.malformed s!"{label} is truncated") lines[index]?

def requireCategoryAt (lines : List (List Char)) (index : Nat) (name : List Char)
    (label : String) : Result Unit := do
  let line ← getLine lines index s!"EWF2 single files {label}"
  rejectIf (line ≠ name) (.malformed s!"EWF2 single files {label} is missing or out of order")

def parseTypeLine (line : List Char) (label : String) : Result (List (List Char)) := do
  let types := line.splitOn '\t'
  rejectIf (types.any (· = [])) (.malformed s!"{label} has empty type")
  return types

def requireEmptyCategoryTerminator (lines : List (List Char)) (cursor : Nat) (label : String) :
    Result Unit := do
  let line ← getLine lines cursor label
  rejectIf (line ≠ []) (.malformed s!"{label} is not empty")

def parseU64 (value : List Char) (label : String) : Result Nat :=
  okOr (.malformed s!"invalid EWF2 single files {label} value")
    (Decimal.parseUnsigned u64Limit value)

/-- The total size that the record category declares, and the line behind the category. -/
def parseRecordCategory (lines : List (List Char)) (categoryIndex : Nat) :
    Result (Option Nat × Nat) := do
  requireCategoryAt lines categoryIndex "rec".toList "record category"
  let typeLine ← getLine lines (categoryIndex + 1) "EWF2 record category types"
  let types ← parseTypeLine typeLine "EWF2 record category types"
  let valueLine ← getLine lines (categoryIndex + 2) "EWF2 record category values"
  let values := valueLine.splitOn '\t'
  requireEmptyCategoryTerminator lines (categoryIndex + 3)
    "EWF2 single files record category terminator"
  let value := (types.findIdx? (· = "tb".toList)).bind fun index =>
    values[index]?.filter (· ≠ [])
  match value with
  | none => return (none, categoryIndex + 4)
  | some value =>
    let size ← parseU64 value "record data size"
    return (some size, categoryIndex + 4)

/-- The `data_size` of `parse_ewf1_single_files_data`. -/
def catalogDataSize (lines : List (List Char)) : Result Nat := do
  rejectIf (lines.head? ≠ some "5".toList)
    (.malformed "EWF2 single files data has unsupported category count")
  let (size, _) ← parseRecordCategory lines 1
  okOr (.malformed "EWF1 ltree record has no total data size") size

end Ewf1

/-! ## EWF2 -/

namespace Ewf2

/-- `for_each_tabular_field`: the names in the third line with the values in the fourth. -/
def tabularFields (text : List Char) : List (List Char × List Char) :=
  match lines (replaceCrLf text) with
  | _ :: _ :: names :: values :: _ => (names.splitOn '\t').zip (values.splitOn '\t')
  | _ => []

/-- The numbers of a table that the geometry is computed from. -/
structure DeviceInformation where
  bytesPerSector : Option Nat := none
  sectorsPerChunk : Option Nat := none
  totalSectors : Option Nat := none
  chunkCount : Option Nat := none
  deriving DecidableEq

/-- The number of a field; the last field with a number in it counts. -/
def DeviceInformation.set (info : DeviceInformation) (name : List Char) (parsed : Nat) :
    DeviceInformation :=
  if name = "b".toList ∨ name = "bp".toList then { info with bytesPerSector := some parsed }
  else if name = "sc".toList ∨ name = "sb".toList then
    { info with sectorsPerChunk := some parsed }
  else if name = "ts".toList then { info with totalSectors := some parsed }
  else if name = "tb".toList then { info with chunkCount := some parsed }
  else info

/-- What `parse_ewf2_device_info` does with a field: the ones of the media type, the physical flag
and the write blocker are no numbers of the geometry. -/
def DeviceInformation.visit (info : DeviceInformation) (field : List Char × List Char) :
    DeviceInformation :=
  if field.1 = "dt".toList ∨ field.1 = "ph".toList ∨ field.1 = "wb".toList then info
  else (Decimal.parseUnsigned u64Limit field.2).elim info (info.set field.1)

def DeviceInformation.parse (text : List Char) : DeviceInformation :=
  (tabularFields text).foldl DeviceInformation.visit {}

def checkedGeometryMul (left right : Nat) (field : String) : Result Nat :=
  okOr (.malformed s!"EWF2 geometry {field} overflow") (checkedMul left right)

/-- The product of two numbers when both are there and positive. -/
def positiveProduct (left right : Option Nat) (field : String) : Result (Option Nat) :=
  match left, right with
  | some left, some right =>
    if 0 < left ∧ 0 < right then (checkedGeometryMul left right field).map some else .ok none
  | _, _ => .ok none

/-- The chunk size and the logical size of `parse_ewf2_device_info`. -/
def DeviceInformation.geometry (info : DeviceInformation) :
    Result (Option Nat × Option Nat) := do
  let chunkSize ← positiveProduct info.bytesPerSector info.sectorsPerChunk "chunk size"
  let sectorCount ← (match info.totalSectors.filter (0 < ·) with
    | some sectors => .ok (some sectors)
    | none => positiveProduct info.sectorsPerChunk info.chunkCount "sector count")
  let logicalSize ← positiveProduct info.bytesPerSector sectorCount "logical size"
  return (chunkSize, logicalSize)

/-- The end of `parse_ewf2_segment`, when the tables of the segment cover `tableChunks` chunks. -/
def segmentGeometry (chunkSize logicalSize tableChunks : Nat) : Result OpenedGeometry := do
  validateChunkSize chunkSize
  rejectIf (tableChunks = 0 ∧ 0 < logicalSize) (.malformed "EWF2 image has no sector table")
  let logicalSize ← (if logicalSize = 0 then
      okOr (.malformed "EWF2 logical size overflow") (checkedMul chunkSize tableChunks)
    else .ok logicalSize)
  return { chunkSize, logicalSize }

/-- The geometry that `parse_ewf2_segment` takes from the device information and the case data. -/
def openGeometry (deviceInformation caseData : List Char) (tableChunks : Nat) :
    Result OpenedGeometry := do
  let device ← (DeviceInformation.parse deviceInformation).geometry
  let declared ← (DeviceInformation.parse caseData).geometry
  -- a size that a table declares is positive
  segmentGeometry ((device.1.or declared.1).getD 32768) ((device.2.or declared.2).getD 0)
    tableChunks

/-! ### What a table declares -/

/-- The product of two numbers that are there and positive. -/
def product (left right : Option Nat) : Option Nat :=
  match left, right with
  | some left, some right => if 0 < left ∧ 0 < right then some (left * right) else none
  | _, _ => none

namespace DeviceInformation

variable (info : DeviceInformation)

def chunkSize : Option Nat := product info.bytesPerSector info.sectorsPerChunk

def sectorCount : Option Nat :=
  (info.totalSectors.filter (0 < ·)).or (product info.sectorsPerChunk info.chunkCount)

def logicalSize : Option Nat := product info.bytesPerSector info.sectorCount

/-- No product that is computed of the numbers overflows. -/
structure Fits : Prop where
  chunkSize : info.chunkSize.getD 0 < u64Limit
  sectorCount : info.totalSectors.filter (0 < ·) = none →
    (product info.sectorsPerChunk info.chunkCount).getD 0 < u64Limit
  logicalSize : info.logicalSize.getD 0 < u64Limit

end DeviceInformation

theorem positiveProduct_eq_ok {left right declared : Option Nat} {field : String} :
    positiveProduct left right field = .ok declared ↔
      (product left right).getD 0 < u64Limit ∧ declared = product left right := by
  have hzero : 0 < u64Limit := by decide
  cases left with
  | none => simp [positiveProduct, product, hzero, eq_comm]
  | some left =>
    cases right with
    | none => simp [positiveProduct, product, hzero, eq_comm]
    | some right =>
      by_cases hpos : 0 < left ∧ 0 < right
      · have hproduct : product (some left) (some right) = some (left * right) := if_pos hpos
        rw [hproduct, Option.getD_some, positiveProduct, if_pos hpos, checkedGeometryMul]
        by_cases hfit : left * right < u64Limit
        · rw [checkedMul_of_lt hfit]
          simp [Except.map, hfit, eq_comm]
        · simp [checkedMul, hfit, Except.map, okOr]
      · have hproduct : product (some left) (some right) = none := if_neg hpos
        rw [hproduct, positiveProduct, if_neg hpos]
        simp [hzero, eq_comm]

theorem getD_product (left right : Nat) :
    (product (some left) (some right)).getD 0 = left * right := by
  by_cases hpos : 0 < left ∧ 0 < right
  · have hproduct : product (some left) (some right) = some (left * right) := if_pos hpos
    rw [hproduct, Option.getD_some]
  · have hproduct : product (some left) (some right) = none := if_neg hpos
    have hzero : left = 0 ∨ right = 0 := by omega
    rw [hproduct, Option.getD_none]
    rcases hzero with rfl | rfl
    · rw [Nat.zero_mul]
    · rw [Nat.mul_zero]

theorem positive_of_product {left right : Option Nat} {size : Nat}
    (h : product left right = some size) : 0 < size := by
  unfold product at h
  split at h
  · rw [Option.ite_none_right_eq_some] at h
    obtain ⟨⟨hleft, hright⟩, hsize⟩ := h
    rw [← Option.some.inj hsize]
    exact Nat.mul_pos hleft hright
  · cases h

/-- A table has a geometry when its numbers fit, and it is what they declare. -/
theorem DeviceInformation.geometry_eq_ok {info : DeviceInformation}
    {geometry : Option Nat × Option Nat} :
    info.geometry = .ok geometry ↔ info.Fits ∧ geometry = (info.chunkSize, info.logicalSize) := by
  unfold DeviceInformation.geometry
  simp only [bind_eq_ok, pure_eq_ok, Except.ok.injEq, positiveProduct_eq_ok]
  cases htotal : info.totalSectors.filter (0 < ·) with
  | some sectors =>
    have hcount : info.sectorCount = some sectors := by
      unfold DeviceInformation.sectorCount
      rw [htotal]
      rfl
    simp only [Except.ok.injEq]
    constructor
    · rintro ⟨_, ⟨hchunk, rfl⟩, _, rfl, _, ⟨hlogical, rfl⟩, rfl⟩
      have heq : info.logicalSize = product info.bytesPerSector (some sectors) := by
        unfold DeviceInformation.logicalSize
        rw [hcount]
      refine ⟨⟨hchunk, fun hnone => ?_, by rw [heq]; exact hlogical⟩, by rw [heq]; rfl⟩
      rw [htotal] at hnone
      cases hnone
    · rintro ⟨hfits, rfl⟩
      have hlogical := hfits.logicalSize
      unfold DeviceInformation.logicalSize at hlogical ⊢
      rw [hcount] at hlogical ⊢
      exact ⟨_, ⟨hfits.chunkSize, rfl⟩, _, rfl, _, ⟨hlogical, rfl⟩, rfl⟩
  | none =>
    have hcount : info.sectorCount = product info.sectorsPerChunk info.chunkCount := by
      unfold DeviceInformation.sectorCount
      rw [htotal]
      rfl
    simp only [positiveProduct_eq_ok]
    constructor
    · rintro ⟨_, ⟨hchunk, rfl⟩, _, ⟨hsectors, rfl⟩, _, ⟨hlogical, rfl⟩, rfl⟩
      rw [← hcount] at hlogical
      refine ⟨⟨hchunk, fun _ => hsectors, hlogical⟩, ?_⟩
      rw [← hcount]
      rfl
    · rintro ⟨hfits, rfl⟩
      have hlogical := hfits.logicalSize
      unfold DeviceInformation.logicalSize at hlogical ⊢
      rw [hcount] at hlogical ⊢
      exact ⟨_, ⟨hfits.chunkSize, rfl⟩, _, ⟨hfits.sectorCount htotal, rfl⟩, _, ⟨hlogical, rfl⟩, rfl⟩

end Ewf2

end EwfImage
