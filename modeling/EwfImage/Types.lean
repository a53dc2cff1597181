import Mathlib.Data.List.Basic

/-!
# Shared types

The enumerations and records of the image metadata that the modelled code reads.
Widths follow the source: a `u32` geometry field is a `UInt32`, a `u64` pattern a
`UInt64`. Sizes and offsets are natural numbers whose 64-bit range is checked
where the source checks it.

Options with a default have the default of the source. Fields that no modelled function reads
are left out, and so are the texts that the program only prints.
-/

namespace EwfImage

abbrev Bytes := List UInt8

inductive Format
  | ewf1
  | ewf2
  deriving DecidableEq, Repr

inductive FormatProfile
  | unknown
  | enCase1
  | enCase2
  | enCase3
  | enCase4
  | enCase5
  | enCase6
  | enCase7
  | smart
  | ftkImager
  | linen5
  | linen6
  | linen7
  | logicalEnCase5
  | logicalEnCase6
  | logicalEnCase7
  | ewf2EnCase7
  | ewf2LogicalEnCase7
  | ewf
  | ewfx
  deriving DecidableEq, Repr

/-- The chunk compression method an image declares. -/
inductive CompressionMethod
  | none
  | zlib
  | zstd
  | bzip2
  | unknown (value : UInt16)
  deriving DecidableEq, Repr

inductive CompressionLevel
  | default
  | none
  | fast
  | best
  | unknown (value : Int8)
  deriving DecidableEq

structure CompressionFlags where
  emptyBlock : Bool := false
  patternFill : Bool := false
  unknownBits : UInt8 := 0
  deriving DecidableEq

structure CompressionValues where
  level : CompressionLevel := .none
  flags : CompressionFlags := {}
  deriving DecidableEq

inductive MediaType
  | removable
  | fixed
  | optical
  | singleFiles
  | memory
  | unknown (value : UInt8)
  deriving DecidableEq, Repr

structure MediaFlags where
  physical : Bool := false
  fastbloc : Bool := false
  tableau : Bool := false
  deriving DecidableEq, Repr

/-- The sixteen bytes that identify a segment set. -/
abbrev SetIdentifier := { bytes : Bytes // bytes.length = 16 }

def SetIdentifier.zero : SetIdentifier := ⟨List.replicate 16 0, rfl⟩

/-- The media values of an opened image. -/
structure MediaInfo where
  sectorsPerChunk : Option Nat := none
  bytesPerSector : Option Nat := none
  setIdentifier : Option SetIdentifier := none
  mediaType : Option MediaType := none
  errorGranularity : Option Nat := none
  mediaFlags : MediaFlags := {}
  compressionMethod : Option CompressionMethod := none
  compressionValues : CompressionValues := {}

/-- Texts by identifier, in increasing order of the identifiers. -/
abbrev HashValues := List (String × String)

structure StoredHashes where
  md5 : Option Bytes := none
  sha1 : Option Bytes := none
  hashValues : HashValues := []
  deriving DecidableEq

structure SectorRange where
  firstSector : Nat
  sectorCount : Nat
  deriving DecidableEq, Repr

structure AcquisitionError where
  firstSector : Nat
  sectorCount : Nat
  deriving DecidableEq, Repr

structure MemoryExtent where
  startPage : Nat
  pageCount : Nat
  deriving DecidableEq, Repr

inductive DataChunkEncoding
  | raw
  | zlib
  | zstd
  | bzip2
  | patternFill (pattern : UInt64)
  deriving DecidableEq

/-- A decoded chunk handed to the writer. -/
structure DataChunk where
  logicalSize : Nat
  corrupted : Bool
  data : Bytes

/-- A stored chunk handed to the writer. -/
structure EncodedDataChunk where
  logicalSize : Nat
  encodedSize : Nat
  encoding : DataChunkEncoding
  hasChecksum : Bool
  data : Bytes

end EwfImage
