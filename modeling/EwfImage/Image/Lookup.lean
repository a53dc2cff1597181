import EwfImage.Image.Encoding
import EwfImage.Image.Sections

/-!
# Chunk lookup

A chunk is found through the entry of its table range. An EWF1 entry holds an offset
and a compressed bit; the stored size is the distance to the next chunk or to the end
of the data, and a set top bit is read as part of the offset when only that is
plausible.

Reading a table entry is a parameter of the look-up, so that it can be put through the cache of
pages or straight to the segment. An EWF2 entry has the place, the size and the flags of its
chunk, and an index for a chunk without bytes of its own.
-/

namespace EwfImage

open Fallible Ewf1 LittleEndian Slice Word

/-- `MAX_CHUNK_SIZE`; an image with larger chunks is not opened. -/
def maxChunkSize : Nat := 128 * 1024 * 1024

structure Chunk where
  segmentIndex : Nat
  offset : Nat
  encodedSize : Nat
  logicalSize : Nat
  encoding : ChunkEncoding
  validateChecksum : Bool
  deriving DecidableEq

structure Ewf1DecodedEntry where
  compressed : Bool
  offset : Nat
  deriving DecidableEq

def tableEntryOffset (range : TableRange) (localIndex entrySize : Nat) : Result Nat := do
  let relative ← okOr (.malformed "table entry offset overflow") (checkedMul localIndex entrySize)
  okOr (.malformed "table entry offset overflow") (checkedAdd range.entriesOffset relative)

def shouldUseFullWidthEwf1Offset (range : TableRange) (raw maskedOffset chunkSize : Nat)
    (nextRaw : Option Nat) (isFinal : Bool) : Result Bool :=
  if raw &&& compressedBit = 0 then .ok false
  else match range.dataEnd with
    | none => .ok false
    | some dataEnd => do
      let dataLen ← okOr (.malformed "EWF1 data region precedes base offset")
        (checkedSub dataEnd range.baseOffset)
      if dataLen ≤ 0x80000000 then return false
      else do
        let fullOffset ← okOr (.malformed "EWF1 chunk offset overflow")
          (checkedAdd range.baseOffset raw)
        if dataEnd ≤ fullOffset then return false
        else match nextRaw with
          | some nextRaw => do
            let nextMasked ← okOr (.malformed "EWF1 next chunk offset overflow")
              (checkedAdd range.baseOffset (nextRaw &&& 0x7fffffff))
            let maskedIsValid ← (if maskedOffset < nextMasked then
                (zlibCompressedChunkSizeCap chunkSize).map fun cap =>
                  decide (nextMasked - maskedOffset ≤ cap)
              else .ok false)
            if maskedIsValid then return false
            else do
              let nextFull ← (if nextRaw &&& compressedBit ≠ 0 then
                  okOr (.malformed "EWF1 next chunk offset overflow")
                    (checkedAdd range.baseOffset nextRaw)
                else .ok nextMasked)
              if fullOffset < nextFull then
                (rawChunkSizeCap chunkSize).map fun cap => decide (nextFull - fullOffset ≤ cap)
              else return false
          | none =>
            if isFinal then do
              let zlibCap ← zlibCompressedChunkSizeCap chunkSize
              if zlibCap < dataEnd - maskedOffset then
                (rawChunkSizeCap chunkSize).map fun cap => decide (dataEnd - fullOffset ≤ cap)
              else return false
            else return false

def decodeEwf1Entry (range : TableRange) (raw chunkSize : Nat) (nextRaw : Option Nat)
    (isFinal : Bool) : Result Ewf1DecodedEntry := do
  let entry := TableEntry.ofRaw raw
  let maskedOffset ← okOr (.malformed "EWF1 chunk offset overflow")
    (checkedAdd range.baseOffset entry.offset)
  let fullWidth ← shouldUseFullWidthEwf1Offset range raw maskedOffset chunkSize nextRaw isFinal
  if fullWidth then do
    let offset ← okOr (.malformed "EWF1 chunk offset overflow") (checkedAdd range.baseOffset raw)
    return { compressed := false, offset }
  else return { compressed := entry.compressed, offset := maskedOffset }

/-- The offset behind a chunk, from the entry behind it or from the end of the data. -/
def nextEwf1Offset (range : TableRange) (chunkSize localIndex : Nat) (nextRaw : Option Nat) :
    Result Nat :=
  match nextRaw with
  | some nextRaw => (decodeEwf1Entry range nextRaw chunkSize none
      (localIndex + 2 = range.chunkCount)).map (·.offset)
  | none => okOr (.malformed "EWF1 table range has no data end") range.dataEnd

/-- The chunk behind the table entry `raw`, when `nextRaw` is the entry behind it. -/
def ewf1Chunk (range : TableRange) (chunkSize localIndex logicalSize raw : Nat)
    (nextRaw : Option Nat) : Result Chunk := do
  let entry ← decodeEwf1Entry range raw chunkSize nextRaw (localIndex + 1 = range.chunkCount)
  let nextOffset ← nextEwf1Offset range chunkSize localIndex nextRaw
  rejectIf (nextOffset ≤ entry.offset) (.malformed "EWF1 chunk offsets are not ordered")
  let encodedSize := nextOffset - entry.offset
  let compressionMethod ← okOr (.malformed "EWF1 table range has no compression method")
    range.ewf1CompressionMethod
  let encoding ← ewf1ChunkEncoding entry.compressed encodedSize chunkSize compressionMethod
  validateEwf1EncodedSize encodedSize chunkSize encoding range.ewf1AllowLargeCompressedChunks
  return {
    segmentIndex := range.segmentIndex
    offset := entry.offset
    encodedSize
    logicalSize
    encoding
    validateChecksum := encoding = .raw ∧ logicalSize + 4 = encodedSize }

/-- `lookup_ewf1_chunk`; `readTable` reads the table bytes of a segment. -/
def lookupEwf1Chunk (readTable : Nat → Nat → Nat → Result Bytes) (range : TableRange)
    (chunkSize localIndex logicalSize : Nat) : Result Chunk := do
  let entryOffset ← tableEntryOffset range localIndex 4
  let raw ← readTable range.segmentIndex entryOffset 4
  let nextRaw ← (if localIndex + 1 < range.chunkCount then do
      let nextOffset ← tableEntryOffset range (localIndex + 1) 4
      let nextRaw ← readTable range.segmentIndex nextOffset 4
      return some (fromLE nextRaw)
    else .ok none)
  ewf1Chunk range chunkSize localIndex logicalSize (fromLE raw) nextRaw

/-! ## EWF2 -/

/-- The table entry of a chunk, with the kind under the method of its range. -/
def readEwf2TableEntry (readTable : Nat → Nat → Nat → Result Bytes) (range : TableRange)
    (localIndex : Nat) : Result Ewf2.TableEntry := do
  let entryOffset ← tableEntryOffset range localIndex Ewf2.tableEntrySize
  let entryData ← readTable range.segmentIndex entryOffset Ewf2.tableEntrySize
  let method ← okOr (.malformed "EWF2 range has no compression method") range.ewf2CompressionMethod
  Ewf2.TableEntry.parse entryData (.ofU16 method)

def lookupEwf2Chunk (readTable : Nat → Nat → Nat → Result Bytes) (range : TableRange)
    (chunkSize localIndex logicalSize : Nat) : Result Chunk := do
  let entry ← readEwf2TableEntry readTable range localIndex
  let encoding ← ewf2ChunkEncoding entry.kind entry.chunkDataOffset
  validateEncodedSize entry.chunkDataSize.toNat chunkSize encoding
  return {
    segmentIndex := range.segmentIndex
    offset := entry.chunkDataOffset.toNat
    encodedSize := entry.chunkDataSize.toNat
    logicalSize
    encoding
    validateChecksum := encoding = .raw ∧ entry.flags &&& Ewf2.chunkFlagHasChecksum ≠ 0 }

end EwfImage
