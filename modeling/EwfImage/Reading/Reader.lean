import EwfImage.Image.Index
import EwfImage.Image.Lookup
import EwfImage.Lib.LruCache
import EwfImage.Lib.Triples

/-!
# Reading an image

An opened image is fixed; what reading changes is a cache of decoded chunks, a cache of
table pages, the chunks that are being decoded, the observed checksum errors and two
switches. Clones of an image share all of it, so an operation does not say which clone
it uses.

The functions are those of `image.rs`, each as a computation over the shared state. The lookups
and the decoding that they call are pure and are those of `Image.Lookup` and `Decode`. Both caches
are kept by a library, which is a parameter: `lru` is any library of caches with the laws of
`LruCache.Interface`. Statistics, the poisoning of locks and the prefetching of table pages are
left out.
-/

namespace EwfImage.Reading

open Fallible Ewf1 LittleEndian LruCache Slice Word

def tablePageSize : Nat := 4096

structure TablePageKey where
  segmentIndex : Nat
  pageOffset : Nat
  deriving DecidableEq

/-! ## Table pages -/

structure TablePageCache (lru : Interface) where
  pages : lru.Cache TablePageKey Bytes := lru.new none
  capacityBytes : Nat
  cachedBytes : Nat := 0
  peakBytes : Nat := 0

namespace TablePageCache

variable {lru : Interface}

def isDisabled (cache : TablePageCache lru) : Bool := cache.capacityBytes = 0

/-- The loop of `insert`: make room for `size` bytes; every turn drops a page. -/
def evict (size : Nat) : Nat → TablePageCache lru → TablePageCache lru
  | 0, cache => cache
  | fuel + 1, cache =>
    if cache.capacityBytes < saturatingAdd cache.cachedBytes size then
      match lru.popLru cache.pages with
      | (some (_, evicted), pages) =>
        evict size fuel { cache with pages, cachedBytes := cache.cachedBytes - evicted.length }
      | (none, _) => cache
    else cache

def insert (cache : TablePageCache lru) (key : TablePageKey) (bytes : Bytes) : TablePageCache lru :=
  if cache.capacityBytes = 0 ∨ cache.capacityBytes < bytes.length then cache
  else
    let (previous, pages) := lru.pop cache.pages key
    let cache := { cache with
      pages := pages
      cachedBytes := cache.cachedBytes - (previous.map List.length).getD 0 }
    let cache := cache.evict bytes.length ((lru.entries cache.pages).length + 1)
    let cachedBytes := saturatingAdd cache.cachedBytes bytes.length
    { cache with
      pages := lru.put cache.pages key bytes
      cachedBytes
      peakBytes := max cache.peakBytes cachedBytes }

end TablePageCache

/-! ## Images -/

/-- The key stream of an encrypted segment, applied at a stream offset. -/
abbrev EncryptionContext := Nat → Bytes → Result Bytes

/-- What opening an image fixes: the geometry, the index of the chunks and the segments with their
bytes. The last two fields are what opening has checked. -/
structure Image where
  format : Format
  formatProfile : FormatProfile
  logicalSize : Nat
  chunkSize : Nat
  bytesPerSector : Option Nat
  index : LazyChunkIndex
  segments : List SegmentFile
  /-- Whether the image has encryption information. -/
  encrypted : Bool := false
  encryptionContexts : List (Option EncryptionContext)
  chunks : logicalChunkCount logicalSize chunkSize = .ok index.logicalChunks
  logicalSize_lt : logicalSize < u64Limit

namespace Image

variable (image : Image)

/-- `bounded_size` of `read_segment_range`. -/
def boundedSize (length offset size : Nat) (clamp : Bool) : Result Nat :=
  if clamp then do
    let size := min size (length - offset)
    rejectIf (size = 0) (.malformed "table page starts beyond segment end")
    return size
  else do
    rejectIf ((checkedAdd offset size).all (length < ·))
      (.malformed "requested byte range exceeds segment size")
    return size

def readSegmentRange (segmentIndex offset size : Nat) (clamp : Bool) : Result Bytes := do
  let source ← okOr (.malformed "missing segment source") image.segments[segmentIndex]?
  let size ← boundedSize source.bytes.length offset size clamp
  return slice source.bytes offset size

def encryptionContext (segmentIndex : Nat) : Option EncryptionContext :=
  (image.encryptionContexts[segmentIndex]?).join

/-- `read_encoded_chunk_bytes`, behind the check for an abort. -/
def encodedChunkBytes (chunkId : Nat) (chunk : Chunk) : Result Bytes :=
  match chunk.encoding with
  | .patternFill _ => .ok []
  | _ => do
    let encoded ← image.readSegmentRange chunk.segmentIndex chunk.offset chunk.encodedSize false
    match image.encryptionContext chunk.segmentIndex with
    | none => return encoded
    | some applyKeystream => do
      let streamOffset ← okOr (.malformed "encrypted chunk offset overflow")
        (checkedMul chunkId image.chunkSize)
      applyKeystream streamOffset encoded

/-- The most bytes that a chunk may decode to; logical EWF1 images pad the last chunk. -/
def maximumDecodedSize (chunk : Chunk) : Nat :=
  if image.format = .ewf1 ∧ (image.formatProfile = .logicalEnCase5 ∨
      image.formatProfile = .logicalEnCase6 ∨ image.formatProfile = .logicalEnCase7) then
    image.chunkSize
  else chunk.logicalSize

/-- `decode_chunk`, behind the check for an abort. -/
def decodeChunk (codec : Codec) (chunkId : Nat) (chunk : Chunk) : Result Bytes := do
  let encoded ← image.encodedChunkBytes chunkId chunk
  (if chunk.validateChecksum then validateRawChunkChecksum encoded chunk.logicalSize else .ok ())
  decodeChunkWithPadding codec encoded chunk.encoding chunk.logicalSize
    (image.maximumDecodedSize chunk)

def checksumErrorRange (chunkId logicalSize : Nat) : Result SectorRange := do
  let logicalOffset ← okOr (.malformed "checksum error logical offset overflow")
    (checkedMul chunkId image.chunkSize)
  match image.bytesPerSector.filter (· ≠ 0) with
  | none => return ⟨logicalOffset, max logicalSize 1⟩
  | some bytesPerSector =>
    return ⟨logicalOffset / bytesPerSector, max (divCeil logicalSize bytesPerSector) 1⟩

end Image

/-! ## Readers -/

inductive ChunkCacheCapacity
  | chunks (entries : Nat)
  | bytes (bytes : Nat)

structure OpenOptions where
  chunkCacheCapacity : ChunkCacheCapacity := .chunks 64
  tableEntryCacheSizeBytes : Nat
  readZeroChunkOnError : Bool := false

/-- What the clones of an opened image share and change: the two caches, the chunks that are being
decoded, the checksum errors seen so far, and the switches for zeros and for an abort. -/
structure Reader (lru : Interface) where
  chunkCache : lru.Cache Nat Bytes
  chunkInFlight : List Nat := []
  tablePageCache : TablePageCache lru
  checksumErrors : List SectorRange := []
  readZeroChunkOnError : Bool
  abortSignaled : Bool := false

def Reader.new (lru : Interface) (image : Image) (options : OpenOptions) : Reader lru where
  chunkCache := lru.new (some (match options.chunkCacheCapacity with
    | .chunks entries => max entries 1
    | .bytes bytes => max (bytes / image.chunkSize) 1))
  tablePageCache := { capacityBytes := options.tableEntryCacheSizeBytes }
  readZeroChunkOnError := options.readZeroChunkOnError

/-- Why an operation does not return a value. -/
inductive Stop
  | error (e : EwfError)
  /-- It waits for a chunk that no one decodes. -/
  | waiting
  deriving DecidableEq

abbrev Read (lru : Interface) := EStateM Stop (Reader lru)

section Operations

variable {lru : Interface}

def fromResult {α : Type} : Result α → Read lru α
  | .ok a => pure a
  | .error e => throw (.error e)

def fail {α : Type} (e : EwfError) : Read lru α := throw (.error e)

def ensureNotAborted : Read lru Unit := do
  let reader ← get
  if reader.abortSignaled then fail .aborted else pure ()

variable (codec : Codec) (image : Image)

/-- A page of a segment, from the cache or from the segment. -/
def readTablePage (segmentIndex pageOffset : Nat) : Read lru Bytes := do
  let key : TablePageKey := ⟨segmentIndex, pageOffset⟩
  let reader ← get
  match lru.get reader.tablePageCache.pages key with
  | (some page, pages) =>
    set { reader with tablePageCache := { reader.tablePageCache with pages } }
    return page
  | (none, pages) =>
    set { reader with tablePageCache := { reader.tablePageCache with pages } }
    let bytes ← fromResult (image.readSegmentRange segmentIndex pageOffset tablePageSize true)
    modify fun reader => { reader with tablePageCache := reader.tablePageCache.insert key bytes }
    return bytes

/-- The loop of `read_table_bytes_at`; every turn reads at least one byte. -/
def readTablePages (segmentIndex requested : Nat) : Nat → Nat → Bytes → Read lru Bytes
  | 0, _, output => pure output
  | fuel + 1, current, output =>
    if output.length < requested then do
      let page ← readTablePage image segmentIndex (current - current % tablePageSize)
      let available := page.length - current % tablePageSize
      if available = 0 then fail (.malformed "table read crosses segment end")
      else do
        let take := min available (requested - output.length)
        let next ← fromResult (okOr (.malformed "table read offset overflow")
          (checkedAdd current take))
        readTablePages segmentIndex requested fuel next
          (output ++ slice page (current % tablePageSize) take)
    else pure output

def readTableBytesAt (segmentIndex offset size : Nat) : Read lru Bytes := do
  let reader ← get
  if reader.tablePageCache.isDisabled then
    fromResult (image.readSegmentRange segmentIndex offset size false)
  else readTablePages image segmentIndex size size offset []

/-- `lookup_ewf1_chunk` through the table pages. -/
def lookupEwf1 (range : TableRange) (localIndex logicalSize : Nat) : Read lru Chunk := do
  let entryOffset ← fromResult (tableEntryOffset range localIndex 4)
  let raw ← readTableBytesAt image range.segmentIndex entryOffset 4
  let nextRaw ← (if localIndex + 1 < range.chunkCount then do
      let nextOffset ← fromResult (tableEntryOffset range (localIndex + 1) 4)
      let nextRaw ← readTableBytesAt image range.segmentIndex nextOffset 4
      return some (fromLE nextRaw)
    else return none)
  fromResult (ewf1Chunk range image.chunkSize localIndex logicalSize (fromLE raw) nextRaw)

/-- `lookup_ewf2_chunk` through the table pages. -/
def lookupEwf2 (range : TableRange) (localIndex logicalSize : Nat) : Read lru Chunk := do
  let entryOffset ← fromResult (tableEntryOffset range localIndex Ewf2.tableEntrySize)
  let entryData ← readTableBytesAt image range.segmentIndex entryOffset Ewf2.tableEntrySize
  fromResult (lookupEwf2Chunk (fun _ _ _ => .ok entryData) range image.chunkSize localIndex
    logicalSize)

def lookupChunk (chunkId : Nat) : Read lru Chunk := do
  let range ← fromResult (image.index.rangeFor chunkId)
  let localIndex ← fromResult (okOr (.malformed "chunk range underflow")
    (checkedSub chunkId range.firstChunk))
  let logicalSize ← fromResult (logicalChunkSize image.logicalSize image.chunkSize chunkId)
  match range.kind with
  | .ewf1 => lookupEwf1 image range localIndex logicalSize
  | .ewf2 => lookupEwf2 image range localIndex logicalSize

def recordChecksumError (chunkId logicalSize : Nat) : Read lru Unit := do
  let range ← fromResult (image.checksumErrorRange chunkId logicalSize)
  modify fun reader =>
    if range ∈ reader.checksumErrors then reader
    else { reader with checksumErrors := reader.checksumErrors ++ [range] }

/-- The decoded chunk, and whether zeros stand in for it. -/
def decodeChunkWithPolicy (chunkId : Nat) (chunk : Chunk) : Read lru (Bytes × Bool) := do
  ensureNotAborted
  let reader ← get
  match image.decodeChunk codec chunkId chunk with
  | .ok decoded => return (decoded, false)
  | .error (.malformed reason) =>
    if (image.encryptionContext chunk.segmentIndex).isSome then fail .decryptionValidationFailed
    else if reader.readZeroChunkOnError then do
      recordChecksumError image chunkId chunk.logicalSize
      return (List.replicate chunk.logicalSize 0, true)
    else fail (.malformed reason)
  | .error e => fail e

/-- Decode a chunk and remember it. -/
def decodeIntoCache (chunkId : Nat) : Read lru Bytes := do
  let chunk ← lookupChunk image chunkId
  let (decoded, _) ← decodeChunkWithPolicy codec image chunkId chunk
  modify fun reader => { reader with chunkCache := lru.put reader.chunkCache chunkId decoded }
  return decoded

def endFlight (chunkId : Nat) : Read lru Unit :=
  modify fun reader =>
    { reader with chunkInFlight := reader.chunkInFlight.filter (· ≠ chunkId) }

def readChunk (chunkId : Nat) : Read lru Bytes := do
  ensureNotAborted
  let reader ← get
  match lru.get reader.chunkCache chunkId with
  | (some cached, chunkCache) =>
    set { reader with chunkCache }
    return cached
  | (none, chunkCache) =>
    set { reader with chunkCache }
    if chunkId ∈ reader.chunkInFlight then throw .waiting
    else do
      modify fun reader => { reader with chunkInFlight := chunkId :: reader.chunkInFlight }
      let decoded ← tryCatch (decodeIntoCache codec image chunkId) fun stop => do
        endFlight chunkId
        throw stop
      endFlight chunkId
      return decoded

/-- The loop of `read_at_impl`; every turn copies at least one byte. -/
def readAtLoop (toRead : Nat) : Nat → Nat → Bytes → Read lru Bytes
  | 0, _, copied => pure copied
  | fuel + 1, current, copied =>
    if copied.length < toRead then do
      ensureNotAborted
      let decoded ← readChunk codec image (current / image.chunkSize)
      let pageOffset := current % image.chunkSize
      let count := min (toRead - copied.length) (decoded.length - pageOffset)
      if count = 0 then return copied
      else readAtLoop toRead fuel (current + count) (copied ++ slice decoded pageOffset count)
    else pure copied

/-- `read_at` into a buffer of `length` bytes; the result is what it copies to the front. -/
def readAt (length offset : Nat) : Read lru Bytes := do
  ensureNotAborted
  if length = 0 ∨ image.logicalSize ≤ offset then return []
  else if image.chunkSize = 0 then fail (.malformed "chunk size is zero")
  else do
    let toRead := min (image.logicalSize - offset) length
    readAtLoop codec image toRead toRead offset []

def dataChunkEncoding : ChunkEncoding → DataChunkEncoding
  | .raw => .raw
  | .zlib => .zlib
  | .zstd => .zstd
  | .bzip2 => .bzip2
  | .patternFill pattern => .patternFill pattern

/-- A decoded chunk with its place; `corrupted` when zeros stand in for the data. -/
structure PlacedDataChunk extends DataChunk where
  chunkIndex : Nat
  logicalOffset : Nat
  encodedSize : Nat
  encoding : DataChunkEncoding

/-- A chunk as it is stored, with its place. -/
structure PlacedEncodedDataChunk extends EncodedDataChunk where
  chunkIndex : Nat
  logicalOffset : Nat

def readDataChunk (chunkIndex : Nat) : Read lru PlacedDataChunk := do
  ensureNotAborted
  let chunk ← lookupChunk image chunkIndex
  let (data, corrupted) ← decodeChunkWithPolicy codec image chunkIndex chunk
  let logicalOffset ← fromResult (okOr (.malformed "data chunk logical offset overflow")
    (checkedMul chunkIndex image.chunkSize))
  return {
    chunkIndex
    logicalOffset
    logicalSize := chunk.logicalSize
    encodedSize := chunk.encodedSize
    encoding := dataChunkEncoding chunk.encoding
    corrupted
    data }

def readEncodedDataChunk (chunkIndex : Nat) : Read lru PlacedEncodedDataChunk := do
  ensureNotAborted
  let chunk ← lookupChunk image chunkIndex
  ensureNotAborted
  let data ← fromResult (image.encodedChunkBytes chunkIndex chunk)
  let logicalOffset ← fromResult (okOr (.malformed "data chunk logical offset overflow")
    (checkedMul chunkIndex image.chunkSize))
  return {
    chunkIndex
    logicalOffset
    logicalSize := chunk.logicalSize
    encodedSize := chunk.encodedSize
    encoding := dataChunkEncoding chunk.encoding
    hasChecksum := chunk.validateChecksum
    data }

def verificationChunk (chunkId : Nat) : Read lru Bytes := do
  ensureNotAborted
  let chunk ← lookupChunk image chunkId
  ensureNotAborted
  match image.decodeChunk codec chunkId chunk with
  | .ok decoded => return decoded
  | .error (.malformed reason) =>
    if image.encrypted then fail .decryptionValidationFailed
    else fail (.malformed reason)
  | .error e => fail e

def setReadZeroChunkOnError (zeroOnError : Bool) : Read lru Unit :=
  modify fun reader => { reader with readZeroChunkOnError := zeroOnError }

def signalAbort : Read lru Unit := modify fun reader => { reader with abortSignaled := true }

end Operations

end EwfImage.Reading
