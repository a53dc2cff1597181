import EwfImage.Checksum
import EwfImage.Image.Encoding
import EwfImage.Lib.ByteStore
import EwfImage.Writer.Options

/-!
# Encoding of the media

The raw spool holds the media bytes written so far; `encodeRawSpool` cuts it into
chunks and stores each one in the chunk spool, either encoded here or as the
encoded chunk the caller handed in, when one is remembered for it.

The compression libraries are the parameter `Codec`. The order in which the forms of a chunk are
tried is that of the source: a pattern, an empty block, compressed where it is shorter, raw. The
parallel encoding of batches gives its results in their order, so that it is a loop here.
-/

namespace EwfImage

open Fallible Word LittleEndian Slice ByteStore

/-- The digest algorithms, each as a function of all bytes absorbed so far. No result here depends
on which functions they are. -/
structure Digests where
  md5 : Bytes → Bytes
  sha1 : Bytes → Bytes
  sha256 : Bytes → Bytes

structure EncodedChunk where
  bytes : Bytes
  compressed : Bool
  hasChecksum : Bool
  patternFill : Option UInt64
  deriving DecidableEq

structure RememberedEncodedChunk where
  logicalSize : Nat
  encoding : DataChunkEncoding
  encoded : EncodedChunk
  deriving DecidableEq

structure ChunkDescriptor where
  dataOffset : Nat
  dataSize : Nat
  compressed : Bool
  hasChecksum : Bool
  patternFill : Option UInt64
  deriving DecidableEq

/-! ## Encoding one chunk -/

def isFullZeroChunk (chunk : Bytes) (chunkSize : Nat) : Bool :=
  chunk.length == chunkSize && chunk.all (· == 0)

/-- The first eight bytes, with zeros behind a shorter chunk. -/
def patternSeed (chunk : Bytes) : Bytes :=
  chunk.take 8 ++ List.replicate (8 - chunk.length) 0

def repeatedEwf2Pattern (chunk : Bytes) : Option UInt64 :=
  if chunk = [] then none
  else if chunk = (List.range chunk.length).map fun i => (patternSeed chunk).getD (i % 8) 0 then
    some (UInt64.ofNat (fromLE (patternSeed chunk)))
  else none

def emptyBlockZlibCompression : WriteCompressionLevel → WriteCompressionLevel
  | .none => .default
  | level => level

def bzip2Compression : WriteCompressionLevel → Result WriteCompressionLevel
  | .none => .error (.unsupported "BZip2 writer compression does not support none compression level")
  | level => .ok level

/-- The chunk as it is, with its checksum behind it. -/
def rawEncodedChunk (chunk : Bytes) : EncodedChunk where
  bytes := chunk ++ toLE 4 (adler32 chunk)
  compressed := false
  hasChecksum := true
  patternFill := none

def compressedEncodedChunk (bytes : Bytes) : EncodedChunk where
  bytes
  compressed := true
  hasChecksum := false
  patternFill := none

def patternEncodedChunk (pattern : UInt64) : EncodedChunk where
  bytes := []
  compressed := true
  hasChecksum := false
  patternFill := some pattern

def encodeChunk (codec : Codec) (chunk : Bytes) (compression : WriteCompression)
    (values : WriteCompressionValues) (chunkSize : Nat)
    (allowPatternFill allowEmptyBlockCompression : Bool) : Result EncodedChunk :=
  match (if allowPatternFill then repeatedEwf2Pattern chunk else none) with
  | some pattern => .ok (patternEncodedChunk pattern)
  | none =>
    if allowEmptyBlockCompression && isFullZeroChunk chunk chunkSize then
      .ok (compressedEncodedChunk
        (codec.zlibEncode (emptyBlockZlibCompression values.level) chunk))
    else match compression with
      | .none => .ok (rawEncodedChunk chunk)
      | .zlib =>
        let bytes := codec.zlibEncode values.level chunk
        -- An incompressible chunk is stored raw, as `WriteCompression::None` stores it.
        if chunk.length ≤ bytes.length then .ok (rawEncodedChunk chunk)
        else .ok (compressedEncodedChunk bytes)
      | .bzip2 => do
        let level ← bzip2Compression values.level
        return compressedEncodedChunk (codec.bzip2Encode level chunk)

/-! ## The spools -/

/-- `RawSpool::read_at_filling_zeroes`. -/
def readAtFillingZeroes (raw : Bytes) (offset size : Nat) : Bytes :=
  let data := slice raw offset size
  data ++ List.replicate (size - data.length) 0

/-- The descriptor of an encoded chunk stored at `dataOffset`. -/
def EncodedChunk.descriptorAt (encoded : EncodedChunk) (dataOffset : Nat) : ChunkDescriptor where
  dataOffset
  dataSize := encoded.bytes.length
  compressed := encoded.compressed
  hasChecksum := encoded.hasChecksum
  patternFill := encoded.patternFill

/-- `ChunkSpool::append`: the descriptor of the chunk and the longer spool. -/
def appendChunk (spool : Bytes) (encoded : EncodedChunk) : Result (ChunkDescriptor × Bytes) := do
  let _ ← okOr (.malformed "writer encoded chunk spool size overflow")
    (checkedAdd spool.length encoded.bytes.length)
  return (encoded.descriptorAt spool.length, spool ++ encoded.bytes)

/-- `ChunkSpool::copy_chunk_to`: the stored bytes of a chunk. -/
def copyChunk (spool : Bytes) (descriptor : ChunkDescriptor) : Bytes :=
  slice spool descriptor.dataOffset descriptor.dataSize

/-! ## Encoding the raw spool -/

def encodedDataChunkEncodingCompatible (encoding : DataChunkEncoding) (options : WriteOptions) :
    Bool :=
  match encoding with
  | .raw => true
  | .zlib => options.compression ≠ .bzip2
  | .zstd => false
  | .bzip2 => isEwf2Format options.format && options.compression = .bzip2
  | .patternFill _ => isEwf2Format options.format

/-- The remembered chunks, by chunk index. -/
abbrev EncodedChunks := Nat → Option RememberedEncodedChunk

structure EncodeState where
  chunks : List ChunkDescriptor := []
  spool : Bytes := []
  hashed : Bytes := []
  encodedChunks : EncodedChunks

structure EncodedSpool where
  chunks : List ChunkDescriptor
  spool : Bytes
  computedMd5 : Bytes
  computedSha1 : Bytes
  computedSha256 : Bytes

/-- The stored form of the chunk `chunk`: the remembered one where it fits, else a new one. -/
def chooseEncoded (codec : Codec) (options : WriteOptions) (chunkSize : Nat) (chunk : Bytes)
    (remembered : Option RememberedEncodedChunk) : Result EncodedChunk :=
  let isEwf2 := isEwf2Format options.format
  let encode := encodeChunk codec chunk options.compression options.compressionValues chunkSize
    isEwf2 (!isEwf2 && options.compressionValues.emptyBlock)
  match remembered with
  | some remembered =>
    if remembered.logicalSize = chunk.length ∧
        encodedDataChunkEncodingCompatible remembered.encoding options then
      .ok remembered.encoded
    else encode
  | none => encode

/-- The loop of `encode_raw_spool` from `offset` on; every turn advances by at least one byte, so
`fuel` bounds the bytes left. -/
def encodeRawSpoolLoop (codec : Codec) (raw : Bytes) (logicalSize chunkCapacity chunkSize : Nat)
    (options : WriteOptions) : Nat → Nat → EncodeState → Result EncodeState
  | 0, _, state => .ok state
  | fuel + 1, offset, state =>
    if offset < logicalSize then do
      let take := min (logicalSize - offset) chunkCapacity
      let chunk := readAtFillingZeroes raw offset take
      let chunkIndex := offset / chunkSize
      let encoded ← chooseEncoded codec options chunkSize chunk (state.encodedChunks chunkIndex)
      let (descriptor, spool) ← appendChunk state.spool encoded
      let next ← okOr (.malformed "writer raw spool encode offset overflow") (checkedAdd offset take)
      encodeRawSpoolLoop codec raw logicalSize chunkCapacity chunkSize options fuel next {
        chunks := state.chunks ++ [descriptor]
        spool
        hashed := state.hashed ++ chunk
        encodedChunks := fun index =>
          if index = chunkIndex then none else state.encodedChunks index }
    else .ok state

def encodeRawSpool (codec : Codec) (digests : Digests) (raw : Bytes) (encodedChunks : EncodedChunks)
    (logicalSize chunkCapacity chunkSize : Nat) (options : WriteOptions) : Result EncodedSpool := do
  let state ← encodeRawSpoolLoop codec raw logicalSize chunkCapacity chunkSize options logicalSize 0
    { encodedChunks }
  return {
    chunks := state.chunks
    spool := state.spool
    computedMd5 := digests.md5 state.hashed
    computedSha1 := digests.sha1 state.hashed
    computedSha256 := digests.sha256 state.hashed }

/-! ## Reading a stored chunk back -/

/-- The method a finished EWF2 segment names; raw chunks are told apart by their flags. -/
def ewf2CompressionMethod : WriteCompression → UInt16
  | .none | .zlib => 1
  | .bzip2 => 2

/-- The encoding under which a reader of the finished image finds a stored chunk. -/
def storedEncoding (options : WriteOptions) (chunkSize : Nat) (descriptor : ChunkDescriptor) :
    Result ChunkEncoding :=
  if isEwf2Format options.format then
    ewf2ChunkEncoding
      (Ewf2.chunkKind
        (Ewf2.entryFlags descriptor.compressed descriptor.hasChecksum descriptor.patternFill.isSome)
        (.ofU16 (ewf2CompressionMethod options.compression)))
      (descriptor.patternFill.getD 0)
  else ewf1ChunkEncoding descriptor.compressed descriptor.dataSize chunkSize .zlib

/-- `validate_checksum` of a stored chunk: EWF2 marks the raw chunks that have a checksum, EWF1 knows
them by their size. -/
def storedChecksum (options : WriteOptions) (descriptor : ChunkDescriptor) (encoding : ChunkEncoding)
    (logicalSize : Nat) : Bool :=
  if isEwf2Format options.format then
    encoding = .raw ∧
      Ewf2.entryFlags descriptor.compressed descriptor.hasChecksum descriptor.patternFill.isSome &&&
        Ewf2.chunkFlagHasChecksum ≠ 0
  else encoding = .raw ∧ logicalSize + 4 = descriptor.dataSize

/-- The reader's check of the stored size of a chunk of an image with these options. -/
def validateStoredSize (options : WriteOptions) (chunkSize : Nat) (descriptor : ChunkDescriptor) :
    Result Unit := do
  let encoding ← storedEncoding options chunkSize descriptor
  if isEwf2Format options.format then
    validateEncodedSize descriptor.dataSize chunkSize encoding
  else
    validateEwf1EncodedSize descriptor.dataSize chunkSize encoding (options.format = .ewf1Smart)

/-- What the reader makes of the stored bytes of a chunk, as its `decode_chunk` does with a buffer of
`maximum` bytes. -/
def decodeStoredBytes (codec : Codec) (options : WriteOptions) (chunkSize : Nat)
    (descriptor : ChunkDescriptor) (bytes : Bytes) (logicalSize maximum : Nat) : Result Bytes := do
  let encoding ← storedEncoding options chunkSize descriptor
  (if storedChecksum options descriptor encoding logicalSize then
    validateRawChunkChecksum bytes logicalSize
  else .ok ())
  decodeChunkWithPadding codec bytes encoding logicalSize maximum

/-- What a chunk of the spool reads as in the finished image: the checks of the lookup, and what its
bytes decode to with the format, compression and chunk size of `options`. -/
def decodeStored (codec : Codec) (options : WriteOptions) (chunkSize : Nat) (spool : Bytes)
    (descriptor : ChunkDescriptor) (logicalSize maximum : Nat) : Result Bytes := do
  validateStoredSize options chunkSize descriptor
  decodeStoredBytes codec options chunkSize descriptor (copyChunk spool descriptor) logicalSize
    maximum

end EwfImage
