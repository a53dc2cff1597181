import EwfImage.Aff4.Archive
import EwfImage.Lib.Pieces

/-!
# Containers

An opened container is fixed: its archive, its graph and its limits. The functions here
look things up in it without any cache: the properties of a resource, its size, the
archive member that stores it, its inline data, its map and its chunks.

A look-up may fail, and the error is that of the source with its text. The readers ask for these
values as queries, so that a proof can leave open whether an answer comes from a cache.
-/

namespace EwfImage.Aff4

open Fallible LittleEndian Pieces Slice Std Word

/-- The parsed statements, by subject. -/
abbrev Graph := TreeMap String (List Property)

structure Limits where
  directoryBytes : Nat
  archiveEntries : Nat
  metadataBytes : Nat
  memberBytes : Nat
  chunkBytes : Nat
  triples : Nat
  mapBytes : Nat
  verificationBytes : Nat

/-- Platform capacity instead of application resource quotas. -/
def Limits.unrestricted : Limits where
  directoryBytes := 2 ^ 63 - 1
  archiveEntries := 2 ^ 63 - 1
  metadataBytes := 2 ^ 63 - 1
  memberBytes := 2 ^ 63 - 1
  chunkBytes := 2 ^ 63 - 1
  triples := 2 ^ 63 - 1
  mapBytes := 2 ^ 63 - 1
  verificationBytes := 2 ^ 64 - 1

/-- What opening a container fixes: the archive, the graph that its metadata describe, and the
limits under which it was opened. -/
structure Container where
  libraries : Libraries
  archive : ZipArchive
  /-- The bytes of the file, for direct reads of stored members. -/
  storedSource : Bytes
  volume : String
  graph : Graph
  limits : Limits
  version : Nat × Nat
  /-- The digests of the metadata members, by name. -/
  metadataMembers : TreeMap String String

/-- A range of a map: the addresses from `start` up to `stop` are those of the target
from `offset` on. -/
structure MapRange where
  start : Nat
  stop : Nat
  offset : Nat
  target : String
  deriving DecidableEq

structure ResourceMap where
  ranges : List MapRange
  gap : String
  deriving DecidableEq

/-- `enter`: the visited resources with one more, unless it repeats or there are too many. -/
def enter (id : String) (visited : List String) : Result (List String) := do
  rejectIf (32 ≤ visited.length ∨ id ∈ visited)
    (.malformed "cyclic or excessively deep stream references")
  return id :: visited

/-- `storage_name`. -/
def storageName (archive : ZipArchive) (volume id : String) (version : Nat × Nat) :
    Result String :=
  if version ≠ (1, 0) ∧ archive.hasName id then .ok id
  else match stripPrefix id (volume ++ "/") with
    | some path => .ok (if version = (1, 0) then escape path else path)
    | none => do
      let rest ← okOr (.unsupported "non-AFF4 storage reference") (stripPrefix id "aff4://")
      let legacy := "aff4%3A%2F%2F" ++ escape rest
      if version = (1, 1) ∧ archive.fileNames.any fun name => startsWith name (legacy ++ "/") then
        return legacy
      else if version = (1, 0) then return legacy
      else return id

/-- `mem::size_of::<Range>()` on a 64-bit target. -/
def rangeBytes : Nat := 48

namespace Container

variable (c : Container)

/-! ## Properties -/

def properties (id : String) : List Property := c.graph.getD id []

def hasType (id kind : String) : Bool :=
  (c.properties id).any fun p => p.predicate = rdfType ∧ isProperty p.value kind

/-- The values of a property, each once. -/
def values (id key : String) : List String :=
  (((c.properties id).filter fun p => isProperty p.predicate key).map (·.value)).dedup

def value (id key : String) : Result (Option String) := do
  let values := c.values id key
  rejectIf (1 < values.length) (.malformed s!"ambiguous {key}")
  return values.head?

def number (id key : String) : Result Nat := do
  let text ← okOr (.malformed s!"missing {key}") (← c.value id key)
  okOr (.malformed s!"invalid {key}") (parseU64 text)

def isZipSegment (id : String) : Bool := c.hasType id "ZipSegment" || c.hasType id "zip_segment"

/-! ## Inline data, sizes and paths -/

def isDataStream (p : Property) : Bool :=
  isProperty p.predicate "dataStream" || isProperty p.predicate "dataSteam"

/-- The inline data after one more property. -/
def inlineStep (id : String) (result : Option Bytes) (p : Property) : Result (Option Bytes) := do
  rejectIf (1400 < p.value.utf8ByteSize) (.malformed "inline data exceeds 1 KiB limit")
  let bytes ← okOr (.malformed "invalid inline base64") (c.libraries.base64Decode p.value)
  rejectIf (1024 < bytes.length) (.malformed "inline data size mismatch")
  let size ← c.number id "size"
  rejectIf (bytes.length ≠ size) (.malformed "inline data size mismatch")
  rejectIf (result.any (· ≠ bytes)) (.malformed "conflicting inline data")
  return some bytes

def inlineData (id : String) : Result (Option Bytes) := do
  let result ← ((c.properties id).filter fun p =>
    isDataStream p ∧ p.datatype = some base64).foldlM (c.inlineStep id) none
  rejectIf (result.isSome ∧
      (c.properties id).any fun p => isDataStream p ∧ p.datatype ≠ some base64)
    (.malformed "conflicting inline and referenced data streams")
  return result

/-- `stream_size`; the first argument counts the references that may still follow. -/
def streamSize : Nat → List String → String → Result Nat
  | 0, _, _ => .error (.malformed "cyclic or excessively deep stream references")
  | depth + 1, visited, id => do
    let visited ← enter id visited
    if (← c.inlineData id).isSome then c.number id "size"
    else match ← c.value id "dataStream" with
      | some target =>
        let size ← streamSize depth visited target
        if (← c.value id "size").isSome then
          rejectIf ((← c.number id "size") ≠ size) (.malformed "inconsistent stream size")
          return size
        else return size
      | none => c.number id "size"

def size (id : String) : Result Nat := c.streamSize 32 [] id

def path (id : String) : Result String := do
  if c.hasType id "FileImage" then storageName c.archive c.volume id c.version
  else match ← c.value id "fileName" with
    | some path => return path
    | none => storageName c.archive c.volume id c.version

/-! ## Maps -/

/-- The ranges of a map with one more record, and the bytes they retain. -/
def mapRecord (targets : List String) (size : Nat) (ranges : List MapRange × Nat)
    (record : Bytes) : Result (List MapRange × Nat) := do
  let start := leAt record 0 8
  let length := leAt record 8 8
  let offset := leAt record 16 8
  let stop ← okOr (.malformed "map overflow") (checkedAdd start length)
  let previous := (ranges.1.getLast?.map MapRange.stop).getD 0
  rejectIf (length = 0 ∨ start < previous ∨ size < stop ∨ checkedAdd offset length = none)
    (.malformed "invalid or overlapping map range")
  let target ← okOr (.malformed "missing map target") targets[leAt record 24 4]?
  let retained := ranges.2 + rangeBytes + target.utf8ByteSize
  rejectIf (c.limits.mapBytes < retained) (.malformed "retained map byte limit exceeded")
  return (ranges.1 ++ [⟨start, stop, offset, target⟩], retained)

/-- `load_map` up to the point where it forgets the retained map. -/
def mapRanges (id : String) : Result (List MapRange) := do
  let path ← c.path id
  let data ← c.archive.member (path ++ "/map") c.limits.memberBytes
  let index ← c.archive.member (path ++ "/idx") c.limits.metadataBytes
  let index ← okOr (.malformed "map target index is not UTF-8") (fromUtf8 index)
  rejectIf (data.length % 28 ≠ 0) (.malformed "partial map record")
  rejectIf (c.limits.mapBytes / rangeBytes < data.length / 28)
    (.malformed "retained map byte limit exceeded")
  let size ← c.number id "size"
  let (ranges, _) ← (pieces 28 data).foldlM (c.mapRecord (lines index) size) ([], 0)
  return ranges

def mapGap (id : String) : Result String := do
  return (← c.value id "mapGapDefaultStream").getD (ns ++ "Zero")

/-- The map of a resource. -/
def map (id : String) : Result ResourceMap := do
  let ranges ← c.mapRanges id
  return { ranges, gap := ← c.mapGap id }

/-! ## Chunks -/

/-- The geometry and the storage of an image stream. -/
structure ImageStream where
  id : String
  chunkSize : Nat
  perBevy : Nat
  path : String
  compression : Option String

def imageStream (id : String) : Result ImageStream := do
  let chunkSize ← c.number id "chunkSize"
  let perBevy ← c.number id "chunksInSegment"
  rejectIf (chunkSize = 0 ∨ c.limits.chunkBytes < chunkSize ∨ perBevy = 0)
    (.malformed "invalid chunk geometry")
  let path ← c.path id
  let compression ← c.value id "compressionMethod"
  return { id, chunkSize, perBevy, path, compression }

/-- The name of the bevy with a chunk. -/
def ImageStream.bevyName (stream : ImageStream) (chunk : Nat) : String :=
  stream.path ++ "/" ++ eightDigits (chunk / stream.perBevy)

/-- The part of a bevy that a record of its index gives. -/
def chunkRecord (index : Bytes) (chunk : Nat) : Result (Nat × Nat) := do
  rejectIf (index.length % 12 ≠ 0) (.malformed "partial chunk index record")
  let start ← okOr (.malformed "index overflow") (checkedMul chunk 12)
  let stop ← okOr (.malformed "index overflow") (checkedAdd start 12)
  rejectIf (index.length < stop) (.malformed "missing chunk index")
  let record := slice index start 12
  let offset := leAt record 0 8
  let length := leAt record 8 4
  rejectIf ((checkedAdd offset length).all (c.limits.memberBytes < ·))
    (.malformed "chunk outside bevy")
  return (offset, length)

/-- `decode`. -/
def decode (data : Bytes) (method : Option String) (size : Nat) : Result Bytes :=
  match method with
  | some "http://code.google.com/p/snappy/" =>
    match c.libraries.snappyDecompressLen data with
    | .error reason => .error (.malformed reason)
    | .ok length => do
      rejectIf (length ≠ size) (.malformed "snappy size mismatch")
      match c.libraries.snappyDecompress data with
      | .error reason => .error (.malformed reason)
      | .ok decoded => return decoded
  | some "https://www.ietf.org/rfc/rfc1950.txt" =>
    (c.libraries.zlibDecoder data).readBuffer size
  | some "https://tools.ietf.org/html/rfc1951" =>
    (c.libraries.deflateDecoder data).readBuffer size
  | some "https://code.google.com/p/lz4/" =>
    match c.libraries.lz4DecompressInto data size with
    | .error reason => .error (.malformed reason)
    | .ok decoded => .ok decoded
  | _ => .error (.unsupported "chunk compression method")

/-- The decoded bytes of a chunk that is stored as `encoded`. -/
def decodeChunk (stream : ImageStream) (encoded : Bytes) (length : Nat) : Result Bytes := do
  let decoded ← (if length = stream.chunkSize then .ok encoded
    else c.decode encoded stream.compression stream.chunkSize)
  rejectIf (decoded.length ≠ stream.chunkSize) (.malformed "decoded chunk length mismatch")
  return decoded

/-- A member whose ranges are read, and where its bytes start if they are stored as they are. -/
structure StoredMember where
  name : String
  size : Nat
  dataStart : Option Nat

def storedMember (name : String) : Result StoredMember := do
  let (file, _) ← c.archive.byName name
  rejectIf (c.limits.memberBytes < file.size)
    (.malformed s!"member exceeds resource limit: {name}")
  let dataStart := if file.stored ∧ ¬ file.encrypted ∧ file.compressedSize = file.size then
    file.dataStart else none
  rejectIf ((dataStart.bind (checkedAdd · file.size)).any (c.archive.centralDirectoryStart < ·))
    (.malformed "stored ZIP member exceeds archive data")
  return { name, size := file.size, dataStart }

/-- The bytes of a range, when the member is stored as it is. -/
def StoredMember.range (member : StoredMember) (offset length : Nat) : Result (Option Bytes) := do
  rejectIf ((checkedAdd offset length).all (member.size < ·))
    (.malformed "member range exceeds stored ZIP entry")
  match member.dataStart with
  | none => return none
  | some dataStart =>
    let absolute ← okOr (.malformed "stored ZIP member offset overflow")
      (checkedAdd dataStart offset)
    return some (← readFileExactAt c.storedSource absolute length)

/-- The part of a whole member that a range covers. -/
def memberPart (data : Bytes) (offset length : Nat) : Result Bytes := do
  rejectIf (data.length < offset + length) (.malformed "chunk outside bevy")
  return slice data offset length

/-- The bytes of a chunk as they are stored. -/
def storedChunk (name : String) (offset length : Nat) : Result Bytes := do
  let member ← c.storedMember name
  match ← StoredMember.range c member offset length with
  | some direct => return direct
  | none =>
    let data ← c.archive.member name c.limits.memberBytes
    memberPart data offset length

/-- A chunk of an image stream. -/
def chunk (stream : ImageStream) (chunk : Nat) : Result Bytes := do
  let name := stream.bevyName chunk
  let index ← c.archive.member (name ++ ".index") c.limits.memberBytes
  let (offset, length) ← c.chunkRecord index (chunk % stream.perBevy)
  let encoded ← c.storedChunk name offset length
  c.decodeChunk stream encoded length

end Container

end EwfImage.Aff4
