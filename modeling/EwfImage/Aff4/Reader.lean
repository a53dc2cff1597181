import EwfImage.Aff4.Container
import EwfImage.Lib.LruCache
import EwfImage.Lib.Queries

/-!
# Reading resources

A read follows the references of the graph down to the data. It asks for maps and for
decoded chunks, which the container keeps in caches; the programs here say what is asked
and what is made of the answers, and the store after them how the caches answer.

A read is a program over queries in the sense of `Lib.Queries`; its loops are by the bytes that
are left, and its references by the resources that it has come through. The decoded chunks are
kept by a library of caches, any one with the laws of `LruCache.Interface`. Statistics and the
lock of the caches are left out: clones of a container share one state.
-/

namespace EwfImage.Aff4

open Fallible LruCache Queries Slice Std Word

namespace Container

variable (c : Container)

/-- An image stream together with the fact that the graph describes it so. -/
structure OpenedStream extends ImageStream where
  opened : c.imageStream toImageStream.id = .ok toImageStream

theorem id_of_imageStream {id : String} {stream : ImageStream}
    (h : c.imageStream id = .ok stream) : stream.id = id := by
  simp only [imageStream, bind_eq_ok, pure_eq_ok] at h
  obtain ⟨chunkSize, -, perBevy, -, _, -, path, -, compression, -, hstream⟩ := h
  cases hstream
  rfl

def openStream (id : String) : Result c.OpenedStream :=
  match h : c.imageStream id with
  | .ok stream => .ok ⟨stream, by rw [c.id_of_imageStream h, h]⟩
  | .error e => .error e

/-! ## What a read asks -/

inductive Query where
  /-- `load_map`, and the map it retains. -/
  | map (id : String)
  /-- A turn of the loop over chunks, up to the decoded chunk. -/
  | chunk (useDecodedCache : Bool) (stream : c.OpenedStream) (chunk : Nat)
  /-- The caches dropped at the start of a verification. -/
  | clear

def Query.Answer : c.Query → Type
  | .map _ => ResourceMap
  | .chunk .. => Bytes
  | .clear => Unit

/-- A computation that asks for maps and chunks. -/
abbrev Reading (α : Type) := Program c.Query (Query.Answer c) Error α

def loadMap (id : String) : c.Reading ResourceMap := .request (Query.map id)

def readChunk (useDecodedCache : Bool) (stream : c.OpenedStream) (chunk : Nat) : c.Reading Bytes :=
  .request (Query.chunk useDecodedCache stream chunk)

def clearCaches : c.Reading Unit := .request Query.clear

/-! ## Positioned reads -/

/-- The byte of a symbolic stream, the failure of an unreadable one, or neither. -/
def symbolicByte (id : String) : Option (Result UInt8) :=
  if id = ns ++ "Zero" then some (.ok 0)
  else match stripPrefix id (ns ++ "SymbolicStream") with
    | some value =>
      some (if value.utf8ByteSize ≠ 2 then .error (.malformed "invalid symbolic byte")
        else okOr (.malformed "invalid symbolic byte") (parseHexByte value))
    | none =>
      if id = ns ++ "UnknownData" ∨ id = ns ++ "UnreadableData" then
        some (.error (.unsupported "unknown or unreadable evidence range"))
      else none

/-- A part of a ZIP segment: its member is decoded from the start. -/
def readZipSegment (id : String) (size offset length : Nat) : Result Bytes := do
  let path ← c.path id
  let (file, contents) ← c.archive.byName path
  rejectIf (file.size ≠ size) (.malformed "ZIP segment size mismatch")
  let bytes ← (if offset ≤ contents.output.length then contents.readExact offset length
    else match contents.failure with
      | some e => .error e
      | none => .error (.malformed "truncated ZIP segment"))
  if offset + length = size then
    let more ← contents.hasMore size
    rejectIf more (.malformed "oversized ZIP segment")
    return bytes
  else return bytes

/-- The loop over the ranges of a contiguous image. -/
def checkContiguous (map : ResourceMap) (size : Nat) : Result Unit := do
  let stop ← map.ranges.foldlM (fun stop range => do
    rejectIf (range.start ≠ stop) (.malformed "gap in declared contiguous image")
    return range.stop) 0
  rejectIf (stop ≠ size) (.malformed "truncated contiguous image map")

/-- The target of a position of a map, the address there, and where the target ends. -/
def mapTarget (id : String) (map : ResourceMap) (position : Nat) : Result (String × Nat × Nat) :=
  -- `partition_point`: the ranges are in order
  match map.ranges.find? (position < ·.stop) with
  | some range =>
    if range.start ≤ position then
      .ok (range.target, range.offset + (position - range.start), range.stop)
    else do
      let _ ← c.number id "size"
      return (map.gap, position, range.start)
  | none => do
    let size ← c.number id "size"
    return (map.gap, position, size)

/-- The loop over the ranges of a map; every turn reads at least a byte. -/
def readMapLoop (read : String → Nat → Nat → c.Reading Bytes) (id : String) (map : ResourceMap)
    (offset length : Nat) : Nat → Bytes → c.Reading Bytes
  | 0, done => return done
  | fuel + 1, done =>
    if done.length < length then do
      let position := offset + done.length
      let (target, targetOffset, stop) ← c.mapTarget id map position
      let take := min (stop - position) (length - done.length)
      refuseIf (take = 0) (.malformed "map makes no progress")
      let bytes ← read target targetOffset take
      readMapLoop read id map offset length fuel (done ++ bytes)
    else return done

/-- The loop over the chunks of an image stream; every turn copies at least a byte. -/
def readChunkLoop (useDecodedCache : Bool) (stream : c.OpenedStream) (offset length : Nat) :
    Nat → Bytes → c.Reading Bytes
  | 0, done => return done
  | fuel + 1, done =>
    if done.length < length then do
      let position := offset + done.length
      let decoded ← c.readChunk useDecodedCache stream (position / stream.chunkSize)
      let start := position % stream.chunkSize
      let take := min (decoded.length - start) (length - done.length)
      readChunkLoop useDecodedCache stream offset length fuel (done ++ slice decoded start take)
    else return done

/-- The branch of `read_inner_impl` for a resource with a data stream. -/
def readTarget (read : String → Nat → Nat → c.Reading Bytes) (id target : String)
    (size offset length : Nat) : c.Reading Bytes := do
  if c.hasType id "ContiguousImage" ∧ c.hasType target "Map" then
    let map ← c.loadMap target
    checkContiguous map size
    read target offset length
  else read target offset length

/-- The branches of `read_inner_impl` for segments, maps and image streams. -/
def readOwn (read : String → Nat → Nat → c.Reading Bytes) (useDecodedCache : Bool) (id : String)
    (size offset length : Nat) : c.Reading Bytes := do
  if c.isZipSegment id then c.readZipSegment id size offset length
  else if c.hasType id "Map" then
    let map ← c.loadMap id
    c.readMapLoop read id map offset length length []
  else
    refuseIf (¬ c.hasType id "ImageStream") (.unsupported s!"stream kind: {id}")
    let stream ← c.openStream id
    c.readChunkLoop useDecodedCache stream offset length length []

/-- The part of `read_inner_impl` behind the range check. -/
def readStored (read : String → Nat → Nat → c.Reading Bytes) (useDecodedCache : Bool) (id : String)
    (size offset length : Nat) : c.Reading Bytes := do
  match ← c.inlineData id with
  | some data => return slice data offset length
  | none =>
    match ← c.value id "dataStream" with
    | some target => c.readTarget read id target size offset length
    | none => c.readOwn read useDecodedCache id size offset length

/-- `read_inner` and `read_inner_impl`; the first argument counts the references that may
still follow. -/
def readInner (useDecodedCache : Bool) : Nat → List String → String → Nat → Nat → c.Reading Bytes
  | 0, _, _, _, _ => throw (.malformed "cyclic or excessively deep stream references")
  | depth + 1, visited, id, offset, length => do
    let visited ← enter id visited
    match symbolicByte id with
    | some byte => return List.replicate length (← byte)
    | none =>
      let size ← c.size id
      refuseIf ((checkedAdd offset length).all (size < ·))
        (.malformed "target range exceeds stream")
      c.readStored (readInner useDecodedCache depth visited) useDecodedCache id size offset length

/-- `read_inner` from a selected resource. -/
def readResource (useDecodedCache : Bool) (id : String) (offset length : Nat) : c.Reading Bytes :=
  c.readInner useDecodedCache 32 [] id offset length

/-- `read_at_impl` into a buffer of `length` bytes. -/
def readAtImpl (useDecodedCache : Bool) (id : String) (offset length : Nat) :
    c.Reading Bytes := do
  let size ← c.size id
  if size ≤ offset ∨ length = 0 then return []
  else c.readResource useDecodedCache id offset (min (size - offset) length)

def readAt (id : String) (offset length : Nat) : c.Reading Bytes := c.readAtImpl true id offset length

def readAtUncached (id : String) (offset length : Nat) : c.Reading Bytes :=
  c.readAtImpl false id offset length

/-! ## Answers without caches -/

def answer : ∀ query : c.Query, Result (Query.Answer c query)
  | .map id => c.map id
  | .chunk _ stream chunk => c.chunk stream.toImageStream chunk
  | .clear => .ok ()

end Container

/-! ## Caches -/

def decodedCacheCapacityBytes : Nat := 128 * 1024 * 1024

inductive DecodedCacheKey
  | chunk (volume resource : String) (chunk : Nat)
  | diskPage (volume resource : String) (offset : Nat)
  deriving DecidableEq

variable {lru : Interface}

structure DecodedChunkCache (lru : Interface) where
  entries : lru.Cache DecodedCacheKey Bytes := lru.new none
  capacityBytes : Nat := decodedCacheCapacityBytes
  currentBytes : Nat := 0
  peakBytes : Nat := 0

namespace DecodedChunkCache

/-- `get_chunk` and `get_page`. -/
def get (cache : DecodedChunkCache lru) (key : DecodedCacheKey) :
    Option Bytes × DecodedChunkCache lru :=
  let (value, entries) := lru.get cache.entries key
  (value, { cache with entries })

/-- The loop of `insert` that evicts; every turn drops an entry. -/
def evict : Nat → DecodedChunkCache lru → DecodedChunkCache lru
  | 0, cache => cache
  | fuel + 1, cache =>
    if cache.capacityBytes < cache.currentBytes then
      match lru.popLru cache.entries with
      | (some (_, evicted), entries) =>
        evict fuel { cache with entries, currentBytes := cache.currentBytes - evicted.length }
      | (none, _) => cache
    else cache

def insert (cache : DecodedChunkCache lru) (key : DecodedCacheKey) (decoded : Bytes) :
    DecodedChunkCache lru :=
  if cache.capacityBytes < decoded.length then cache
  else
    let previous := lru.peek cache.entries key
    let cache := { cache with
      entries := lru.put cache.entries key decoded
      currentBytes := saturatingAdd (cache.currentBytes - (previous.map List.length).getD 0)
        decoded.length }
    let cache := cache.evict (lru.entries cache.entries).length
    { cache with peakBytes := max cache.peakBytes cache.currentBytes }

def clear (cache : DecodedChunkCache lru) : DecodedChunkCache lru :=
  { cache with entries := lru.clear cache.entries, currentBytes := 0 }

end DecodedChunkCache

/-- What a container keeps between reads: one member and one index, the stored member that is read
directly, decoded chunks, and the maps that were looked up. -/
structure Caches (lru : Interface) where
  cache : Option (String × Bytes) := none
  indexCache : Option (String × Bytes) := none
  storedMember : Option Container.StoredMember := none
  decodedCache : DecodedChunkCache lru := {}
  maps : TreeMap String ResourceMap := ∅

namespace Container

/-- A computation on the caches. -/
abbrev Cached (lru : Interface) (α : Type) := EStateM Error (Caches lru) α

def fromResult {α : Type} : Result α → Cached lru α
  | .ok a => pure a
  | .error e => throw e

variable (c : Container)

def cachedMap (id : String) : Cached lru ResourceMap := do
  match (← get).maps[id]? with
  | some map => return map
  | none =>
    let ranges ← fromResult (c.mapRanges id)
    -- one map at a time is retained
    modify fun s => { s with maps := ∅ }
    let gap ← fromResult (c.mapGap id)
    modify fun s => { s with maps := s.maps.insert id { ranges, gap } }
    return { ranges, gap }

/-- The value of a slot that holds one named value; another name is looked up and replaces it. -/
def retained {α : Type} (slot : Caches lru → Option (String × α))
    (store : String × α → Caches lru → Caches lru)
    (look : String → Result α) (name : String) : Cached lru α := do
  match ((← get) |> slot).filter (·.1 = name) with
  | some (_, value) => return value
  | none =>
    let value ← fromResult (look name)
    modify (store (name, value))
    return value

def cachedIndex (name : String) : Cached lru Bytes :=
  retained Caches.indexCache (fun entry s => { s with indexCache := some entry })
    (fun name => c.archive.member (name ++ ".index") c.limits.memberBytes) name

def cachedStoredMember (name : String) : Cached lru StoredMember :=
  retained (fun s => s.storedMember.map fun member => (member.name, member))
    (fun entry s => { s with storedMember := some entry.2 }) c.storedMember name

def cachedMember (name : String) : Cached lru Bytes :=
  retained Caches.cache (fun entry s => { s with cache := some entry })
    (fun name => c.archive.member name c.limits.memberBytes) name

/-- The bytes of a chunk as they are stored. -/
def encodedChunk (name : String) (offset length : Nat) : Cached lru Bytes := do
  let member ← c.cachedStoredMember name
  match ← fromResult (StoredMember.range c member offset length) with
  | some direct =>
    modify fun s => { s with cache := none }
    return direct
  | none =>
    let data ← c.cachedMember name
    fromResult (memberPart data offset length)

/-- `get_chunk`, when the decoded cache is used. -/
def cachedChunk (useDecodedCache : Bool) (key : DecodedCacheKey) : Cached lru (Option Bytes) := do
  if useDecodedCache then
    let (cached, decodedCache) := (← get).decodedCache.get key
    modify fun s => { s with decodedCache }
    return cached
  else return none

def retainChunk (useDecodedCache : Bool) (key : DecodedCacheKey) (decoded : Bytes) :
    Cached lru Unit :=
  modify fun s => if useDecodedCache then
    { s with decodedCache := s.decodedCache.insert key decoded } else s

def fetchChunk (useDecodedCache : Bool) (stream : ImageStream) (chunk : Nat) :
    Cached lru Bytes := do
  let key := .chunk c.volume stream.id chunk
  match ← cachedChunk useDecodedCache key with
  | some decoded => return decoded
  | none =>
    let name := stream.bevyName chunk
    let index ← c.cachedIndex name
    let (offset, length) ← fromResult (c.chunkRecord index (chunk % stream.perBevy))
    let encoded ← c.encodedChunk name offset length
    let decoded ← fromResult (c.decodeChunk stream encoded length)
    retainChunk useDecodedCache key decoded
    return decoded

/-- What `copy_verified` forgets before it starts. -/
def dropCaches : Cached lru Unit :=
  modify fun s => { s with
    cache := none
    indexCache := none
    decodedCache := s.decodedCache.clear
    maps := ∅ }

/-- The answers of the caches. -/
def serve : ∀ query : c.Query, Cached lru (Query.Answer c query)
  | .map id => c.cachedMap id
  | .chunk useDecodedCache stream chunk => c.fetchChunk useDecodedCache stream.toImageStream chunk
  | .clear => dropCaches

end Container

end EwfImage.Aff4
