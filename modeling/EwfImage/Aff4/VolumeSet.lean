import EwfImage.Aff4.Coherent

/-!
# Volume sets

A set of volumes that share a cache of decoded data. The disks of a set are described by the
map of a primary volume, whose ranges are read from the volumes that own their targets. Disk
reads below the size of a page go through a cache of pages.

The volumes have distinct identifiers, which opening a set checks, and an owner index says which
volume has a resource. A failed page falls back to reading the range. The library that keeps the
cache is a parameter, as it is for one container. Paths of volumes are left out.
-/

namespace EwfImage.Aff4

open Fallible LruCache Queries Slice Std Word

def isSymbolic (id : String) : Bool :=
  id = ns ++ "Zero" ∨ startsWith id (ns ++ "SymbolicStream") ∨ id = ns ++ "UnknownData" ∨
    id = ns ++ "UnreadableData"

/-- The volumes of a set, whose identifiers differ, and which of them owns a stream. -/
structure VolumeSet where
  volumes : List Container
  owners : TreeMap String (Fin volumes.length)
  distinct : (volumes.map Container.volume).Nodup

/-! ## Owners -/

section Owners

variable (volumes : List Container)

/-- Whether a volume stores the data of a stream of the given size. -/
def ownsStream (volume : Container) (id : String) (size : Nat) : Result Bool := do
  let path ← volume.path id
  if size = 0 then return (← volume.value id "stored") = some volume.volume
  else return volume.archive.hasName (path ++ "/00000000")

/-- A turn of the loop over the streams of a volume. -/
def ownStream (index : Fin volumes.length) (owners : TreeMap String (Fin volumes.length))
    (id : String) : Result (TreeMap String (Fin volumes.length)) := do
  let volume := volumes.get index
  let stored ← volume.value id "stored"
  let missing := stored.filter (· ∉ volumes.map Container.volume)
  (match missing with
    | some stored => .error (.malformed s!"missing source volume {stored}")
    | none => .ok ())
  match volume.number id "size" with
  | .error _ => return owners
  | .ok size =>
    if ← ownsStream volume id size then
      refuseIf (stored.any (· ≠ volume.volume))
        (.malformed "local stream conflicts with declared owner")
      refuseIf (owners.contains id) (.malformed s!"ambiguous stream owner: {id}")
      return owners.insert id index
    else return owners

def collectOwners : Result (TreeMap String (Fin volumes.length)) :=
  (List.finRange volumes.length).foldlM (fun owners index =>
    let volume := volumes.get index
    (volume.graph.keys.filter fun id => volume.hasType id "ImageStream").foldlM
      (ownStream volumes index) owners) ∅

/-- The properties of a stream on which the volumes must agree. -/
def streamKeys : List String := ["size", "chunkSize", "chunksInSegment", "compressionMethod", "stored"]

/-- What a volume says about a stream of another one does not contradict it. -/
def checkOwned (owner volume : Container) (id key : String) : Result Unit := do
  match ← volume.value id key with
  | none => return ()
  | some value =>
    let expected ← (if key = "stored" then .ok (some owner.volume) else owner.value id key)
    refuseIf (expected ≠ some value) (.malformed s!"conflicting {key} for {id}")

def checkOwners (owners : TreeMap String (Fin volumes.length)) : Result Unit :=
  owners.toList.forM fun (id, owner) => volumes.forM fun volume => do
    if volume.graph.contains id then
      streamKeys.forM (checkOwned (volumes.get owner) volume id)
    else return ()

/-- `from_containers`. -/
def VolumeSet.fromContainers : Result VolumeSet :=
  if distinct : (volumes.map Container.volume).Nodup then do
    let owners ← collectOwners volumes
    checkOwners volumes owners
    return { volumes, owners, distinct }
  else .error (.malformed "duplicate volume identifier")

end Owners

/-! ## Maps of disks -/

namespace VolumeSet

variable (set : VolumeSet)

/-- The index of a volume. -/
abbrev Index := Fin set.volumes.length

def volume (index : set.Index) : Container := set.volumes.get index

/-- The check of a range of a disk's map, with the end of the ranges before it. -/
def checkRange (contiguous : Bool) (stop : Nat) (range : MapRange) : Result Nat := do
  refuseIf (contiguous ∧ range.start ≠ stop) (.malformed "gap in contiguous image")
  if isSymbolic range.target then return range.stop
  else
    let target := range.target
    let owner ← okOr (.malformed s!"missing owner for {target}") set.owners[target]?
    let size ← (set.volume owner).number target "size"
    refuseIf ((checkedAdd range.offset (range.stop - range.start)).all (size < ·))
      (.malformed "map exceeds owned stream")
    return range.stop

/-- The checks of a loaded map; the size of the disk. -/
def checkMap (primary : set.Index) (id target : String) (map : ResourceMap) : Result Nat := do
  let c := set.volume primary
  let size ← c.number target "size"
  if (← c.value id "size").isSome then
    refuseIf ((← c.number id "size") ≠ size) (.malformed "image/map size mismatch")
  let contiguous := c.hasType id "ContiguousImage"
  let stop ← map.ranges.foldlM (set.checkRange contiguous) 0
  refuseIf (contiguous ∧ stop ≠ size) (.malformed "truncated contiguous map")
  refuseIf (¬ isSymbolic map.gap ∧ ¬ set.owners.contains map.gap)
    (.unsupported "external/nested gap stream")
  return size

/-- The map that describes a disk. -/
def mapTarget (primary : set.Index) (id : String) : Result String := do
  let c := set.volume primary
  refuseIf (¬ c.hasType id "DiskImage") (.unsupported "select a primary DiskImage")
  okOr (.malformed "image has no dataStream") (← c.value id "dataStream")

/-- The map and the size of a disk. -/
def diskMap (primary : set.Index) (id : String) : Result (ResourceMap × Nat) := do
  let target ← set.mapTarget primary id
  let map ← (set.volume primary).map target
  let size ← set.checkMap primary id target map
  return (map, size)

/-- `map_interval`: the target of a position, the address there, and where the target ends. -/
def mapInterval (map : ResourceMap) (position size : Nat) : String × Nat × Nat :=
  -- `partition_point`: the ranges are in order
  match map.ranges.find? (position < ·.stop) with
  | some range =>
    if range.start ≤ position then
      (range.target, range.offset + position - range.start, range.stop)
    else (map.gap, position, range.start)
  | none => (map.gap, position, size)

/-- The volume that a target is read from; symbolic ones are read from the first. -/
def owner (primary : set.Index) (target : String) : Result set.Index :=
  if isSymbolic target then .ok ⟨0, Nat.zero_lt_of_lt primary.isLt⟩
  else okOr (.malformed "missing target volume") set.owners[target]?

/-! ## Disk reads without pages -/

/-- What a disk read asks. -/
inductive Query where
  /-- `image_map_in`. -/
  | diskMap (primary : set.Index) (id : String)
  /-- `read_inner` of a volume. -/
  | read (useDecodedCache : Bool) (owner : set.Index) (id : String) (offset length : Nat)
  /-- `read_at_impl` of a volume. -/
  | readAt (useDecodedCache : Bool) (owner : set.Index) (id : String) (offset length : Nat)

def Query.Answer : set.Query → Type
  | .diskMap .. => ResourceMap × Nat
  | .read .. => Bytes
  | .readAt .. => Bytes

abbrev Reading (α : Type) := Program set.Query (Query.Answer set) Error α

def imageMapIn (primary : set.Index) (id : String) : set.Reading (ResourceMap × Nat) :=
  .request (Query.diskMap primary id)

def readOwned (useDecodedCache : Bool) (owner : set.Index) (id : String) (offset length : Nat) :
    set.Reading Bytes := .request (Query.read useDecodedCache owner id offset length)

/-- The loop over the ranges of a disk's map; every turn reads at least a byte. -/
def readDiskLoop (useDecodedCache : Bool) (primary : set.Index) (map : ResourceMap)
    (size offset length : Nat) : Nat → Bytes → set.Reading Bytes
  | 0, done => return done
  | fuel + 1, done =>
    if done.length < length then do
      let position := offset + done.length
      let (target, start, stop) := mapInterval map position size
      let take := min (stop - position) (length - done.length)
      let owner ← set.owner primary target
      let bytes ← set.readOwned useDecodedCache owner target start take
      readDiskLoop useDecodedCache primary map size offset length fuel (done ++ bytes)
    else return done

/-- `read_disk_at_impl`. -/
def readDiskAtImpl (useDecodedCache : Bool) (primary : set.Index) (mapped : Bool) (id : String)
    (offset length : Nat) : set.Reading Bytes := do
  if mapped then
    let (map, size) ← set.imageMapIn primary id
    if size ≤ offset then return []
    else
      let length := min (size - offset) length
      set.readDiskLoop useDecodedCache primary map size offset length length []
  else .request (Query.readAt useDecodedCache primary id offset length)

def diskSize (primary : set.Index) (mapped : Bool) (id : String) : set.Reading Nat := do
  if mapped then
    let (_, size) ← set.imageMapIn primary id
    return size
  else (set.volume primary).size id

/-- The answers without caches. -/
def answer : ∀ query : set.Query, Result (Query.Answer set query)
  | .diskMap primary id => set.diskMap primary id
  | .read useDecodedCache owner id offset length =>
    ((set.volume owner).readResource useDecodedCache id offset length).eval (set.volume owner).answer
  | .readAt useDecodedCache owner id offset length =>
    ((set.volume owner).readAtImpl useDecodedCache id offset length).eval (set.volume owner).answer

/-! ## Caches -/

variable {lru : Interface}

/-- What a set keeps between reads: the caches of its volumes, of which the decoded one is shared,
the last validated map, and the volume that was read last. -/
structure SetCaches (lru : Interface) where
  volumes : set.Index → Caches lru := fun _ => {}
  decodedCache : DecodedChunkCache lru := {}
  validated : Option ((set.Index × String) × ResourceMap × Nat) := none
  cachedOwner : Option set.Index := none

variable {set} in
/-- The caches of a volume, with the shared one. -/
def SetCaches.volume (s : set.SetCaches lru) (index : set.Index) : Caches lru :=
  { s.volumes index with decodedCache := s.decodedCache }

variable {set} in
def SetCaches.withVolume (s : set.SetCaches lru) (index : set.Index) (caches : Caches lru) :
    set.SetCaches lru :=
  { s with
    volumes := Function.update s.volumes index caches
    decodedCache := caches.decodedCache }

/-- A computation on the caches of a set. -/
abbrev Cached (lru : Interface) (α : Type) := EStateM Error (set.SetCaches lru) α

/-- A computation on the caches of a volume. -/
def onVolume {α : Type} (index : set.Index) (x : Container.Cached lru α) : set.Cached lru α :=
  fun s => match x (s.volume index) with
    | .ok a caches => .ok a (s.withVolume index caches)
    | .error e caches => .error e (s.withVolume index caches)

def fromResult {α : Type} : Result α → set.Cached lru α
  | .ok a => pure a
  | .error e => throw e

/-- `image_map_in`. -/
def cachedDiskMap (primary : set.Index) (id : String) : set.Cached lru (ResourceMap × Nat) := do
  match (← get).validated.filter (·.1 = (primary, id)) with
  | some (_, found) => return found
  | none =>
    let target ← set.fromResult (set.mapTarget primary id)
    let map ← set.onVolume primary ((set.volume primary).cachedMap target)
    -- the set retains one validated map, not one for every volume
    set.onVolume primary (modify fun s => { s with maps := ∅ })
    let size ← set.fromResult (set.checkMap primary id target map)
    modify fun s => { s with validated := some ((primary, id), map, size) }
    return (map, size)

/-- What `clear_previous_cache` forgets of the volume that was read last. -/
def forget (owner : set.Index) : set.Cached lru Unit := do
  let s ← get
  if s.cachedOwner ≠ some owner then
    (match s.cachedOwner with
      | some previous => set.onVolume previous (modify fun caches =>
          { caches with cache := none, indexCache := none, maps := ∅ })
      | none => pure ())
    modify fun s => { s with cachedOwner := some owner }

def serve : ∀ query : set.Query, set.Cached lru (Query.Answer set query)
  | .diskMap primary id => set.cachedDiskMap primary id
  | .read useDecodedCache owner id offset length => do
    set.forget owner
    set.onVolume owner (((set.volume owner).readResource useDecodedCache id offset length).run
      (set.volume owner).serve)
  | .readAt useDecodedCache owner id offset length => do
    set.forget owner
    set.onVolume owner (((set.volume owner).readAtImpl useDecodedCache id offset length).run
      (set.volume owner).serve)

/-! ## Disk reads with pages -/

/-- `LOGICAL_READ_AHEAD_BYTES`. -/
def pageBytes : Nat := 1024 * 1024

def diskPageKey (primary : set.Index) (id : String) (offset : Nat) : DecodedCacheKey :=
  .diskPage (set.volume primary).volume id offset

/-- `get_page`. -/
def getPage (key : DecodedCacheKey) : set.Cached lru (Option Bytes) := do
  let (page, decodedCache) := (← get).decodedCache.get key
  modify fun s => { s with decodedCache }
  return page

def insertPage (key : DecodedCacheKey) (page : Bytes) : set.Cached lru Unit :=
  modify fun s => { s with decodedCache := s.decodedCache.insert key page }

/-- The loop of `retain_complete_pages`; every turn retains a page of the bytes that were read. -/
def retainLoop (pageLength : Nat) (primary : set.Index) (id : String) (bytes : Bytes)
    (offset stop : Nat) : Nat → Nat → set.Cached lru Unit
  | 0, _ => return ()
  | fuel + 1, pageStart =>
    match checkedAdd pageStart pageLength with
    | some pageStop =>
      if stop < pageStop then return ()
      else do
        set.insertPage (set.diskPageKey primary id pageStart)
          (slice bytes (pageStart - offset) pageLength)
        retainLoop pageLength primary id bytes offset stop fuel pageStop
    | none => return ()

def retainCompletePages (primary : set.Index) (id : String) (bytes : Bytes) (offset : Nat) :
    set.Cached lru Unit := do
  let stop ← set.fromResult (okOr (.malformed "AFF4 read offset overflow")
    (checkedAdd offset bytes.length))
  let pageStart ← set.fromResult (if offset % pageBytes = 0 then .ok offset
    else okOr (.malformed "AFF4 page offset overflow")
      (checkedAdd offset (pageBytes - offset % pageBytes)))
  set.retainLoop pageBytes primary id bytes offset stop bytes.length pageStart

/-- A page, cached or read; nothing if it cannot be read. -/
def page (primary : set.Index) (mapped : Bool) (id : String) (size pageStart : Nat) :
    set.Cached lru (Option Bytes) := do
  let key := set.diskPageKey primary id pageStart
  match ← set.getPage key with
  | some cached => return some cached
  | none =>
    let pageLength := min pageBytes (size - pageStart)
    let read ← (fun s => match (set.readDiskAtImpl false primary mapped id pageStart
        pageLength).run set.serve s with
      | .ok page s' => .ok (some page) s'
      | .error _ s' => .ok none s' : set.Cached lru (Option Bytes))
    match read with
    | none => return none
    | some page =>
      if page.length = pageLength then
        set.insertPage key page
        return some page
      else throw (.malformed "truncated AFF4 disk page")

/-- A turn of the loop over pages: the bytes that it reads. -/
def pageTurn (primary : set.Index) (mapped : Bool) (id : String) (size offset length done : Nat) :
    set.Cached lru Bytes := do
  let position ← set.fromResult (okOr (.malformed "AFF4 read offset overflow")
    (checkedAdd offset done))
  let pageStart := position / pageBytes * pageBytes
  let pageOffset := position - pageStart
  match ← set.page primary mapped id size pageStart with
  | some page => return slice page pageOffset (min (page.length - pageOffset) (length - done))
  | none =>
    -- read-ahead must not make a valid range fail
    let take := min (pageBytes - pageOffset) (length - done)
    let bytes ← (set.readDiskAtImpl false primary mapped id position take).run set.serve
    if bytes.length = take then return bytes
    else throw (.malformed "truncated AFF4 disk read")

/-- The loop over pages; every turn reads at least a byte. -/
def pageLoop (primary : set.Index) (mapped : Bool) (id : String) (size offset length : Nat) :
    Nat → Bytes → set.Cached lru Bytes
  | 0, done => return done
  | fuel + 1, done =>
    if done.length < length then do
      let bytes ← set.pageTurn primary mapped id size offset length done.length
      pageLoop primary mapped id size offset length fuel (done ++ bytes)
    else return done

/-- `read_disk_at` into a buffer of `length` bytes. -/
def readDiskAt (primary : set.Index) (mapped : Bool) (id : String) (offset length : Nat) :
    set.Cached lru Bytes := do
  let size ← (set.diskSize primary mapped id).run set.serve
  if size ≤ offset ∨ length = 0 then return []
  else
    let length := min (size - offset) length
    if pageBytes ≤ length then
      let bytes ← (set.readDiskAtImpl false primary mapped id offset length).run set.serve
      set.retainCompletePages primary id bytes offset
      return bytes
    else set.pageLoop primary mapped id size offset length length []

end VolumeSet

end EwfImage.Aff4
