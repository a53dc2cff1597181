import EwfImage.Aff4.History
import EwfImage.Aff4.VolumeSet
import Mathlib.Data.List.Nodup

/-!
# Pages of disks

A disk of a volume set is a partial store of bytes, too: its map gives the volume and the
resource that has the byte of an address. An uncached read delivers this store. The cache that
the volumes share holds parts of it, pages of disks beside chunks of streams, so that a read
through pages returns what the uncached read of its range returns, and fails exactly when that
fails.

The main result is `readDiskAt_eq_uncached`, about every set of volumes, every history of reads
of disks and of resources, every library of caches, and any pages and chunks that the cache
evicts on the way. Success and failure are those of the uncached read of the same range, so a
page is never read in vain beyond the end of a disk. The volumes are opened containers; of the
library of caches the laws of `LruCache.Interface` are assumed, which say nothing of the entry
that a full cache drops.
-/

namespace EwfImage.Aff4

open ByteStore Delivery Fallible LruCache Queries Slice Std Triples Word

namespace VolumeSet

variable (set : VolumeSet)

/-- The size of a disk. -/
def sizeOf (primary : set.Index) (mapped : Bool) (id : String) : Result Nat :=
  (set.diskSize primary mapped id).eval set.answer

/-- The byte of a disk at an address, if it has one. -/
def diskByte (primary : set.Index) (mapped : Bool) (id : String) (position : Nat) :
    Option UInt8 := do
  if mapped then
    let (map, size) ← (set.diskMap primary id).toOption
    let (target, start, _) := mapInterval map position size
    let owner ← (set.owner primary target).toOption
    (set.volume owner).denotes target start
  else (set.volume primary).denotes id position

/-- The uncached read of a range of a disk. -/
def readUncached (primary : set.Index) (mapped : Bool) (id : String) (offset length : Nat) :
    Result Bytes := (set.readDiskAtImpl false primary mapped id offset length).eval set.answer

variable {set} {primary : set.Index} {mapped : Bool} {id : String} {offset length size : Nat}

/-! ## Maps of disks -/

theorem lt_of_mapInterval (map : ResourceMap) {position : Nat} (hin : position < size) :
    position < (mapInterval map position size).2.2 := by
  unfold mapInterval
  cases hfind : map.ranges.find? (position < ·.stop) with
  | some range =>
    have hstop := List.find?_some hfind
    rw [decide_eq_true_eq] at hstop
    dsimp only
    by_cases hstart : range.start ≤ position
    · rw [if_pos hstart]
      exact hstop
    · rw [if_neg hstart]
      exact Nat.lt_of_not_le hstart
  | none => exact hin

/-- Up to its end, the target of a position is the target of the positions that follow. -/
theorem mapInterval_add {map : ResourceMap} {position start stop i : Nat} {target : String}
    (hranges : ∀ range ∈ map.ranges, range.start < range.stop)
    (h : mapInterval map position size = (target, start, stop)) (hi : position + i < stop) :
    mapInterval map (position + i) size = (target, start + i, stop) := by
  unfold mapInterval at h ⊢
  cases hfind : map.ranges.find? (position < ·.stop) with
  | some range =>
    rw [hfind] at h
    have hnonempty := hranges range (List.mem_of_find?_eq_some hfind)
    dsimp only at h
    by_cases hstart : range.start ≤ position
    · rw [if_pos hstart] at h
      cases h
      have hsame : map.ranges.find? (position + i < ·.stop) = some range :=
        Container.find?_of_imp hfind (decide_eq_true hi) fun x hx => by
          rw [decide_eq_true_eq] at hx ⊢
          omega
      rw [hsame]
      dsimp only
      rw [if_pos (by omega),
        show range.offset + (position + i) - range.start =
          range.offset + position - range.start + i by omega]
    · rw [if_neg hstart] at h
      cases h
      have hsame : map.ranges.find? (position + i < ·.stop) = some range :=
        Container.find?_of_imp hfind (decide_eq_true (by omega)) fun x hx => by
          rw [decide_eq_true_eq] at hx ⊢
          omega
      rw [hsame]
      dsimp only
      rw [if_neg (by omega)]
  | none =>
    rw [hfind] at h
    cases h
    have hsame : map.ranges.find? (position + i < ·.stop) = none := by
      rw [List.find?_eq_none] at hfind ⊢
      intro range hrange
      have hnot := hfind range hrange
      rw [decide_eq_true_eq] at hnot ⊢
      omega
    rw [hsame]

/-- What the checks of a disk's map say. -/
structure CheckedMap (set : VolumeSet) (primary : set.Index) (id target : String)
    (map : ResourceMap) (size : Nat) : Prop where
  number : (set.volume primary).number target "size" = .ok size
  declared : ∃ found, (set.volume primary).value id "size" = .ok found ∧
    (found.isSome → (set.volume primary).number id "size" = .ok size)
  contiguous : (set.volume primary).hasType id "ContiguousImage" →
    Container.checkContiguous map size = .ok ()
  owned : ∀ range ∈ map.ranges, ∃ owner, set.owner primary range.target = .ok owner
  gap : ∃ owner, set.owner primary map.gap = .ok owner

theorem owner_of_symbolic {target : String} (h : isSymbolic target) :
    ∃ owner, set.owner primary target = .ok owner :=
  ⟨_, if_pos h⟩

theorem owner_of_some {target : String} {owner : set.Index} (h : set.owners[target]? = some owner) :
    ∃ owner, set.owner primary target = .ok owner := by
  by_cases hsymbolic : isSymbolic target = true
  · exact owner_of_symbolic hsymbolic
  · refine ⟨owner, ?_⟩
    rw [VolumeSet.owner, if_neg hsymbolic, h]
    rfl

theorem checkRange_spec (primary : set.Index) {contiguous : Bool} {range : MapRange} {start stop : Nat}
    (h : set.checkRange contiguous start range = .ok stop) :
    (contiguous = true → range.start = start) ∧ range.stop = stop ∧
      ∃ owner, set.owner primary range.target = .ok owner := by
  simp only [checkRange, bind_eq_ok, refuseIf, rejectIf_eq_ok] at h
  obtain ⟨_, hgap, h⟩ := h
  have hstart : contiguous = true → range.start = start := by
    intro hcontiguous
    by_contra hne
    exact hgap ⟨hcontiguous, hne⟩
  by_cases hsymbolic : isSymbolic range.target = true
  · rw [if_pos hsymbolic] at h
    exact ⟨hstart, Except.ok.inj h, owner_of_symbolic hsymbolic⟩
  · rw [if_neg hsymbolic] at h
    simp only [bind_eq_ok, okOr_eq_ok, pure_eq_ok] at h
    obtain ⟨owner, howner, _, -, _, -, hstop⟩ := h
    exact ⟨hstart, Except.ok.inj hstop, owner_of_some howner⟩

/-- The ranges of a map, one after the other. -/
theorem checkRanges_spec (primary : set.Index) {contiguous : Bool} {ranges : List MapRange} {start stop : Nat}
    (h : ranges.foldlM (set.checkRange contiguous) start = .ok stop) :
    (contiguous = true → ranges.foldlM (fun stop range => do
      rejectIf (range.start ≠ stop) (Error.malformed "gap in declared contiguous image")
      return range.stop) start = .ok stop) ∧
      ∀ range ∈ ranges, ∃ owner, set.owner primary range.target = .ok owner := by
  induction ranges generalizing start with
  | nil => exact ⟨fun _ => h, fun _ hnil => (by cases hnil)⟩
  | cons range rest ih =>
    rw [List.foldlM_cons, bind_eq_ok] at h
    obtain ⟨middle, hfirst, hrest⟩ := h
    obtain ⟨hstart, rfl, howner⟩ := checkRange_spec primary hfirst
    obtain ⟨hcontiguous, howners⟩ := ih hrest
    refine ⟨fun hdeclared => ?_, fun other hother => ?_⟩
    · rw [List.foldlM_cons, rejectIf_neg _ (not_not.mpr (hstart hdeclared)), ok_bind]
      exact hcontiguous hdeclared
    · rcases List.mem_cons.mp hother with rfl | hmem
      · exact howner
      · exact howners other hmem

theorem checkMap_spec {target : String} {map : ResourceMap}
    (h : set.checkMap primary id target map = .ok size) :
    CheckedMap set primary id target map size := by
  unfold checkMap at h
  rw [bind_eq_ok] at h
  obtain ⟨declared, hnumber, h⟩ := h
  rw [bind_eq_ok] at h
  obtain ⟨found, hfound, h⟩ := h
  obtain ⟨hdeclared, h⟩ : (found.isSome → (set.volume primary).number id "size" = .ok declared) ∧
      (do
        let stop ← map.ranges.foldlM
          (set.checkRange ((set.volume primary).hasType id "ContiguousImage")) 0
        refuseIf ((set.volume primary).hasType id "ContiguousImage" ∧ stop ≠ declared)
          (.malformed "truncated contiguous map")
        refuseIf (¬ isSymbolic map.gap ∧ ¬ set.owners.contains map.gap)
          (.unsupported "external/nested gap stream")
        return declared : Result Nat) = .ok size := by
    by_cases hsome : found.isSome = true
    · rw [if_pos hsome] at h
      rw [bind_eq_ok] at h
      obtain ⟨n, hn, h⟩ := h
      simp only [refuseIf, bind_eq_ok, rejectIf_eq_ok, ne_eq, not_not] at h
      obtain ⟨_, hsame, h⟩ := h
      refine ⟨fun _ => hsame ▸ hn, ?_⟩
      simp only [refuseIf, bind_eq_ok, rejectIf_eq_ok]
      exact h
    · rw [if_neg hsome] at h
      exact ⟨fun hcontra => absurd hcontra hsome, h⟩
  simp only [refuseIf, bind_eq_ok, rejectIf_eq_ok, pure_eq_ok] at h
  obtain ⟨stop, hranges, _, htruncated, _, hgap, hsize⟩ := h
  cases hsize
  obtain ⟨hcontiguous, howned⟩ := checkRanges_spec primary hranges
  refine ⟨hnumber, ⟨found, hfound, hdeclared⟩, fun hdeclared => ?_, howned, ?_⟩
  · have hstop : stop = size := by
      by_contra hne
      exact htruncated ⟨hdeclared, hne⟩
    unfold Container.checkContiguous
    rw [hcontiguous hdeclared, ok_bind, rejectIf_neg _ (not_not.mpr hstop)]
  · by_cases hsymbolic : isSymbolic map.gap = true
    · exact owner_of_symbolic hsymbolic
    · have hcontains : set.owners.contains map.gap = true := by
        by_contra hnone
        exact hgap ⟨hsymbolic, hnone⟩
      rw [TreeMap.contains_eq_isSome_getElem?, Option.isSome_iff_exists] at hcontains
      obtain ⟨owner, howner⟩ := hcontains
      exact owner_of_some howner

theorem diskMap_spec {map : ResourceMap} (h : set.diskMap primary id = .ok (map, size)) :
    size < u64Limit ∧ ∀ range ∈ map.ranges, range.start < range.stop := by
  simp only [diskMap, bind_eq_ok, pure_eq_ok] at h
  obtain ⟨target, -, map', hmap, size', hcheck, hfound⟩ := h
  cases hfound
  obtain ⟨declared, -, hranges⟩ := Container.map_spec hmap
  exact ⟨Container.number_lt (checkMap_spec hcheck).number, hranges.nonempty⟩

/-! ## Uncached reads deliver disks -/

theorem eval_readDiskLoop (useDecodedCache : Bool) (map : ResourceMap) (fuel : Nat) (done : Bytes) :
    (set.readDiskLoop useDecodedCache primary map size offset length fuel done).eval set.answer =
      pieceLoop (fun start => do
        let (target, address, stop) := mapInterval map (offset + start) size
        let owner ← set.owner primary target
        ((set.volume owner).readResource useDecodedCache target address
          (min (stop - (offset + start)) (length - start))).eval (set.volume owner).answer)
        length fuel done := by
  induction fuel generalizing done with
  | zero => rfl
  | succ fuel ih =>
    rw [readDiskLoop, pieceLoop, Program.eval_ite]
    congr 1
    dsimp only
    rw [Program.eval_bind, Program.eval_lift]
    cases set.owner primary (mapInterval map (offset + done.length) size).1 with
    | error e => rfl
    | ok owner =>
      rw [ok_bind, ok_bind, Program.eval_bind]
      change (((set.volume owner).readResource useDecodedCache _ _ _).eval _ >>= _) = _
      congr 1
      funext bytes
      exact ih _

theorem diskByte_of_mapped {map : ResourceMap} (hmap : set.diskMap primary id = .ok (map, size))
    (position : Nat) : set.diskByte primary true id position =
      ((set.owner primary (mapInterval map position size).1).toOption >>= fun owner =>
        (set.volume owner).denotes (mapInterval map position size).1
          (mapInterval map position size).2.1) := by
  unfold diskByte
  rw [if_pos rfl, hmap]
  rfl

theorem delivers_readDiskLoop (useDecodedCache : Bool) {map : ResourceMap}
    (hmap : set.diskMap primary id = .ok (map, size)) (hfits : offset + length ≤ size) :
    Delivers (set.diskByte primary true id) offset length
      ((set.readDiskLoop useDecodedCache primary map size offset length length []).eval
        set.answer) := by
  rw [eval_readDiskLoop]
  refine delivers_pieceLoop (fun start hstart => ?_) rfl (Nat.zero_le _) (by simp)
  have hranges := (diskMap_spec hmap).2
  rcases htarget : mapInterval map (offset + start) size with ⟨target, address, stop⟩
  have hstop : offset + start < stop := by
    have hbehind := lt_of_mapInterval map (show offset + start < size by omega)
    rw [htarget] at hbehind
    exact hbehind
  refine ⟨min (stop - (offset + start)) (length - start), by omega, by omega, ?_⟩
  dsimp only
  cases howner : set.owner primary target with
  | error e =>
    refine delivers_error (i := 0) (by omega) ?_
    rw [diskByte_of_mapped hmap, Nat.add_zero, htarget]
    dsimp only
    rw [howner]
    rfl
  | ok owner =>
    rw [ok_bind]
    refine (Container.delivers_readResource useDecodedCache (by omega)).shift fun i hi => ?_
    rw [diskByte_of_mapped hmap, mapInterval_add hranges htarget (by omega)]
    dsimp only
    rw [howner]
    rfl

theorem sizeOf_mapped : set.sizeOf primary true id =
    (set.diskMap primary id >>= fun found => .ok found.2) := by
  unfold sizeOf diskSize
  rw [if_pos rfl, Program.eval_bind]
  rfl

theorem eval_readDiskAtImpl_mapped (useDecodedCache : Bool) :
    (set.readDiskAtImpl useDecodedCache primary true id offset length).eval set.answer =
      (set.diskMap primary id >>= fun found =>
        if found.2 ≤ offset then .ok []
        else (set.readDiskLoop useDecodedCache primary found.1 found.2 offset
          (min (found.2 - offset) length) (min (found.2 - offset) length) []).eval set.answer) := by
  change Program.eval set.answer (set.imageMapIn primary id >>= _) = _
  rw [Program.eval_bind]
  change (set.diskMap primary id >>= _) = _
  congr 1
  funext found
  exact Program.eval_ite _ _

theorem sizeOf_lt (hsize : set.sizeOf primary mapped id = .ok size) : size < u64Limit := by
  cases mapped with
  | true =>
    rw [sizeOf_mapped, bind_eq_ok] at hsize
    obtain ⟨found, hmap, hsize⟩ := hsize
    cases hsize
    exact (diskMap_spec hmap).1
  | false => exact Container.size_lt hsize

/-- An uncached read delivers what is left of the disk at its offset. -/
theorem delivers_readDiskAtImpl (useDecodedCache : Bool) (offset length : Nat)
    (hsize : set.sizeOf primary mapped id = .ok size) :
    Delivers (set.diskByte primary mapped id) offset (min (size - offset) length)
      ((set.readDiskAtImpl useDecodedCache primary mapped id offset length).eval set.answer) := by
  cases mapped with
  | true =>
    rw [sizeOf_mapped, bind_eq_ok] at hsize
    obtain ⟨⟨map, size'⟩, hmap, hsize⟩ := hsize
    cases hsize
    rw [eval_readDiskAtImpl_mapped, hmap, ok_bind]
    by_cases hbehind : size' ≤ offset
    · rw [if_pos hbehind, show min (size' - offset) length = 0 by omega]
      exact delivers_ok rfl
    · rw [if_neg hbehind]
      exact delivers_readDiskLoop useDecodedCache hmap (by omega)
  | false => exact Container.delivers_readAtImpl useDecodedCache hsize

/-- Without a size nothing is read. -/
theorem readUncached_of_size_error {e : Error} (hsize : set.sizeOf primary mapped id = .error e) :
    set.readUncached primary mapped id offset length = .error e := by
  cases mapped with
  | true =>
    rw [sizeOf_mapped] at hsize
    rw [readUncached, eval_readDiskAtImpl_mapped]
    cases hmap : set.diskMap primary id with
    | error e' =>
      rw [hmap] at hsize
      cases hsize
      rfl
    | ok found =>
      rw [hmap] at hsize
      cases hsize
  | false => exact Container.readAtImpl_of_size_error false hsize

/-! ## Coherent caches of a set -/

section Coherence

/-- Whether a disk of a primary volume is read through its map. -/
abbrev Mapping (set : VolumeSet) := set.Index → String → Bool

/-- What an entry of the shared cache must be: a chunk of its stream, or a page of its disk. -/
structure ValidEntry (mapping : Mapping set) (key : DecodedCacheKey) (bytes : Bytes) : Prop where
  chunk : ∀ index, (set.volume index).OwnEntry key bytes
  page : ∀ primary id start, key = set.diskPageKey primary id start →
    ∃ size, set.sizeOf primary (mapping primary id) id = .ok size ∧
      Delivers (set.diskByte primary (mapping primary id) id) start (min pageBytes (size - start))
        (.ok bytes : Result Bytes)

variable {lru : Interface} {mapping : Mapping set}

theorem volume_injective {index other : set.Index}
    (h : (set.volume index).volume = (set.volume other).volume) : index = other := by
  have hget : ∀ index : set.Index,
      (set.volumes.map Container.volume)[index.val]? = some (set.volume index).volume := by
    intro index
    rw [List.getElem?_map, List.getElem?_eq_getElem index.isLt]
    rfl
  have hsame := (hget index).trans ((congrArg some h).trans (hget other).symm)
  exact Fin.ext ((List.getElem?_inj (by simp) set.distinct).mp hsame)

variable (mapping) in
theorem admits_validEntry (index : set.Index) :
    (set.volume index).Admits (ValidEntry mapping) where
  hit stream chunk _ h := h.chunk index stream chunk rfl
  retain stream chunk bytes h := by
    refine ⟨fun other stream' chunk' hkey => ?_, fun _ _ _ hkey => (by cases hkey)⟩
    have hvolume : index = other := by
      simp only [DecodedCacheKey.chunk.injEq] at hkey
      exact volume_injective hkey.1
    subst hvolume
    exact (set.volume index).admits_ownEntry.retain stream chunk bytes h stream' chunk' hkey

/-- The caches of a set hold what looking it up gives. -/
structure Coherent (lru : Interface) (mapping : Mapping set) (s : set.SetCaches lru) : Prop where
  volumes : ∀ index, (set.volume index).Coherent lru (ValidEntry mapping) (s.volume index)
  validated : ∀ primary id found, s.validated = some ((primary, id), found) →
    set.diskMap primary id = .ok found
  decoded : ∀ entry ∈ lru.entries s.decodedCache.entries, ValidEntry mapping entry.1 entry.2

theorem coherent_new : Coherent lru mapping ({} : set.SetCaches lru) where
  volumes _ := Container.coherent_new _ _ _
  validated _ _ _ h := by cases h
  decoded _ h := (Interface.not_mem_new _ _ h).elim

variable {s : set.SetCaches lru}

theorem Coherent.withVolume {index : set.Index} {caches : Caches lru} (h : Coherent lru mapping s)
    (hcaches : (set.volume index).Coherent lru (ValidEntry mapping) caches) :
    Coherent lru mapping (s.withVolume index caches) where
  volumes other := by
    by_cases hsame : other = index
    · subst hsame
      have hvolume : (s.withVolume other caches).volume other = caches := by
        simp [SetCaches.withVolume, SetCaches.volume]
      rw [hvolume]
      exact hcaches
    · have hvolume : (s.withVolume index caches).volume other =
          { s.volume other with decodedCache := caches.decodedCache } := by
        simp [SetCaches.withVolume, SetCaches.volume, Function.update_of_ne hsame]
      rw [hvolume]
      exact (h.volumes other).withDecoded hcaches.decoded
  validated := h.validated
  decoded := hcaches.decoded

theorem Coherent.withDecoded {decodedCache : DecodedChunkCache lru} (h : Coherent lru mapping s)
    (hentries : ∀ entry ∈ lru.entries decodedCache.entries, ValidEntry mapping entry.1 entry.2) :
    Coherent lru mapping { s with decodedCache } where
  volumes index := (h.volumes index).withDecoded hentries
  validated := h.validated
  decoded := hentries

theorem computes_fromResult {α : Type} (r : Result α) :
    Computes (Coherent lru mapping) (set.fromResult r) r := by
  cases r with
  | ok a => exact computes_pure
  | error e => exact computes_throw

/-- What the caches of a volume compute, those of the set do. -/
theorem computes_onVolume {α : Type} {index : set.Index} {x : Container.Cached lru α} {r : Result α}
    (h : Computes ((set.volume index).Coherent lru (ValidEntry mapping)) x r) :
    Computes (Coherent lru mapping) (set.onVolume index x) r := by
  intro s hs
  have hrun := h (s.volume index) (hs.volumes index)
  unfold onVolume
  cases hx : x (s.volume index) with
  | ok a caches =>
    rw [hx] at hrun
    exact ⟨hs.withVolume hrun.1, hrun.2⟩
  | error e caches =>
    rw [hx] at hrun
    exact ⟨hs.withVolume hrun.1, hrun.2⟩

theorem computes_cachedDiskMap (primary : set.Index) (id : String) :
    Computes (Coherent lru mapping) (set.cachedDiskMap primary id) (set.diskMap primary id) := by
  refine Triple.bind_get fun s hs => ?_
  cases hfound : s.validated.filter (·.1 = (primary, id)) with
  | some entry =>
    rw [Option.filter_eq_some_iff] at hfound
    obtain ⟨⟨key, found⟩, hentry⟩ : ∃ pair, pair = entry := ⟨entry, rfl⟩
    subst hentry
    have hkey : key = (primary, id) := of_decide_eq_true hfound.2
    subst hkey
    exact triple_pure fun _ h => ⟨h ▸ hs, hs.validated _ _ _ hfound.1⟩
  | none =>
    have hmiss : Computes (Coherent lru mapping) (do
        let target ← set.fromResult (set.mapTarget primary id)
        let map ← set.onVolume primary ((set.volume primary).cachedMap target)
        set.onVolume primary (modify fun s => { s with maps := ∅ })
        let size ← set.fromResult (set.checkMap primary id target map)
        modify fun s => { s with validated := some ((primary, id), map, size) }
        return (map, size) : set.Cached lru (ResourceMap × Nat)) (set.diskMap primary id) := by
      unfold diskMap
      refine (computes_fromResult _).bind fun target htarget => ?_
      refine (computes_onVolume (Container.computes_cachedMap target)).bind fun map hmap => ?_
      refine Computes.after (fun s hs => ⟨(), _, rfl, ?_⟩) fun _ => ?_
      · exact hs.withVolume (hs.volumes primary).withoutMaps
      refine (computes_fromResult _).bind fun size hsize => ?_
      refine Computes.after (fun s hs => ⟨(), _, rfl, ?_⟩) fun _ => computes_pure
      refine ⟨hs.volumes, fun primary' id' found hvalidated => ?_, hs.decoded⟩
      cases hvalidated
      unfold diskMap
      rw [htarget, ok_bind, hmap, ok_bind, hsize]
      rfl
    exact hmiss.of_pre fun _ h => h ▸ hs

/-- Forgetting what a volume keeps leaves the caches coherent. -/
theorem computes_forget (owner : set.Index) :
    Computes (Coherent lru mapping) (set.forget owner) (.ok ()) := by
  refine Triple.bind_get fun s hs => ?_
  have hmark : Computes (Coherent lru mapping)
      (modify fun s => { s with cachedOwner := some owner } : set.Cached lru Unit) (.ok ()) :=
    triple_modify fun s hs => ⟨⟨hs.volumes, hs.validated, hs.decoded⟩, rfl⟩
  refine Triple.of_pre (P := Coherent lru mapping) ?_ fun _ h => h ▸ hs
  change Computes (Coherent lru mapping) _ (.ok ())
  refine triple_ite (fun _ => ?_) fun _ => computes_pure
  cases s.cachedOwner with
  | none => exact Computes.after (fun s hs => ⟨(), s, rfl, hs⟩) fun _ => hmark
  | some previous =>
    refine Computes.after (fun s hs => ⟨(), _, rfl, hs.withVolume ?_⟩) fun _ => hmark
    have hvolume := hs.volumes previous
    exact { hvolume.withoutMaps with
      index := fun _ _ h => by cases h
      cache := fun _ _ h => by cases h }

/-- Coherent caches answer a disk read as looking up does. -/
theorem serves_answer : Serves (Coherent lru mapping) set.serve set.answer
  | .diskMap primary id => computes_cachedDiskMap primary id
  | .read useDecodedCache owner id offset length => by
    have hvolume : Serves ((set.volume owner).Coherent lru (ValidEntry mapping))
        (set.volume owner).serve (set.volume owner).answer :=
      Container.serves_answer (admits_validEntry mapping owner)
    exact Computes.bind (computes_forget owner) fun _ _ => computes_onVolume (hvolume.run _)
  | .readAt useDecodedCache owner id offset length => by
    have hvolume : Serves ((set.volume owner).Coherent lru (ValidEntry mapping))
        (set.volume owner).serve (set.volume owner).answer :=
      Container.serves_answer (admits_validEntry mapping owner)
    exact Computes.bind (computes_forget owner) fun _ _ => computes_onVolume (hvolume.run _)

/-! ## Pages -/

variable {E : Error → set.SetCaches lru → Prop}

theorem triple_getPage (key : DecodedCacheKey) :
    Triple (Coherent lru mapping) (set.getPage key)
      (fun found s => Coherent lru mapping s ∧ ∀ page, found = some page → ValidEntry mapping key page)
      E := by
  intro s hs
  refine ⟨hs.withDecoded fun entry hentry => ?_, fun page hpage => ?_⟩
  · exact hs.decoded entry (DecodedChunkCache.mem_entries_get hentry)
  · exact hs.decoded _ (DecodedChunkCache.mem_of_get hpage)

theorem computes_insertPage {key : DecodedCacheKey} {page : Bytes}
    (hpage : ValidEntry mapping key page) :
    Computes (Coherent lru mapping) (set.insertPage key page) (.ok ()) := by
  refine triple_modify fun s hs => ⟨hs.withDecoded fun entry hentry => ?_, rfl⟩
  rcases DecodedChunkCache.mem_entries_insert hentry with rfl | hold
  · exact hpage
  · exact hs.decoded entry hold

/-- A read of a page is a valid entry for it. -/
theorem validEntry_page {start : Nat} {page : Bytes}
    (hsize : set.sizeOf primary (mapping primary id) id = .ok size)
    (hpage : Delivers (set.diskByte primary (mapping primary id) id) start
      (min pageBytes (size - start)) (.ok page : Result Bytes)) :
    ValidEntry mapping (set.diskPageKey primary id start) page := by
  refine ⟨fun _ _ _ hkey => (by cases hkey), fun primary' id' start' hkey => ?_⟩
  simp only [diskPageKey, DecodedCacheKey.diskPage.injEq] at hkey
  obtain ⟨hvolume, rfl, rfl⟩ := hkey
  cases volume_injective hvolume
  exact ⟨size, hsize, hpage⟩

/-- The pages that a large read covers are retained as they are. -/
theorem computes_retainLoop {bytes : Bytes} {stop pageLength : Nat}
    (hpage : pageLength = pageBytes)
    (hsize : set.sizeOf primary (mapping primary id) id = .ok size)
    (hread : Delivers (set.diskByte primary (mapping primary id) id) offset bytes.length
      (.ok bytes : Result Bytes))
    (hstop : stop = offset + bytes.length) (hfits : stop ≤ size) (fuel : Nat) :
    ∀ start, offset ≤ start →
      Computes (Coherent lru mapping) (set.retainLoop pageLength primary id bytes offset stop fuel start)
        (.ok ()) := by
  induction fuel with
  | zero =>
    intro start _
    unfold retainLoop
    exact computes_pure
  | succ fuel ih =>
    intro start hstart
    unfold retainLoop
    cases hnext : checkedAdd start pageLength with
    | none => exact computes_pure
    | some next =>
      rw [checkedAdd_eq_some] at hnext
      dsimp only
      by_cases hbehind : stop < next
      · rw [if_pos hbehind]
        exact computes_pure
      · rw [if_neg hbehind]
        refine Computes.bind (g := fun _ => .ok ()) (computes_insertPage ?_) fun _ _ => ?_
        · refine validEntry_page hsize ?_
          rw [show min pageBytes (size - start) = pageLength by omega]
          refine delivers_slice (by omega) fun i hi => ?_
          have hbyte := hread.getElem? (i := start - offset + i) (by omega)
          rwa [show offset + (start - offset + i) = start + i by omega] at hbyte
        · exact ih next (by omega)

theorem computes_retainCompletePages {bytes : Bytes}
    (hsize : set.sizeOf primary (mapping primary id) id = .ok size)
    (hread : Delivers (set.diskByte primary (mapping primary id) id) offset bytes.length
      (.ok bytes : Result Bytes))
    (hlarge : pageBytes ≤ bytes.length) (hfits : offset + bytes.length ≤ size) :
    Computes (Coherent lru mapping) (set.retainCompletePages primary id bytes offset) (.ok ()) := by
  have hlt := sizeOf_lt hsize
  unfold retainCompletePages
  rw [checkedAdd_of_lt (by omega)]
  refine Computes.bind (r := .ok (offset + bytes.length)) (g := fun _ => .ok ())
    (computes_fromResult _) fun stop hstop => ?_
  cases hstop
  obtain ⟨start, hround, hstart⟩ : ∃ start, (if offset % pageBytes = 0 then Except.ok offset
      else okOr (Error.malformed "AFF4 page offset overflow")
        (checkedAdd offset (pageBytes - offset % pageBytes))) = .ok start ∧ offset ≤ start := by
    by_cases haligned : offset % pageBytes = 0
    · rw [if_pos haligned]
      exact ⟨offset, rfl, Nat.le_refl _⟩
    · rw [if_neg haligned, checkedAdd_of_lt (by omega)]
      exact ⟨_, rfl, by omega⟩
  rw [hround]
  refine Computes.bind (r := .ok start) (g := fun _ => .ok ()) (computes_fromResult _) fun _ hok => ?_
  cases hok
  exact computes_retainLoop rfl hsize hread rfl hfits _ start hstart

theorem pageBytes_pos : 0 < pageBytes := by
  unfold pageBytes
  decide

/-- Coherent caches give the uncached read of a range. -/
theorem computes_readUncached (primary : set.Index) (mapped : Bool) (id : String)
    (offset length : Nat) :
    Computes (Coherent lru mapping)
      ((set.readDiskAtImpl false primary mapped id offset length).run set.serve)
      (set.readUncached primary mapped id offset length) :=
  serves_answer.run _

theorem delivers_readUncached (offset length : Nat) (hsize : set.sizeOf primary mapped id = .ok size)
    (hfits : offset + length ≤ size) : Delivers (set.diskByte primary mapped id) offset length
      (set.readUncached primary mapped id offset length) := by
  have hread := delivers_readDiskAtImpl false offset length hsize
  rwa [Nat.min_eq_right (by omega)] at hread

/-- A page is the part of the disk at its address, whether it was cached or read. -/
theorem triple_page {start : Nat} (hsize : set.sizeOf primary (mapping primary id) id = .ok size)
    (hstart : start < size) :
    Triple (Coherent lru mapping) (set.page primary (mapping primary id) id size start)
      (fun found s => Coherent lru mapping s ∧ ∀ page, found = some page →
        Delivers (set.diskByte primary (mapping primary id) id) start (min pageBytes (size - start))
          (.ok page : Result Bytes))
      E := by
  unfold page
  refine Triple.bind (triple_getPage _) fun found => ?_
  cases found with
  | some cached =>
    refine triple_pure fun s hs => ⟨hs.1, fun page hpage => ?_⟩
    cases hpage
    obtain ⟨size', hsize', hcached⟩ := (hs.2 cached rfl).page primary id start rfl
    rw [hsize] at hsize'
    cases hsize'
    exact hcached
  | none =>
    refine Triple.of_pre (P := Coherent lru mapping) (Triple.bind
      (Q := fun found s => Coherent lru mapping s ∧ ∀ page, found = some page →
        Delivers (set.diskByte primary (mapping primary id) id) start
          (min pageBytes (size - start)) (.ok page : Result Bytes)) (fun s hs => ?_) fun found => ?_)
      fun s hs => hs.1
    · have hrun := computes_readUncached primary (mapping primary id) id start
        (min pageBytes (size - start)) s hs
      have hdelivers := delivers_readUncached start (min pageBytes (size - start)) hsize
        (show start + min pageBytes (size - start) ≤ size by omega)
      dsimp only
      cases hx : (set.readDiskAtImpl false primary (mapping primary id) id start
          (min pageBytes (size - start))).run set.serve s with
      | ok page s' =>
        rw [hx] at hrun
        refine ⟨hrun.1, fun page' hpage => ?_⟩
        cases hpage
        rw [hrun.2] at hdelivers
        exact hdelivers
      | error e s' =>
        rw [hx] at hrun
        exact ⟨hrun.1, fun _ hnone => (by cases hnone)⟩
    cases found with
    | none => exact triple_pure fun s hs => ⟨hs.1, fun _ hnone => (by cases hnone)⟩
    | some page =>
      refine Triple.of_fact (p := Delivers (set.diskByte primary (mapping primary id) id) start
        (min pageBytes (size - start)) (.ok page : Result Bytes)) (fun hpage => ?_)
        fun s hs => hs.2 page rfl
      dsimp only
      rw [if_pos (hpage.length_eq rfl)]
      refine Triple.bind (Q := fun _ s => Coherent lru mapping s)
        ((computes_insertPage (validEntry_page hsize hpage)).weaken (fun s hs => hs.1)
          (fun _ _ hs => hs.1) fun _ _ hs => (by cases hs.2)) fun _ => ?_
      refine triple_pure fun s hs => ⟨hs, fun page' hpage' => ?_⟩
      cases hpage'
      exact hpage

/-- A turn reads what is left of the range in its page. -/
theorem computes_pageTurn {done : Nat}
    (hsize : set.sizeOf primary (mapping primary id) id = .ok size)
    (hfits : offset + length ≤ size) (hdone : done < length) :
    Computes (Coherent lru mapping)
      (set.pageTurn primary (mapping primary id) id size offset length done)
      (set.readUncached primary (mapping primary id) id (offset + done)
        (min (pageBytes - (offset + done) % pageBytes) (length - done))) := by
  have hlt := sizeOf_lt hsize
  have hposition := Nat.div_add_mod' (offset + done) pageBytes
  have hmod := Nat.mod_lt (offset + done) pageBytes_pos
  unfold pageTurn
  rw [checkedAdd_of_lt (by omega), okOr_some]
  change Computes _ (set.page primary (mapping primary id) id size
    ((offset + done) / pageBytes * pageBytes) >>= fun found => _) _
  generalize hpage : (offset + done) / pageBytes * pageBytes = start at hposition ⊢
  have hoffset : offset + done - start = (offset + done) % pageBytes := by omega
  have hread := delivers_readUncached (offset + done)
    (min (pageBytes - (offset + done) % pageBytes) (length - done)) hsize (by omega)
  refine Triple.bind (triple_page hsize (show start < size by omega)) fun found => ?_
  cases found with
  | some page =>
    -- the part of the page is what the exact read returns
    refine Triple.of_fact (p := Delivers (set.diskByte primary (mapping primary id) id) start
      (min pageBytes (size - start)) (.ok page : Result Bytes)) (fun hcached => ?_)
      fun s hs => hs.2 page rfl
    have hlength : page.length = min pageBytes (size - start) := hcached.length_eq rfl
    have htake : min (page.length - (offset + done - start)) (length - done) =
        min (pageBytes - (offset + done) % pageBytes) (length - done) := by omega
    dsimp only
    rw [htake, hoffset]
    refine triple_pure fun s hs => ⟨hs.1, hcached.eq_slice ?_ (by omega)⟩
    rwa [show start + (offset + done) % pageBytes = offset + done by omega]
  | none =>
    dsimp only
    rw [hoffset]
    refine ((computes_readUncached _ _ _ _ _).passOn fun bytes hbytes => ?_).of_pre fun s hs => hs.1
    rw [if_pos (hread.length_eq hbytes)]
    exact computes_pure

theorem computes_pageLoop (hsize : set.sizeOf primary (mapping primary id) id = .ok size)
    (hfits : offset + length ≤ size) (fuel : Nat) (done : Bytes) :
    Computes (Coherent lru mapping)
      (set.pageLoop primary (mapping primary id) id size offset length fuel done)
      (pieceLoop (fun start => set.readUncached primary (mapping primary id) id (offset + start)
        (min (pageBytes - (offset + start) % pageBytes) (length - start))) length fuel done) := by
  induction fuel generalizing done with
  | zero =>
    unfold pageLoop pieceLoop
    exact computes_pure
  | succ fuel ih =>
    unfold pageLoop pieceLoop
    refine computes_ite (fun hmore => ?_) fun _ => computes_pure
    exact (computes_pageTurn hsize hfits hmore).bind fun bytes _ => ih _

/-- Two results that return the same. -/
theorem agrees_of_computes {α : Type} {x : set.Cached lru α} {r r' : Result α}
    (h : Computes (Coherent lru mapping) x r) (hsame : ∀ a, r = .ok a ↔ r' = .ok a) :
    Agrees (Coherent lru mapping) (fun _ => True) x r' :=
  h.weaken (fun _ hs => hs) (fun a _ hs => ⟨hs.1, (hsame a).mp hs.2⟩)
    fun e _ hs => ⟨hs.1, trivial, fun a ha => by
      rw [(hsame a).mpr ha] at hs
      cases hs.2⟩

/-- A read through pages returns what the uncached read of its range returns. -/
theorem agrees_readDiskAt (primary : set.Index) (id : String) (offset length : Nat) :
    Agrees (Coherent lru mapping) (fun _ => True)
      (set.readDiskAt primary (mapping primary id) id offset length)
      (set.readUncached primary (mapping primary id) id offset length) := by
  unfold readDiskAt
  have hserved : Computes (Coherent lru mapping)
      ((set.diskSize primary (mapping primary id) id).run set.serve)
      (set.sizeOf primary (mapping primary id) id) := serves_answer.run _
  cases hsize : set.sizeOf primary (mapping primary id) id with
  | error e =>
    rw [hsize] at hserved
    rw [readUncached_of_size_error hsize]
    refine agrees_of_computes (r := .error e) ?_ fun a => Iff.rfl
    exact hserved.bind (g := fun _ => .error e) fun a ha => (by cases ha)
  | ok size =>
    rw [hsize] at hserved
    have hexact : Delivers (set.diskByte primary (mapping primary id) id) offset
        (min (size - offset) length) (set.readUncached primary (mapping primary id) id offset length) :=
      delivers_readDiskAtImpl false offset length hsize
    by_cases hnone : size ≤ offset ∨ length = 0
    · rw [show min (size - offset) length = 0 by omega] at hexact
      refine agrees_of_computes (r := .ok []) (hserved.bind (g := fun _ => .ok []) fun found hok => ?_)
        fun a => (delivers_ok rfl a).trans (hexact a).symm
      cases hok
      rw [if_pos hnone]
      exact computes_pure
    · have hwhole : Delivers (set.diskByte primary (mapping primary id) id) offset
          (min (size - offset) length) (set.readUncached primary (mapping primary id) id offset
            (min (size - offset) length)) := delivers_readUncached _ _ hsize (by omega)
      by_cases hlarge : pageBytes ≤ min (size - offset) length
      · refine agrees_of_computes
          (r := set.readUncached primary (mapping primary id) id offset (min (size - offset) length))
          (hserved.bind (g := fun size => set.readUncached primary (mapping primary id) id offset
            (min (size - offset) length)) fun found hok => ?_)
          fun a => (hwhole a).trans (hexact a).symm
        cases hok
        rw [if_neg hnone, if_pos hlarge]
        refine (computes_readUncached _ _ _ _ _).passOn fun bytes hbytes => ?_
        have hlength := hwhole.length_eq hbytes
        have hretained : Computes (Coherent lru mapping)
            (set.retainCompletePages primary id bytes offset) (.ok ()) := by
          refine computes_retainCompletePages hsize ?_ (by omega) (by omega)
          rw [hlength, ← hbytes]
          exact hwhole
        exact hretained.bind (g := fun _ => .ok bytes) fun _ _ => computes_pure
      · let pieces : Result Bytes := pieceLoop
          (fun start => set.readUncached primary (mapping primary id) id (offset + start)
            (min (pageBytes - (offset + start) % pageBytes) (min (size - offset) length - start)))
          (min (size - offset) length) (min (size - offset) length) []
        have hpieces : Delivers (set.diskByte primary (mapping primary id) id) offset
            (min (size - offset) length) pieces := by
          refine delivers_pieceLoop (fun start hstart => ?_) rfl (Nat.zero_le _) (by simp)
          have hmod := Nat.mod_lt (offset + start) pageBytes_pos
          exact ⟨min (pageBytes - (offset + start) % pageBytes) (min (size - offset) length - start),
            by omega, by omega, delivers_readUncached _ _ hsize (by omega)⟩
        refine agrees_of_computes (r := pieces)
          (hserved.bind (g := fun _ => pieces) fun found hok => ?_)
          fun a => (hpieces a).trans (hexact a).symm
        cases hok
        rw [if_neg hnone, if_neg hlarge]
        exact computes_pageLoop hsize (by omega) _ _

/-! ## Operations -/

/-- One call on a set. -/
inductive Operation (set : VolumeSet) where
  | readDiskAt (primary : set.Index) (id : String) (offset length : Nat)
  /-- Any other reading: of a size, without pages, or of the whole of a disk. -/
  | reading (program : set.Reading Unit)
  /-- A call on a volume of the set. -/
  | onVolume (index : set.Index) (operation : Container.Operation)

/-- The caches after a call. -/
def after (mapping : Mapping set) (s : set.SetCaches lru) :
    Operation set → set.SetCaches lru
  | .readDiskAt primary id offset length =>
    Container.stateAfter (set.readDiskAt primary (mapping primary id) id offset length s)
  | .reading program => Container.stateAfter (program.run set.serve s)
  | .onVolume index operation =>
    s.withVolume index ((set.volume index).after (s.volume index) operation)

theorem coherent_after (operation : Operation set) (hs : Coherent lru mapping s) :
    Coherent lru mapping (after mapping s operation) := by
  cases operation with
  | readDiskAt primary id offset length =>
    exact Container.keeps_stateAfter ((agrees_readDiskAt primary id offset length).weaken
      (fun _ hs => hs) (fun _ _ hs => hs.1) fun _ _ hs => hs.1) hs
  | reading program =>
    exact Container.keeps_stateAfter (Program.run_keeps (fun query => (serves_answer query).keeps) _) hs
  | onVolume index operation =>
    exact hs.withVolume (Container.coherent_after (admits_validEntry mapping index) operation
      (hs.volumes index))

variable (set) in
/-- The caches after a history. -/
def cachesAfter (lru : Interface) (mapping : Mapping set) (operations : List (Operation set)) :
    set.SetCaches lru := operations.foldl (after mapping) {}

/-- The caches are coherent after every history. -/
theorem coherent_cachesAfter (operations : List (Operation set)) :
    Coherent lru mapping (set.cachesAfter lru mapping operations) := by
  have hkept : ∀ s, Coherent lru mapping s → Coherent lru mapping (operations.foldl (after mapping) s) := by
    induction operations with
    | nil => exact fun s hs => hs
    | cons operation rest ih => exact fun s hs => ih _ (coherent_after operation hs)
  exact hkept {} coherent_new

end Coherence

/-- After any history of a set a disk read succeeds exactly when the uncached read of its range
does, in the same caches or in fresh ones, and returns the same bytes. -/
theorem readDiskAt_eq_uncached (set : VolumeSet) (lru : Interface) (mapping : Mapping set)
    (operations : List (Operation set)) (primary : set.Index) (id : String) (offset length : Nat)
    (bytes : Bytes) :
    let read : set.Cached lru Bytes :=
      set.readDiskAt primary (mapping primary id) id offset length
    let uncached : set.Cached lru Bytes :=
      (set.readDiskAtImpl false primary (mapping primary id) id offset length).run set.serve
    let s := set.cachesAfter lru mapping operations
    ((∃ s', read s = .ok bytes s') ↔ ∃ s', uncached {} = .ok bytes s') ∧
      ((∃ s', read s = .ok bytes s') ↔ ∃ s', uncached s = .ok bytes s') := by
  intro read uncached s
  have hcoherent : Coherent lru mapping s := coherent_cachesAfter operations
  have huncached : Computes (Coherent lru mapping) uncached
      (set.readUncached primary (mapping primary id) id offset length) :=
    computes_readUncached primary (mapping primary id) id offset length
  have hread : (∃ s', read s = .ok bytes s') ↔
      set.readUncached primary (mapping primary id) id offset length = .ok bytes :=
    (agrees_readDiskAt primary id offset length).ok_iff hcoherent
  exact ⟨hread.trans (huncached.ok_iff coherent_new).symm,
    hread.trans (huncached.ok_iff hcoherent).symm⟩

end VolumeSet

end EwfImage.Aff4
