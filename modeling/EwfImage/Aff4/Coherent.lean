import EwfImage.Aff4.Reader
import Std.Data.TreeMap.Lemmas

/-!
# Coherent caches

Nothing but looked up maps, members and decoded chunks gets into the caches of a
container. While they are coherent in this sense they answer every query as looking it up
does, and answering keeps them coherent; so every read has the result it has without
caches.

The main result is `serves_answer`: the caches of a coherent container serve the answers of the
container, in the sense of `Lib.Queries`. The room of the caches is a field of the state and may
change at any time; `computes_dropCaches` is the operation that empties them. Of the library that
keeps the decoded chunks nothing is used but that it returns and keeps only what was put there.
-/

namespace EwfImage.Aff4

open Fallible LruCache Queries Slice Std Triples Word

variable {lru : Interface}

namespace DecodedChunkCache

variable {cache : DecodedChunkCache lru} {key : DecodedCacheKey} {decoded : Bytes}
  {entry : DecodedCacheKey × Bytes}

theorem mem_of_get (h : (cache.get key).1 = some decoded) :
    (key, decoded) ∈ lru.entries cache.entries := Interface.mem_of_get h

theorem mem_entries_get (h : entry ∈ lru.entries (cache.get key).2.entries) :
    entry ∈ lru.entries cache.entries := Interface.mem_entries_get h

theorem mem_entries_evict {fuel : Nat} (h : entry ∈ lru.entries (cache.evict fuel).entries) :
    entry ∈ lru.entries cache.entries := by
  induction fuel generalizing cache with
  | zero => exact h
  | succ fuel ih =>
    unfold evict at h
    by_cases hfull : cache.capacityBytes < cache.currentBytes
    · rw [if_pos hfull] at h
      cases hpop : lru.popLru cache.entries with
      | mk last rest =>
        rw [hpop] at h
        cases last with
        | none => exact h
        | some evicted =>
          have hrest : entry ∈ lru.entries rest := ih h
          have hsnd : (lru.popLru cache.entries).2 = rest := by rw [hpop]
          exact Interface.mem_entries_popLru (hsnd ▸ hrest)
    · rw [if_neg hfull] at h
      exact h

theorem mem_entries_insert (h : entry ∈ lru.entries (cache.insert key decoded).entries) :
    entry = (key, decoded) ∨ entry ∈ lru.entries cache.entries := by
  unfold insert at h
  by_cases hlarge : cache.capacityBytes < decoded.length
  · rw [if_pos hlarge] at h
    exact .inr h
  · rw [if_neg hlarge] at h
    exact Interface.mem_entries_put (mem_entries_evict h)

end DecodedChunkCache

namespace Container

variable (c : Container)

theorem OpenedStream.ext_id {stream other : c.OpenedStream} (h : stream.id = other.id) :
    stream = other := by
  have hstream := stream.opened
  rw [h, other.opened] at hstream
  have hsame := Except.ok.inj hstream
  cases stream
  cases other
  congr 1
  exact hsame.symm

/-- What the entries of a decoded cache must be for the chunks of this container. -/
structure Admits (valid : DecodedCacheKey → Bytes → Prop) : Prop where
  hit : ∀ (stream : c.OpenedStream) chunk bytes,
    valid (.chunk c.volume stream.id chunk) bytes → c.chunk stream.toImageStream chunk = .ok bytes
  retain : ∀ (stream : c.OpenedStream) chunk bytes,
    c.chunk stream.toImageStream chunk = .ok bytes → valid (.chunk c.volume stream.id chunk) bytes

/-- The entries of the container's own chunks are these chunks. -/
def OwnEntry (key : DecodedCacheKey) (bytes : Bytes) : Prop :=
  ∀ (stream : c.OpenedStream) chunk, key = .chunk c.volume stream.id chunk →
    c.chunk stream.toImageStream chunk = .ok bytes

theorem admits_ownEntry : c.Admits c.OwnEntry where
  hit stream chunk _ h := h stream chunk rfl
  retain stream chunk bytes h := by
    intro other chunk' hkey
    simp only [DecodedCacheKey.chunk.injEq, true_and] at hkey
    obtain ⟨hid, rfl⟩ := hkey
    rw [← OpenedStream.ext_id c hid]
    exact h

/-- The caches hold what looking it up gives. -/
structure Coherent (lru : Interface) (valid : DecodedCacheKey → Bytes → Prop)
    (s : Caches lru) : Prop where
  maps : ∀ id map, s.maps[id]? = some map → c.map id = .ok map
  index : ∀ name data, s.indexCache = some (name, data) →
    c.archive.member (name ++ ".index") c.limits.memberBytes = .ok data
  cache : ∀ name data, s.cache = some (name, data) →
    c.archive.member name c.limits.memberBytes = .ok data
  storedMember : ∀ member, s.storedMember = some member → c.storedMember member.name = .ok member
  decoded : ∀ entry ∈ lru.entries s.decodedCache.entries, valid entry.1 entry.2

theorem coherent_new (lru : Interface) (valid : DecodedCacheKey → Bytes → Prop) :
    c.Coherent lru valid {} where
  maps id map h := by simp at h
  index _ _ h := by cases h
  cache _ _ h := by cases h
  storedMember _ h := by cases h
  decoded _ h := (Interface.not_mem_new _ _ h).elim

variable {c} {valid : DecodedCacheKey → Bytes → Prop} {s : Caches lru}

theorem Coherent.withoutMaps (h : c.Coherent lru valid s) :
    c.Coherent lru valid { s with maps := ∅ } :=
  { h with maps := fun id map hmap => by simp at hmap }

theorem Coherent.withMap {id : String} {map : ResourceMap} (h : c.Coherent lru valid s)
    (hmap : c.map id = .ok map) : c.Coherent lru valid { s with maps := s.maps.insert id map } := by
  refine { h with maps := fun id' map' hmap' => ?_ }
  rw [TreeMap.getElem?_insert] at hmap'
  by_cases hid : compare id id' = .eq
  · rw [if_pos hid] at hmap'
    cases hmap'
    rw [← LawfulEqCmp.eq_of_compare hid]
    exact hmap
  · rw [if_neg hid] at hmap'
    exact h.maps id' map' hmap'

theorem Coherent.withDecoded {decodedCache : DecodedChunkCache lru} (h : c.Coherent lru valid s)
    (hentries : ∀ entry ∈ lru.entries decodedCache.entries, valid entry.1 entry.2) :
    c.Coherent lru valid { s with decodedCache } :=
  { h with decoded := hentries }

/-! ## The answers of the caches -/

theorem computes_fromResult {α : Type} {P : Caches lru → Prop} (r : Result α) :
    Computes P (fromResult r) r := by
  cases r with
  | ok a => exact computes_pure
  | error e => exact computes_throw

theorem map_eq (id : String) :
    c.map id = (c.mapRanges id >>= fun ranges => c.mapGap id >>= fun gap => .ok { ranges, gap }) :=
  rfl

theorem computes_cachedMap (id : String) :
    Computes (c.Coherent lru valid) (c.cachedMap id) (c.map id) := by
  refine Triple.bind_get fun s hs => ?_
  cases hfound : s.maps[id]? with
  | some map => exact triple_pure fun _ h => ⟨h ▸ hs, hs.maps id map hfound⟩
  | none =>
    have hmiss : Computes (c.Coherent lru valid) (do
        let ranges ← fromResult (c.mapRanges id)
        modify fun s => { s with maps := ∅ }
        let gap ← fromResult (c.mapGap id)
        modify fun s => { s with maps := s.maps.insert id { ranges, gap } }
        return { ranges, gap } : Cached lru ResourceMap) (c.map id) := by
      rw [map_eq]
      refine (computes_fromResult _).bind fun ranges hranges => ?_
      refine Computes.after (fun s hs => ⟨(), _, rfl, hs.withoutMaps⟩) fun _ => ?_
      refine (computes_fromResult _).bind fun gap hgap => ?_
      refine Computes.after (fun s hs => ⟨(), _, rfl, hs.withMap ?_⟩) fun _ => computes_pure
      rw [map_eq, hranges, hgap]
      rfl
    exact hmiss.of_pre fun _ h => h ▸ hs

/-- A slot that holds a looked up value under its name. -/
theorem computes_retained {α : Type} {slot : Caches lru → Option (String × α)}
    {store : String × α → Caches lru → Caches lru} {look : String → Result α} {name : String}
    (hslot : ∀ s, c.Coherent lru valid s → ∀ entry, slot s = some entry →
      look entry.1 = .ok entry.2)
    (hstore : ∀ s value, c.Coherent lru valid s → look name = .ok value →
      c.Coherent lru valid (store (name, value) s)) :
    Computes (c.Coherent lru valid) (retained slot store look name) (look name) := by
  refine Triple.bind_get fun s hs => ?_
  cases hfound : (slot s).filter (·.1 = name) with
  | some entry =>
    rw [Option.filter_eq_some_iff] at hfound
    refine triple_pure fun _ h => ⟨h ▸ hs, ?_⟩
    have hname : entry.1 = name := of_decide_eq_true hfound.2
    rw [← hname]
    exact hslot s hs entry hfound.1
  | none =>
    have hmiss : Computes (c.Coherent lru valid) (do
        let value ← fromResult (look name)
        modify (store (name, value))
        return value : Cached lru α) (look name) := by
      refine (computes_fromResult _).passOn fun value hvalue => ?_
      exact Computes.after (fun s hs => ⟨(), _, rfl, hstore s value hs hvalue⟩) fun _ => computes_pure
    exact hmiss.of_pre fun _ h => h ▸ hs

theorem computes_cachedIndex (name : String) : Computes (c.Coherent lru valid) (c.cachedIndex name)
    (c.archive.member (name ++ ".index") c.limits.memberBytes) := by
  refine computes_retained (fun s hs entry h => hs.index entry.1 entry.2 h) fun s value hs h => ?_
  refine { hs with index := fun name' data hdata => ?_ }
  cases hdata
  exact h

theorem computes_cachedMember (name : String) :
    Computes (c.Coherent lru valid) (c.cachedMember name) (c.archive.member name c.limits.memberBytes) := by
  refine computes_retained (fun s hs entry h => hs.cache entry.1 entry.2 h) fun s value hs h => ?_
  refine { hs with cache := fun name' data hdata => ?_ }
  cases hdata
  exact h

theorem name_of_storedMember {name : String} {member : StoredMember}
    (h : c.storedMember name = .ok member) : member.name = name := by
  simp only [Container.storedMember, bind_eq_ok, pure_eq_ok] at h
  obtain ⟨file, -, _, -, _, -, hmember⟩ := h
  cases hmember
  rfl

theorem computes_cachedStoredMember (name : String) :
    Computes (c.Coherent lru valid) (c.cachedStoredMember name) (c.storedMember name) := by
  refine computes_retained (fun s hs entry h => ?_) fun s value hs h => ?_
  · obtain ⟨member, hmember, rfl⟩ := Option.map_eq_some_iff.mp h
    exact hs.storedMember member hmember
  · refine { hs with storedMember := fun member hmember => ?_ }
    cases hmember
    rw [name_of_storedMember h]
    exact h

theorem computes_encodedChunk (name : String) (offset length : Nat) :
    Computes (c.Coherent lru valid) (c.encodedChunk name offset length)
      (c.storedChunk name offset length) := by
  refine (computes_cachedStoredMember name).bind fun member _ => ?_
  refine (computes_fromResult _).bind fun direct _ => ?_
  cases direct with
  | some direct =>
    refine Computes.after (fun s hs => ⟨(), _, rfl, ?_⟩) fun _ => computes_pure
    exact { hs with cache := fun name data hdata => by cases hdata }
  | none => exact (computes_cachedMember name).bind fun data _ => computes_fromResult _

variable (hvalid : c.Admits valid)

include hvalid

theorem computes_fetchChunk (useDecodedCache : Bool) (stream : c.OpenedStream) (chunk : Nat) :
    Computes (c.Coherent lru valid) (c.fetchChunk useDecodedCache stream.toImageStream chunk)
      (c.chunk stream.toImageStream chunk) := by
  have hcached : Triple (c.Coherent lru valid)
      (cachedChunk useDecodedCache (.chunk c.volume stream.id chunk))
      (fun cached s => c.Coherent lru valid s ∧ ∀ decoded, cached = some decoded →
        c.chunk stream.toImageStream chunk = .ok decoded)
      fun e s => c.Coherent lru valid s ∧ c.chunk stream.toImageStream chunk = .error e := by
    refine triple_ite (fun _ s hs => ?_) fun _ => triple_pure fun s hs => ⟨hs, fun _ h => by cases h⟩
    refine ⟨hs.withDecoded fun entry hentry => ?_, fun decoded hdecoded => ?_⟩
    · exact hs.decoded entry (DecodedChunkCache.mem_entries_get hentry)
    · exact hvalid.hit stream chunk decoded
        (hs.decoded _ (DecodedChunkCache.mem_of_get hdecoded))
  refine Triple.bind hcached fun cached => ?_
  cases cached with
  | some decoded => exact triple_pure fun s hs => ⟨hs.1, hs.2 decoded rfl⟩
  | none =>
    refine Triple.of_pre (P := c.Coherent lru valid) ?_ fun _ h => h.1
    change Computes (c.Coherent lru valid) _ (c.chunk stream.toImageStream chunk)
    refine (computes_cachedIndex _).bind fun index hindex => ?_
    refine (computes_fromResult _).bind fun record hrecord => ?_
    refine (computes_encodedChunk _ _ _).bind fun encoded hencoded => ?_
    refine (computes_fromResult _).passOn fun decoded hdecoded => ?_
    refine Computes.after (fun s hs => ⟨(), _, rfl, ?_⟩) fun _ => computes_pure
    by_cases huse : useDecodedCache = true
    · simp only [if_pos huse]
      refine hs.withDecoded fun entry hentry => ?_
      rcases DecodedChunkCache.mem_entries_insert hentry with rfl | hold
      · refine hvalid.retain stream chunk decoded ?_
        unfold Container.chunk
        dsimp only
        rw [hindex, ok_bind, hrecord, ok_bind, hencoded, ok_bind, hdecoded]
      · exact hs.decoded entry hold
    · simp only [if_neg huse]
      exact hs

omit hvalid in
theorem computes_dropCaches : Computes (c.Coherent lru valid) dropCaches (.ok ()) :=
  triple_modify fun s hs => ⟨{
    maps := fun id map hmap => by simp at hmap
    index := fun _ _ h => by cases h
    cache := fun _ _ h => by cases h
    storedMember := hs.storedMember
    decoded := fun entry h => (Interface.not_mem_clear entry h).elim }, rfl⟩

/-- Coherent caches answer as looking up does. -/
theorem serves_answer : Serves (c.Coherent lru valid) c.serve c.answer
  | .map id => computes_cachedMap id
  | .chunk useDecodedCache stream chunk => computes_fetchChunk hvalid useDecodedCache stream chunk
  | .clear => computes_dropCaches

end Container

end EwfImage.Aff4
