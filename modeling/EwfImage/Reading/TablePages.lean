import EwfImage.Reading.History
import Mathlib.Data.List.Induction

/-!
# The table page cache

The cache counts the bytes of its pages, and evicts until the next page fits into its
capacity. The first part follows it through any inserts and lookups; the second shows that
a table read through it returns the bytes of the segment, whatever the reader did before.

The main result is `tablePageCache_keeps`. Its first part is about any inserts and lookups: the
bytes that the cache counts are those of its pages, at most its capacity, which is fixed when
the reader is opened. The second is about any history of table reads: a read of at least one
byte through the cache returns what the segment has there. A table is in memory as a whole only
where its length is below the capacity; a capacity of `usize::MAX` is reached by no table that
memory can hold. A read of no bytes and an insert that is refused differ, and
`tablePageCache_serves_older` shows how.

The pages are kept by a library of caches, of which `lru` has the laws; the cache is opened
without a bound on their number, so that the library never drops a page of its own accord.
-/

namespace EwfImage.Reading

open Fallible LruCache Runs Slice Triples Word

/-! ## Inserts and lookups -/

namespace TablePageCache

variable {lru : Interface}

def get (cache : TablePageCache lru) (key : TablePageKey) : Option Bytes × TablePageCache lru :=
  ((lru.get cache.pages key).1, { cache with pages := (lru.get cache.pages key).2 })

/-- The bytes of the retained pages. -/
def retained (cache : TablePageCache lru) : Nat := lru.total cache.pages List.length

/-- The insert is not refused. -/
def Retains (capacity : Nat) (bytes : Bytes) : Prop :=
  capacity ≠ 0 ∧ bytes.length ≤ capacity

instance (capacity : Nat) (bytes : Bytes) : Decidable (Retains capacity bytes) :=
  inferInstanceAs (Decidable (_ ∧ _))

/-- The account of the pages is right, and within the capacity. -/
structure Accounted (capacity : Nat) (cache : TablePageCache lru) : Prop where
  capacityBytes : cache.capacityBytes = capacity
  unbounded : lru.capacity cache.pages = none
  cached : cache.cachedBytes = cache.retained
  bounded : cache.cachedBytes ≤ capacity

section Steps

variable {capacity : Nat} {cache : TablePageCache lru} {key key' : TablePageKey}
  {bytes page : Bytes}

theorem get_fst : (cache.get key).1 = lru.peek cache.pages key := rfl

theorem Accounted.get (h : Accounted capacity cache) (key : TablePageKey) :
    Accounted capacity (cache.get key).2 := by
  have htotal : (cache.get key).2.retained = cache.retained := Interface.total_get key
  exact ⟨h.capacityBytes, (lru.capacity_get _ key).trans h.unbounded, h.cached.trans htotal.symm,
    h.bounded⟩

/-- The old page of the key is taken out of the account. -/
def withoutKey (cache : TablePageCache lru) (key : TablePageKey) : TablePageCache lru :=
  { cache with
    pages := (lru.pop cache.pages key).2
    cachedBytes := cache.cachedBytes - ((lru.pop cache.pages key).1.map List.length).getD 0 }

/-- The page of the key is put into the account. -/
def withPage (cache : TablePageCache lru) (key : TablePageKey) (bytes : Bytes) :
    TablePageCache lru :=
  { cache with
    pages := lru.put cache.pages key bytes
    cachedBytes := saturatingAdd cache.cachedBytes bytes.length
    peakBytes := max cache.peakBytes (saturatingAdd cache.cachedBytes bytes.length) }

theorem insert_of_retains (h : Retains cache.capacityBytes bytes) :
    cache.insert key bytes = (((cache.withoutKey key).evict bytes.length
      ((lru.entries (cache.withoutKey key).pages).length + 1)).withPage key bytes) := by
  unfold insert
  rw [if_neg (by rintro (hzero | hlong); exacts [h.1 hzero, absurd h.2 (by omega)])]
  rfl

theorem insert_of_not_retains (h : ¬ Retains cache.capacityBytes bytes) :
    cache.insert key bytes = cache := by
  unfold insert
  refine if_pos ?_
  by_cases hzero : cache.capacityBytes = 0
  · exact .inl hzero
  · exact .inr (by by_contra hle; exact h ⟨hzero, by omega⟩)

theorem Accounted.withoutKey (h : Accounted capacity cache) (key : TablePageKey) :
    Accounted capacity (cache.withoutKey key) ∧
      (cache.withoutKey key).retained ≤ cache.retained := by
  have hsum := Interface.total_pop cache.pages key List.length
  have hcached := h.cached
  have hbounded := h.bounded
  unfold retained at hcached
  refine ⟨⟨h.capacityBytes, (lru.capacity_pop _ key).trans h.unbounded, ?_, ?_⟩, ?_⟩
  · change cache.cachedBytes - _ = lru.total (lru.pop cache.pages key).2 List.length
    omega
  · exact (Nat.sub_le _ _).trans hbounded
  · change lru.total (lru.pop cache.pages key).2 List.length ≤ lru.total cache.pages List.length
    omega

/-- What the loop of an insert leaves: pages that were there, with room for the next one. -/
structure Evicted (capacity size : Nat) (cache cache' : TablePageCache lru) : Prop where
  accounted : Accounted capacity cache'
  room : cache'.cachedBytes + size ≤ capacity
  peak : cache'.peakBytes = cache.peakBytes
  pages : ∀ key page, lru.peek cache'.pages key = some page → lru.peek cache.pages key = some page

/-- The pages are in memory together with `size` further bytes, which is only a question for the
largest capacity. -/
def InMemory (capacity : Nat) (cache : TablePageCache lru) (size : Nat) : Prop :=
  capacity = u64Limit - 1 → cache.retained + size < u64Limit

theorem Accounted.evict {size : Nat} (h : Accounted capacity cache) (hsize : size ≤ capacity)
    (hcapacity : capacity < u64Limit) (hmemory : InMemory capacity cache size) {fuel : Nat}
    (hfuel : (lru.entries cache.pages).length < fuel) :
    Evicted capacity size cache (cache.evict size fuel) := by
  induction fuel generalizing cache with
  | zero => omega
  | succ fuel ih =>
    have hcached := h.cached
    have hbytes := h.capacityBytes
    have htest : cache.capacityBytes < saturatingAdd cache.cachedBytes size ↔
        capacity < cache.cachedBytes + size := by
      rw [hbytes, hcached]
      unfold InMemory at hmemory
      unfold saturatingAdd
      omega
    unfold TablePageCache.evict
    by_cases hfull : capacity < cache.cachedBytes + size
    · rw [if_pos (htest.mpr hfull)]
      cases hpopped : lru.popLru cache.pages with
      | mk popped pages =>
        have hpages : pages = (lru.popLru cache.pages).2 := by rw [hpopped]
        cases popped with
        | none =>
          -- without pages, nothing is counted
          have hnil : lru.entries cache.pages = [] :=
            lru.popLru_eq_none _ (by rw [hpopped])
          have hzero : cache.retained = 0 := by
            unfold retained Interface.total
            rw [hnil]
            rfl
          omega
        | some entry =>
          have hlast : (lru.popLru cache.pages).1 = some entry := by rw [hpopped]
          have hsum := @Interface.total_popLru _ _ _ _ List.length _ hlast
          rw [← hpages] at hsum
          have hretained : cache.retained = lru.total cache.pages List.length := rfl
          have hlength := Interface.length_popLru hlast
          rw [← hpages] at hlength
          have hless : Accounted capacity { cache with
              pages := pages, cachedBytes := cache.cachedBytes - entry.2.length } := by
            refine ⟨hbytes, ?_, ?_, ?_⟩
            · change lru.capacity pages = none
              rw [hpages, lru.capacity_popLru]
              exact h.unbounded
            · change cache.cachedBytes - _ = lru.total pages List.length
              omega
            · exact (Nat.sub_le _ _).trans h.bounded
          have hmemory' : capacity = u64Limit - 1 →
              lru.total pages List.length + size < u64Limit := by
            intro hlargest
            have hfits := hmemory hlargest
            omega
          have hrest := ih hless hmemory' (show (lru.entries pages).length < fuel by omega)
          refine ⟨hrest.accounted, hrest.room, hrest.peak, fun key page hpage => ?_⟩
          refine Interface.peek_of_peek_popLru ?_
          rw [← hpages]
          exact hrest.pages key page hpage
    · rw [if_neg fun h => hfull (htest.mp h)]
      exact ⟨h, by omega, rfl, fun _ _ hpage => hpage⟩

/-- What an insert that is not refused leaves. -/
structure Inserted (capacity : Nat) (cache : TablePageCache lru) (key : TablePageKey) (bytes : Bytes)
    (cache' : TablePageCache lru) : Prop where
  accounted : Accounted capacity cache'
  peak : cache'.peakBytes = max cache.peakBytes cache'.cachedBytes
  pages : ∀ key' page, lru.peek cache'.pages key' = some page →
    if key' = key then page = bytes else lru.peek cache.pages key' = some page

theorem Accounted.insert (h : Accounted capacity cache) (hretains : Retains capacity bytes)
    (hcapacity : capacity < u64Limit) (hmemory : InMemory capacity cache bytes.length) :
    Inserted capacity cache key bytes (cache.insert key bytes) := by
  rw [insert_of_retains (h.capacityBytes.symm ▸ hretains)]
  obtain ⟨hwithout, hless⟩ := h.withoutKey key
  have hmemory' : InMemory capacity (cache.withoutKey key) bytes.length := by
    intro hlargest
    have hfits := hmemory hlargest
    omega
  have hevicted := hwithout.evict hretains.2 hcapacity hmemory' (Nat.lt_succ_self _)
  generalize (cache.withoutKey key).evict bytes.length _ = evicted at hevicted
  have hroom := hevicted.room
  have hcached := hevicted.accounted.cached
  have hunbounded := hevicted.accounted.unbounded
  have hsum : saturatingAdd evicted.cachedBytes bytes.length =
      evicted.cachedBytes + bytes.length := saturatingAdd_of_lt (by omega)
  have hnew : lru.peek evicted.pages key = none := by
    cases hpage : lru.peek evicted.pages key with
    | none => rfl
    | some page =>
      have hold := hevicted.pages key page hpage
      change lru.peek (lru.pop cache.pages key).2 key = some page at hold
      rw [Interface.peek_pop_self] at hold
      cases hold
  have hput := @Interface.total_put _ _ _ _ _ bytes List.length _ hunbounded hnew
  refine ⟨⟨hevicted.accounted.capacityBytes, (lru.capacity_put _ key bytes).trans hunbounded,
    ?_, ?_⟩, ?_, fun key' page hpage => ?_⟩
  · change saturatingAdd evicted.cachedBytes bytes.length =
      lru.total (lru.put evicted.pages key bytes) List.length
    have hretained : evicted.retained = lru.total evicted.pages List.length := rfl
    omega
  · change saturatingAdd evicted.cachedBytes bytes.length ≤ capacity
    omega
  · change max evicted.peakBytes _ = max cache.peakBytes _
    rw [hevicted.peak]
    rfl
  · have hstored := Interface.peek_of_peek_put hpage
    by_cases hkey : key' = key
    · rw [if_pos hkey] at hstored ⊢
      exact hstored
    · rw [if_neg hkey] at hstored ⊢
      exact Interface.peek_of_peek_pop (hevicted.pages key' page hstored)

end Steps

end TablePageCache

inductive CacheOperation
  | insert (key : TablePageKey) (bytes : Bytes)
  | get (key : TablePageKey)

variable {lru : Interface}

def CacheOperation.apply (cache : TablePageCache lru) : CacheOperation → TablePageCache lru
  | .insert key bytes => cache.insert key bytes
  | .get key => (cache.get key).2

/-- A new cache of the capacity behind the operations. -/
def cacheAfter (lru : Interface) (capacity : Nat) (operations : List CacheOperation) :
    TablePageCache lru :=
  operations.foldl CacheOperation.apply { capacityBytes := capacity }

/-- The page that the operation inserts under the key. -/
def CacheOperation.inserted (key : TablePageKey) : CacheOperation → Option Bytes
  | .insert key' bytes => if key' = key then some bytes else none
  | .get _ => none

/-- The page of the last insert under the key. -/
def lastInserted (key : TablePageKey) (operations : List CacheOperation) : Option Bytes :=
  operations.reverse.findSome? (·.inserted key)

/-- The page of the last insert under the key that the cache does not refuse. -/
def lastRetained (capacity : Nat) (key : TablePageKey) (operations : List CacheOperation) :
    Option Bytes :=
  operations.reverse.findSome? fun operation =>
    (operation.inserted key).filter (TablePageCache.Retains capacity)

/-- The account of the cache behind the operations: it is right and within the capacity, the peak
is the most that was ever counted, and the pages are those of the last inserts. -/
structure KeepsAccount (lru : Interface) (capacity : Nat) (operations : List CacheOperation) :
    Prop where
  accounted : (cacheAfter lru capacity operations).Accounted capacity
  reached : ∃ front, front <+: operations ∧
    (cacheAfter lru capacity front).cachedBytes = (cacheAfter lru capacity operations).peakBytes
  greatest : ∀ front, front <+: operations →
    (cacheAfter lru capacity front).cachedBytes ≤ (cacheAfter lru capacity operations).peakBytes
  pages : ∀ key page, ((cacheAfter lru capacity operations).get key).1 = some page →
    lastRetained capacity key operations = some page

/-- The pages of the cache and the page that is inserted fit into the memory together, at every
insert of the operations. -/
def OperationsInMemory (lru : Interface) (capacity : Nat)
    (operations : List CacheOperation) : Prop :=
  ∀ front key bytes, front ++ [.insert key bytes] <+: operations →
    (cacheAfter lru capacity front).InMemory capacity bytes.length

section Runs

variable {capacity : Nat} {operations : List CacheOperation}

theorem cacheAfter_snoc (operation : CacheOperation) :
    cacheAfter lru capacity (operations ++ [operation]) =
      operation.apply (cacheAfter lru capacity operations) := by
  unfold cacheAfter
  rw [List.foldl_append]
  rfl

theorem lastRetained_snoc (key : TablePageKey) (operation : CacheOperation) :
    lastRetained capacity key (operations ++ [operation]) =
      ((operation.inserted key).filter (TablePageCache.Retains capacity)).or
        (lastRetained capacity key operations) := by
  unfold lastRetained
  rw [List.reverse_append, List.reverse_singleton, List.singleton_append, List.findSome?_cons]
  cases (operation.inserted key).filter (TablePageCache.Retains capacity) with
  | none => rfl
  | some bytes => rfl

/-- An operation that only changes the pages and their account keeps the maximum. -/
theorem peak_snoc {operation : CacheOperation}
    (hreached : ∃ front, front <+: operations ∧
      (cacheAfter lru capacity front).cachedBytes = (cacheAfter lru capacity operations).peakBytes)
    (hgreatest : ∀ front, front <+: operations →
      (cacheAfter lru capacity front).cachedBytes ≤ (cacheAfter lru capacity operations).peakBytes)
    (hpeak : (cacheAfter lru capacity (operations ++ [operation])).peakBytes =
      max (cacheAfter lru capacity operations).peakBytes
        (cacheAfter lru capacity (operations ++ [operation])).cachedBytes) :
    (∃ front, front <+: operations ++ [operation] ∧ (cacheAfter lru capacity front).cachedBytes =
      (cacheAfter lru capacity (operations ++ [operation])).peakBytes) ∧
    ∀ front, front <+: operations ++ [operation] → (cacheAfter lru capacity front).cachedBytes ≤
      (cacheAfter lru capacity (operations ++ [operation])).peakBytes := by
  rw [hpeak]
  constructor
  · rcases Nat.le_total (cacheAfter lru capacity operations).peakBytes
      (cacheAfter lru capacity (operations ++ [operation])).cachedBytes with hmore | hless
    · exact ⟨_, List.prefix_rfl, (Nat.max_eq_right hmore).symm⟩
    · obtain ⟨front, hfront, hsame⟩ := hreached
      exact ⟨front, List.prefix_concat_iff.mpr (.inr hfront), hsame.trans (Nat.max_eq_left hless).symm⟩
  · intro front hfront
    rcases List.prefix_concat_iff.mp hfront with rfl | hearlier
    · exact Nat.le_max_right _ _
    · exact (hgreatest front hearlier).trans (Nat.le_max_left _ _)

theorem KeepsAccount.refused {key : TablePageKey} {bytes : Bytes}
    (h : KeepsAccount lru capacity operations)
    (hrefused : ¬ TablePageCache.Retains capacity bytes) :
    KeepsAccount lru capacity (operations ++ [.insert key bytes]) := by
  have hsame : cacheAfter lru capacity (operations ++ [.insert key bytes]) =
      cacheAfter lru capacity operations := by
    rw [cacheAfter_snoc]
    exact TablePageCache.insert_of_not_retains (h.accounted.capacityBytes.symm ▸ hrefused)
  have hpeak := h.greatest operations List.prefix_rfl
  obtain ⟨hreached, hgreatest⟩ := @peak_snoc _ _ _ (.insert key bytes) h.reached h.greatest
    (by rw [hsame]; exact (Nat.max_eq_left hpeak).symm)
  refine ⟨hsame ▸ h.accounted, hreached, hgreatest, fun key' page hpage => ?_⟩
  rw [hsame] at hpage
  have hnone : (CacheOperation.inserted key' (.insert key bytes)).filter
      (TablePageCache.Retains capacity) = none := by
    unfold CacheOperation.inserted
    by_cases hkey : key = key'
    · simp [hkey, hrefused]
    · simp [hkey]
  rw [lastRetained_snoc, hnone, Option.none_or]
  exact h.pages key' page hpage

theorem KeepsAccount.retained {key : TablePageKey} {bytes : Bytes}
    (h : KeepsAccount lru capacity operations)
    (hretains : TablePageCache.Retains capacity bytes) (hcapacity : capacity < u64Limit)
    (hmemory : (cacheAfter lru capacity operations).InMemory capacity bytes.length) :
    KeepsAccount lru capacity (operations ++ [.insert key bytes]) := by
  have hinserted := @TablePageCache.Accounted.insert _ _ _ key _ h.accounted hretains hcapacity
    hmemory
  change TablePageCache.Inserted _ _ _ _
    (CacheOperation.apply (cacheAfter lru capacity operations) (.insert key bytes)) at hinserted
  rw [← cacheAfter_snoc] at hinserted
  obtain ⟨hreached, hgreatest⟩ := peak_snoc h.reached h.greatest hinserted.peak
  refine ⟨hinserted.accounted, hreached, hgreatest, fun key' page hpage => ?_⟩
  have hpage := hinserted.pages key' page (TablePageCache.get_fst.symm.trans hpage)
  rw [lastRetained_snoc]
  unfold CacheOperation.inserted
  by_cases hkey : key = key'
  · rw [if_pos hkey.symm] at hpage
    simp [hkey, hretains, hpage]
  · rw [if_neg fun h => hkey h.symm] at hpage
    simpa [hkey] using h.pages key' page (TablePageCache.get_fst.trans hpage)

theorem KeepsAccount.get (h : KeepsAccount lru capacity operations) (key : TablePageKey) :
    KeepsAccount lru capacity (operations ++ [.get key]) := by
  have hcache : cacheAfter lru capacity (operations ++ [.get key]) =
      ((cacheAfter lru capacity operations).get key).2 := cacheAfter_snoc _
  have hpeak := h.greatest operations List.prefix_rfl
  obtain ⟨hreached, hgreatest⟩ := @peak_snoc _ _ _ (.get key) h.reached h.greatest
    (by rw [hcache]; exact (Nat.max_eq_left hpeak).symm)
  refine ⟨hcache ▸ h.accounted.get key, hreached, hgreatest, fun key' page hpage => ?_⟩
  rw [hcache] at hpage
  have hsame : (((cacheAfter lru capacity operations).get key).2.get key').1 =
      ((cacheAfter lru capacity operations).get key').1 := by
    rw [TablePageCache.get_fst, TablePageCache.get_fst]
    exact Interface.peek_get
  rw [lastRetained_snoc]
  exact h.pages key' page (hsame.symm.trans hpage)

/-- The account is right behind any operations. -/
theorem keepsAccount (hcapacity : capacity < u64Limit)
    (hmemory : OperationsInMemory lru capacity operations) :
    KeepsAccount lru capacity operations := by
  induction operations using List.reverseRecOn with
  | nil =>
    refine ⟨⟨rfl, lru.capacity_new none, (Interface.total_new none).symm, Nat.zero_le _⟩,
      ⟨[], List.prefix_rfl, rfl⟩, ?_, ?_⟩
    · intro front hfront
      rw [List.prefix_nil.mp hfront]
      exact Nat.le_refl 0
    · intro key page hpage
      exact absurd (Interface.peek_eq_some.mp hpage) (Interface.not_mem_new _ _)
  | append_singleton operations operation ih =>
    have hbefore := ih fun front key bytes hfront =>
      hmemory front key bytes (hfront.trans (List.prefix_append _ _))
    cases operation with
    | get key => exact hbefore.get key
    | insert key bytes =>
      by_cases hretains : TablePageCache.Retains capacity bytes
      · exact hbefore.retained hretains hcapacity (hmemory operations key bytes List.prefix_rfl)
      · exact hbefore.refused hretains

end Runs

/-! ## Table reads -/

inductive TableOperation
  | readTableBytesAt (segmentIndex offset size : Nat)
  | image (operation : Operation)

section Reads

variable (codec : Codec) (image : Image)

def TableOperation.apply (reader : Reader lru) : TableOperation → Reader lru
  | .readTableBytesAt segmentIndex offset size =>
    after (Reading.readTableBytesAt image segmentIndex offset size) reader
  | .image operation => operation.apply codec image reader

def TableStep (reader : Reader lru) (operation : TableOperation) (reader' : Reader lru) : Prop :=
  reader' = operation.apply codec image reader

variable {codec image}

/-- The valid pages of a reader, whatever its other parts are. -/
def ValidPages (lru : Interface) (image : Image) (reader : Reader lru) : Prop :=
  PagesValid image reader.tablePageCache

theorem unmoved_validPages : Unmoved image (ValidPages lru image) where
  pages := fun h => h
  paged := fun _ h => h.valid
  errors := fun _ h => h

theorem keeps_modify {f : Reader lru → Reader lru}
    (h : ∀ s, (f s).tablePageCache = s.tablePageCache) :
    Keeps (ValidPages lru image) (modify f : Read lru PUnit) :=
  triple_modify fun s hs => by
    unfold ValidPages
    rw [h s]
    exact hs

theorem keeps_decodeIntoCache (chunkId : Nat) :
    Keeps (ValidPages lru image) (decodeIntoCache codec image chunkId) := by
  refine (keeps_lookupChunk unmoved_validPages chunkId).bind fun chunk => ?_
  refine (keeps_decodeChunkWithPolicy unmoved_validPages chunkId chunk).bind fun decoded => ?_
  exact Keeps.bind (keeps_modify (f := fun reader => { reader with
    chunkCache := lru.put reader.chunkCache chunkId decoded.1 }) fun _ => rfl) fun _ => keeps_pure _

theorem keeps_readChunk (chunkId : Nat) :
    Keeps (ValidPages lru image) (readChunk codec image chunkId) := by
  have hend : Keeps (ValidPages lru image) (endFlight chunkId) := keeps_modify fun _ => rfl
  refine keeps_ensureNotAborted.bind fun _ => ?_
  refine Triple.bind_get fun reader hreader => ?_
  refine Triple.of_pre (P := ValidPages lru image) ?_ fun s hs => hs ▸ hreader
  have hset : ∀ chunkCache, Keeps (ValidPages lru image)
      (set { reader with chunkCache := chunkCache } : Read lru PUnit) := fun _ _ _ => hreader
  cases lru.get reader.chunkCache chunkId with
  | mk found chunkCache =>
    cases found with
    | some cached => exact (hset chunkCache).bind fun _ => keeps_pure _
    | none =>
      refine (hset chunkCache).bind fun _ => triple_ite (fun _ => triple_throw fun _ hs => hs)
        fun _ => ?_
      refine Keeps.bind (keeps_modify (f := fun reader => { reader with
        chunkInFlight := chunkId :: reader.chunkInFlight }) fun _ => rfl) fun _ => ?_
      refine Triple.bind (Q := fun _ => ValidPages lru image) (triple_tryCatch
        (keeps_decodeIntoCache chunkId) fun stop => ?_) fun decoded => ?_
      · exact hend.bind fun _ => triple_throw fun _ hs => hs
      · exact hend.bind fun _ => keeps_pure _

theorem keeps_readAtLoop (toRead fuel current : Nat) (copied : Bytes) :
    Keeps (ValidPages lru image) (readAtLoop codec image toRead fuel current copied) := by
  induction fuel generalizing current copied with
  | zero => exact keeps_pure _
  | succ fuel ih =>
    refine triple_ite (fun _ => ?_) fun _ => keeps_pure _
    refine keeps_ensureNotAborted.bind fun _ => (keeps_readChunk _).bind fun decoded => ?_
    exact triple_ite (fun _ => keeps_pure _) fun _ => ih _ _

theorem keeps_readAt (length offset : Nat) :
    Keeps (ValidPages lru image) (readAt codec image length offset) := by
  refine keeps_ensureNotAborted.bind fun _ => triple_ite (fun _ => keeps_pure _) fun _ => ?_
  exact triple_ite (fun _ => keeps_fail _) fun _ => keeps_readAtLoop _ _ _ _

theorem keeps_readTableBytesAt (segmentIndex offset size : Nat) :
    Keeps (ValidPages lru image) (readTableBytesAt image segmentIndex offset size) := by
  rcases Nat.eq_zero_or_pos size with rfl | hsize
  · exact keeps_get fun _ => triple_ite (fun _ => keeps_fromResult _) fun _ => keeps_pure _
  · refine Triple.of_state fun start hstart => ?_
    have hagrees : Agrees (Paged image start) Stop.IsError
        (readTableBytesAt image segmentIndex offset size)
        (image.readDirect segmentIndex offset size) := agrees_readTableBytesAt offset hsize
    refine hagrees.weaken ?_ (fun _ s hs => hs.1.valid) fun _ s hs => hs.1.valid
    rintro s rfl
    exact ⟨rfl, hstart⟩

theorem validPages_of_step {reader reader' : Reader lru} {operation : TableOperation}
    (h : ValidPages lru image reader) (hstep : TableStep codec image reader operation reader') :
    ValidPages lru image reader' := by
  cases hstep
  cases operation with
  | readTableBytesAt segmentIndex offset size =>
    exact (keeps_readTableBytesAt segmentIndex offset size).after h
  | image operation =>
    cases operation with
    | readAt length offset => exact (keeps_readAt length offset).after h
    | readDataChunk chunkIndex => exact (keeps_readDataChunk unmoved_validPages chunkIndex).after h
    | readEncodedDataChunk chunkIndex =>
      exact (keeps_readEncodedDataChunk unmoved_validPages chunkIndex).after h
    | verificationChunk chunkId =>
      exact (keeps_verificationChunk unmoved_validPages chunkId).after h
    | setReadZeroChunkOnError zeroOnError => exact h
    | signalAbort => exact h

theorem validPages_of_run {options : OpenOptions} {history : List TableOperation}
    {reader : Reader lru}
    (h : Run (TableStep codec image) (Reader.new lru image options) history reader) :
    ValidPages lru image reader :=
  h.invariant (fun _ _ _ hvalid hstep => validPages_of_step hvalid hstep)
    fun _ hentry => absurd hentry (Interface.not_mem_new _ _)

/-- With the cache disabled, the segment is read. -/
theorem readTableBytesAt_of_disabled {reader : Reader lru}
    (h : reader.tablePageCache.isDisabled = true) (segmentIndex offset size : Nat) :
    readTableBytesAt image segmentIndex offset size reader =
      fromResult (image.readDirect segmentIndex offset size) reader := by
  change (if reader.tablePageCache.isDisabled then _ else _ : Read lru Bytes) reader = _
  rw [if_pos h]
  rfl

theorem returns_of_disabled {reader : Reader lru} (h : reader.tablePageCache.isDisabled = true)
    {segmentIndex offset size : Nat} {bytes : Bytes} :
    (∃ reader', readTableBytesAt image segmentIndex offset size reader = .ok bytes reader') ↔
      image.readDirect segmentIndex offset size = .ok bytes := by
  rw [readTableBytesAt_of_disabled h]
  cases image.readDirect segmentIndex offset size with
  | ok found =>
    constructor
    · rintro ⟨_, hfound⟩
      cases hfound
      rfl
    · intro hfound
      cases hfound
      exact ⟨reader, rfl⟩
  | error e =>
    constructor
    · rintro ⟨_, hfound⟩
      cases hfound
    · intro hfound
      cases hfound

/-- A read through the cache returns the bytes that a read with the cache disabled returns. -/
def ReadsDirectly (image : Image) (reader : Reader lru) (segmentIndex offset size : Nat) : Prop :=
  ∀ disabled : Reader lru, disabled.tablePageCache.isDisabled = true → ∀ bytes,
    (∃ reader', readTableBytesAt image segmentIndex offset size reader = .ok bytes reader') ↔
      ∃ reader', readTableBytesAt image segmentIndex offset size disabled = .ok bytes reader'

theorem ValidPages.readsDirectly {reader : Reader lru} (h : ValidPages lru image reader)
    (segmentIndex offset : Nat) {size : Nat} (hsize : 0 < size) :
    ReadsDirectly image reader segmentIndex offset size := by
  have hagrees : Agrees (Paged image reader) Stop.IsError
      (readTableBytesAt image segmentIndex offset size)
      (image.readDirect segmentIndex offset size) := agrees_readTableBytesAt offset hsize
  have hrun := hagrees reader ⟨rfl, h⟩
  intro disabled hdisabled bytes
  rw [returns_of_disabled hdisabled]
  cases hend : readTableBytesAt image segmentIndex offset size reader with
  | ok found reader' =>
    rw [hend] at hrun
    rw [hrun.2]
    constructor
    · rintro ⟨_, hfound⟩
      cases hfound
      rfl
    · intro hfound
      cases hfound
      exact ⟨reader', rfl⟩
  | error stop reader' =>
    rw [hend] at hrun
    constructor
    · rintro ⟨_, hfound⟩
      cases hfound
    · intro hfound
      exact absurd hfound (hrun.2.2 bytes)

/-- Without a byte to read, no page is looked at. -/
theorem readTableBytesAt_zero {reader : Reader lru} (h : reader.tablePageCache.isDisabled = false)
    (segmentIndex offset : Nat) :
    readTableBytesAt image segmentIndex offset 0 reader = .ok [] reader := by
  change (if reader.tablePageCache.isDisabled then _ else _ : Read lru Bytes) reader = _
  rw [h]
  rfl

end Reads

/-! ## The cache and the reads through it -/

/-- The account of the cache is right whatever was inserted and looked up, and a table read
returns the bytes of the segment whatever the reader did before. -/
theorem tablePageCache_keeps {capacity : Nat} {operations : List CacheOperation}
    (hcapacity : capacity < u64Limit) (hmemory : OperationsInMemory lru capacity operations)
    {codec : Codec} {image : Image} {options : OpenOptions} {history : List TableOperation}
    {reader : Reader lru}
    (hrun : Run (TableStep codec image) (Reader.new lru image options) history reader)
    (segmentIndex offset size : Nat) :
    KeepsAccount lru capacity operations ∧
      (0 < size → ReadsDirectly image reader segmentIndex offset size) ∧
      (reader.tablePageCache.isDisabled = false →
        readTableBytesAt image segmentIndex offset 0 reader = .ok [] reader) :=
  ⟨keepsAccount hcapacity hmemory,
    fun hsize => (validPages_of_run hrun).readsDirectly segmentIndex offset hsize,
    fun henabled => readTableBytesAt_zero henabled segmentIndex offset⟩

def firstPage : TablePageKey := ⟨0, 0⟩

theorem operationsInMemory_of_lt {capacity : Nat} (h : capacity < u64Limit - 1)
    (operations : List CacheOperation) : OperationsInMemory lru capacity operations :=
  fun _ _ _ _ hlargest => absurd hlargest (Nat.ne_of_lt h)

/-- A page is replaced, and the reader has a page of its own. -/
theorem tablePageCache_keeps_replaced :
    KeepsAccount byRecency 8 [.insert firstPage [1, 1, 1], .insert firstPage [2, 2, 2, 2, 2]] ∧
      (0 < 4 → ReadsDirectly damagedImage
        (TableOperation.apply plainCodec damagedImage
          (Reader.new byRecency damagedImage damagedOptions) (.readTableBytesAt 0 0 4)) 0 2 4) ∧
      ((TableOperation.apply plainCodec damagedImage
          (Reader.new byRecency damagedImage damagedOptions)
          (.readTableBytesAt 0 0 4)).tablePageCache.isDisabled = false →
        readTableBytesAt damagedImage 0 2 0
          (TableOperation.apply plainCodec damagedImage
            (Reader.new byRecency damagedImage damagedOptions) (.readTableBytesAt 0 0 4)) =
          .ok [] (TableOperation.apply plainCodec damagedImage
            (Reader.new byRecency damagedImage damagedOptions) (.readTableBytesAt 0 0 4))) :=
  tablePageCache_keeps (by decide) (operationsInMemory_of_lt (by decide) _) (.one rfl) 0 2 4

def uncachedReader : Reader byRecency :=
  Reader.new byRecency damagedImage { tableEntryCacheSizeBytes := 0 }

/-- An insert that the cache refuses leaves an older page under its key, and a read of no bytes
behind the end of a segment only fails without the cache. -/
theorem tablePageCache_serves_older :
    (¬ ∀ (capacity : Nat) (operations : List CacheOperation), capacity < u64Limit →
      OperationsInMemory byRecency capacity operations → ∀ key page,
      ((cacheAfter byRecency capacity operations).get key).1 = some page →
      lastInserted key operations = some page) ∧
    ¬ ∀ (image : Image) (options : OpenOptions) (segmentIndex offset size : Nat),
      ReadsDirectly image (Reader.new byRecency image options) segmentIndex offset size := by
  constructor
  · intro hall
    have hpage := hall 2 [.insert firstPage [1], .insert firstPage [2, 2, 2]] (by decide)
      (operationsInMemory_of_lt (by decide) _) firstPage [1] (by decide)
    exact absurd hpage (by decide)
  · intro hall
    have hread := returns_of_disabled rfl |>.mp
      ((hall damagedImage damagedOptions 0 10 0 uncachedReader rfl []).mp
        ⟨_, readTableBytesAt_zero rfl 0 10⟩)
    obtain ⟨source, hsource, hfits, -⟩ := readDirect_eq_ok.mp hread
    cases hsource
    exact absurd hfits (by decide)

end EwfImage.Reading
