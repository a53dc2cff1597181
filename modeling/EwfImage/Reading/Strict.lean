import EwfImage.Reading.Reader

/-!
# Strict decoding

The strict reading of a chunk goes to the segments directly and never substitutes. The
readers get the same through their caches: a table page in the cache is a page of a
segment, so every table read is a read of the segment.

The lemmas say that a look-up through the caches agrees with the one in the segments, in the
sense of `Lib.Triples`: for every table of a sound reader, whatever it holds.
`agrees_lookupChunk` puts them together.
-/

namespace EwfImage.Reading

open Fallible LittleEndian LruCache Slice Triples Word

/-! ## Without caches -/

namespace Image

variable (codec : Codec) (image : Image)

def readDirect (segmentIndex offset size : Nat) : Result Bytes :=
  image.readSegmentRange segmentIndex offset size false

def strictLookup (chunkId : Nat) : Result Chunk := do
  let range ← image.index.rangeFor chunkId
  let localIndex ← okOr (.malformed "chunk range underflow")
    (checkedSub chunkId range.firstChunk)
  let logicalSize ← logicalChunkSize image.logicalSize image.chunkSize chunkId
  match range.kind with
  | .ewf1 => lookupEwf1Chunk image.readDirect range image.chunkSize localIndex logicalSize
  | .ewf2 => lookupEwf2Chunk image.readDirect range image.chunkSize localIndex logicalSize

/-- The strictly decoded bytes of a chunk. -/
def strictChunk (chunkId : Nat) : Result Bytes := do
  let chunk ← image.strictLookup chunkId
  image.decodeChunk codec chunkId chunk

/-- Zeros stand in for the chunk when the policy asks for it. -/
def Substitutes (chunkId : Nat) : Prop :=
  ∃ chunk reason, image.strictLookup chunkId = .ok chunk ∧
    image.decodeChunk codec chunkId chunk = .error (.malformed reason) ∧
    image.encryptionContext chunk.segmentIndex = none

end Image

/-- The operation ended with an error of the source. -/
def Stop.IsError (stop : Stop) : Prop := ∃ e, stop = .error e

/-! ## Table pages -/

variable {lru : Interface}

/-- The cached pages are pages of the segments. -/
def PagesValid (image : Image) (cache : TablePageCache lru) : Prop :=
  ∀ entry ∈ lru.entries cache.pages,
    image.readSegmentRange entry.1.segmentIndex entry.1.pageOffset tablePageSize true = .ok entry.2

/-- Only the table pages have changed, and they are valid. -/
structure Paged (image : Image) (start reader : Reader lru) : Prop where
  frame : reader = { start with tablePageCache := reader.tablePageCache }
  valid : PagesValid image reader.tablePageCache

section Pages

variable {image : Image} {start : Reader lru} {cache : TablePageCache lru} {segmentIndex : Nat}

theorem PagesValid.evict (h : PagesValid image cache) (size fuel : Nat) :
    PagesValid image (cache.evict size fuel) := by
  induction fuel generalizing cache with
  | zero => exact h
  | succ fuel ih =>
    unfold TablePageCache.evict
    split
    · split
      · rename_i key evicted pages hpopped
        refine ih fun entry hentry => h entry ?_
        have hpages : pages = (lru.popLru cache.pages).2 := by rw [hpopped]
        have hentry : entry ∈ lru.entries pages := hentry
        rw [hpages] at hentry
        exact Interface.mem_entries_popLru hentry
      · exact h
    · exact h

theorem PagesValid.insert {key : TablePageKey} {bytes : Bytes} (h : PagesValid image cache)
    (hbytes : image.readSegmentRange key.segmentIndex key.pageOffset tablePageSize true = .ok bytes) :
    PagesValid image (cache.insert key bytes) := by
  unfold TablePageCache.insert
  split
  · exact h
  · have hpopped : PagesValid image { cache with
        pages := (lru.pop cache.pages key).2
        cachedBytes := cache.cachedBytes - ((lru.pop cache.pages key).1.map List.length).getD 0 } :=
      fun entry hentry => h entry ((lru.mem_entries_pop _ _ _).mp hentry).1
    intro entry hentry
    rcases Interface.mem_entries_put hentry with rfl | hold
    · exact hbytes
    · exact hpopped.evict _ _ entry hold

theorem paged_pages {reader : Reader lru} {pages : lru.Cache TablePageKey Bytes}
    (h : Paged image start reader)
    (hpages : ∀ entry ∈ lru.entries pages, entry ∈ lru.entries reader.tablePageCache.pages) :
    Paged image start
      { reader with tablePageCache := { reader.tablePageCache with pages := pages } } := by
  refine ⟨?_, fun entry hentry => h.valid entry (hpages entry hentry)⟩
  rw [h.frame]

theorem agrees_fromResult {α : Type} {P : Reader lru → Prop} (r : Result α) :
    Agrees P Stop.IsError (fromResult r) r := by
  cases r with
  | ok a => exact agrees_pure
  | error e => exact agrees_throw ⟨e, rfl⟩

theorem agrees_readTablePage (pageOffset : Nat) :
    Agrees (Paged image start) Stop.IsError (readTablePage image segmentIndex pageOffset)
      (image.readSegmentRange segmentIndex pageOffset tablePageSize true) := by
  refine Triple.bind_get fun reader hreader => ?_
  have hkept : ∀ entry ∈
      lru.entries (lru.get reader.tablePageCache.pages ⟨segmentIndex, pageOffset⟩).2,
      entry ∈ lru.entries reader.tablePageCache.pages := fun _ => Interface.mem_entries_get
  cases hget : lru.get reader.tablePageCache.pages ⟨segmentIndex, pageOffset⟩ with
  | mk found pages =>
    rw [hget] at hkept
    cases found with
    | some page =>
      have hmem : (⟨segmentIndex, pageOffset⟩, page) ∈ lru.entries reader.tablePageCache.pages :=
        Interface.mem_of_get (by rw [hget])
      have hpage := hreader.valid _ hmem
      intro s hs
      exact ⟨paged_pages hreader hkept, hpage⟩
    | none =>
      have hset : Triple (· = reader)
          (set { reader with tablePageCache := { reader.tablePageCache with pages := pages } } :
            Read lru PUnit) (fun _ => Paged image start) fun _ _ => False := by
        intro s hs
        exact paged_pages hreader hkept
      refine Triple.bind (hset.weaken (fun _ hs => hs) (fun _ _ hs => hs) fun _ _ hs => hs.elim)
        fun _ => ?_
      refine Triple.bind ((agrees_fromResult _).weaken (fun _ hs => hs) (fun _ _ hs => hs)
        fun _ _ hs => hs) fun bytes => ?_
      refine Triple.bind (Q := fun _ s => Paged image start s ∧
        image.readSegmentRange segmentIndex pageOffset tablePageSize true = .ok bytes) ?_
        fun _ => triple_pure fun _ hs => hs
      refine triple_modify fun s hs => ⟨⟨?_, hs.1.valid.insert hs.2⟩, hs.2⟩
      rw [hs.1.frame]

/-! ## Table reads -/

theorem readDirect_eq_ok {offset size : Nat} {bytes : Bytes} :
    image.readDirect segmentIndex offset size = .ok bytes ↔
      ∃ source, image.segments[segmentIndex]? = some source ∧
        offset + size ≤ source.bytes.length ∧ bytes = slice source.bytes offset size := by
  simp only [Image.readDirect, Image.readSegmentRange, Image.boundedSize, bind_eq_ok, okOr_eq_ok,
    Bool.false_eq_true, if_false, rejectIf_eq_ok, pure_eq_ok, Except.ok.injEq]
  constructor
  · rintro ⟨source, hsource, _, ⟨_, hfits, rfl⟩, rfl⟩
    refine ⟨source, hsource, ?_, rfl⟩
    by_contra hlong
    refine hfits ?_
    cases hsum : checkedAdd offset size with
    | none => rfl
    | some stop =>
      obtain ⟨-, rfl⟩ := checkedAdd_eq_some.mp hsum
      simpa using hlong
  · rintro ⟨source, hsource, hfits, rfl⟩
    have hlength := source.length_lt
    refine ⟨source, hsource, size, ⟨(), ?_, rfl⟩, rfl⟩
    rw [checkedAdd_of_lt (by omega)]
    simpa using hfits

theorem readPage_eq_ok {pageOffset : Nat} {page : Bytes} :
    image.readSegmentRange segmentIndex pageOffset tablePageSize true = .ok page ↔
      ∃ source, image.segments[segmentIndex]? = some source ∧ pageOffset < source.bytes.length ∧
        page = slice source.bytes pageOffset tablePageSize := by
  simp only [Image.readSegmentRange, Image.boundedSize, bind_eq_ok, okOr_eq_ok, if_true,
    rejectIf_eq_ok, pure_eq_ok, Except.ok.injEq]
  have hsame : ∀ source : Bytes,
      slice source pageOffset (min tablePageSize (source.length - pageOffset)) =
        slice source pageOffset tablePageSize := by
    intro source
    have htake := List.take_eq_take_min (l := source.drop pageOffset) (i := tablePageSize)
    rw [List.length_drop] at htake
    exact htake.symm
  have hsize : 0 < tablePageSize := by decide
  constructor
  · rintro ⟨source, hsource, _, ⟨_, hpos, rfl⟩, rfl⟩
    exact ⟨source, hsource, by omega, hsame source.bytes⟩
  · rintro ⟨source, hsource, hlt, rfl⟩
    exact ⟨source, hsource, _, ⟨(), by omega, rfl⟩, hsame source.bytes⟩

/-- The output is the front of a table read. -/
def IsFront (image : Image) (segmentIndex offset : Nat) (output : Bytes) : Prop :=
  output ≠ [] → ∃ source, image.segments[segmentIndex]? = some source ∧
    offset + output.length ≤ source.bytes.length ∧ output = slice source.bytes offset output.length

theorem IsFront.all {offset requested : Nat} {output : Bytes}
    (h : IsFront image segmentIndex offset output) (hpositive : 0 < requested)
    (hlength : output.length = requested) :
    image.readDirect segmentIndex offset requested = .ok output := by
  obtain ⟨source, hsource, hfits, hslice⟩ := h (List.length_pos_iff.mp (by omega))
  rw [hlength] at hfits hslice
  exact readDirect_eq_ok.mpr ⟨source, hsource, hfits, hslice⟩

/-- The loop over the pages returns the bytes of the segment. -/
theorem triple_readTablePages {offset requested fuel : Nat} {output : Bytes}
    (hpositive : 0 < requested) (hle : output.length ≤ requested)
    (hfuel : requested ≤ output.length + fuel) (houtput : IsFront image segmentIndex offset output) :
    Triple (Paged image start)
      (readTablePages image segmentIndex requested fuel (offset + output.length) output)
      (fun bytes s => Paged image start s ∧
        image.readDirect segmentIndex offset requested = .ok bytes)
      fun stop s => Paged image start s ∧ stop.IsError ∧
        ∀ bytes, image.readDirect segmentIndex offset requested ≠ .ok bytes := by
  induction fuel generalizing output with
  | zero => exact triple_pure fun s hs => ⟨hs, houtput.all hpositive (by omega)⟩
  | succ fuel ih =>
    rw [readTablePages]
    by_cases hlt : output.length < requested
    · rw [if_pos hlt]
      have hmod := Nat.mod_lt (offset + output.length) (by decide : 0 < tablePageSize)
      have hmodLe := Nat.mod_le (offset + output.length) tablePageSize
      refine Triple.bind ((agrees_readTablePage _).weaken (fun _ hs => hs) (fun _ _ hs => hs)
        fun _ s hs => ⟨hs.1, hs.2.1, fun bytes hbytes => ?_⟩) fun page => ?_
      · obtain ⟨source, hsource, hfits, -⟩ := readDirect_eq_ok.mp hbytes
        exact hs.2.2 _ (readPage_eq_ok.mpr ⟨source, hsource, by omega, rfl⟩)
      · refine Triple.of_fact (p := image.readSegmentRange segmentIndex _ tablePageSize true =
          .ok page) (fun hpage => ?_) fun s hs => hs.2
        refine Triple.of_pre (P := Paged image start) ?_ fun s hs => hs.1
        obtain ⟨source, hsource, hstart, rfl⟩ := readPage_eq_ok.mp hpage
        rw [length_slice]
        by_cases havailable : min tablePageSize (source.bytes.length -
            (offset + output.length - (offset + output.length) % tablePageSize)) -
            (offset + output.length) % tablePageSize = 0
        · rw [if_pos havailable]
          refine triple_throw fun s hs => ⟨hs, ⟨_, rfl⟩, fun bytes hbytes => ?_⟩
          obtain ⟨source', hsource', hfits, -⟩ := readDirect_eq_ok.mp hbytes
          rw [hsource] at hsource'
          cases hsource'
          omega
        · rw [if_neg havailable]
          generalize htake : min (min tablePageSize (source.bytes.length -
              (offset + output.length - (offset + output.length) % tablePageSize)) -
              (offset + output.length) % tablePageSize) (requested - output.length) = take
          have hlength := source.length_lt
          have hbound : offset + output.length + take ≤ source.bytes.length := by omega
          have hpart : slice (slice source.bytes
              (offset + output.length - (offset + output.length) % tablePageSize) tablePageSize)
              ((offset + output.length) % tablePageSize) take =
              slice source.bytes (offset + output.length) take := by
            rw [slice_slice (by omega), Nat.sub_add_cancel hmodLe]
          have hmore : output ++ slice source.bytes (offset + output.length) take =
              slice source.bytes offset (output.length + take) := by
            rw [← slice_append_slice]
            by_cases hnil : output = []
            · simp [hnil]
            · obtain ⟨source', hsource', -, hslice⟩ := houtput hnil
              rw [hsource] at hsource'
              cases hsource'
              rw [← hslice]
          have hmoreLength : (output ++ slice source.bytes (offset + output.length) take).length =
              output.length + take := by
            rw [List.length_append, length_slice_of_le hbound]
          dsimp only
          rw [checkedAdd_of_lt (by omega), okOr_some]
          refine Triple.bind (Q := fun next s => next = offset + output.length + take ∧
            Paged image start s) (triple_pure fun s hs => ⟨rfl, hs⟩) fun next => ?_
          refine Triple.of_fact (p := next = offset + output.length + take) (fun hnext => ?_)
            fun s hs => hs.1
          rw [hpart, hnext, Nat.add_assoc, ← hmoreLength]
          have hfront : IsFront image segmentIndex offset
              (output ++ slice source.bytes (offset + output.length) take) := by
            intro _
            rw [hmoreLength]
            exact ⟨source, hsource, by omega, hmore⟩
          exact (ih (by omega) (by omega) hfront).of_pre fun s hs => hs.2
    · rw [if_neg hlt]
      exact triple_pure fun s hs => ⟨hs, houtput.all hpositive (by omega)⟩

theorem agrees_get {α : Type} {P : Reader lru → Prop} {f : Reader lru → Read lru α} {r : Result α}
    (h : ∀ reader, P reader → Agrees P Stop.IsError (f reader) r) :
    Agrees P Stop.IsError (get >>= f) r :=
  Triple.bind_get fun reader hreader => (h reader hreader).of_pre fun _ hs => hs ▸ hreader

theorem agrees_readTableBytesAt (offset : Nat) {size : Nat} (hsize : 0 < size) :
    Agrees (Paged image start) Stop.IsError (readTableBytesAt image segmentIndex offset size)
      (image.readDirect segmentIndex offset size) := by
  refine agrees_get fun reader _ => triple_ite (fun _ => agrees_fromResult _) fun _ => ?_
  have hfront : IsFront image segmentIndex offset [] := fun hnil => absurd rfl hnil
  exact triple_readTablePages hsize (Nat.zero_le _) (by simp) hfront

/-! ## Lookups -/

theorem agrees_lookupEwf1 (range : TableRange) (localIndex logicalSize : Nat) :
    Agrees (Paged image start) Stop.IsError (lookupEwf1 image range localIndex logicalSize)
      (lookupEwf1Chunk image.readDirect range image.chunkSize localIndex logicalSize) := by
  refine (agrees_fromResult _).bind fun entryOffset _ => ?_
  refine (agrees_readTableBytesAt entryOffset (by decide)).bind fun raw _ => ?_
  refine Agrees.bind ?_ fun nextRaw _ => agrees_fromResult _
  by_cases hnext : localIndex + 1 < range.chunkCount
  · rw [if_pos hnext, if_pos hnext]
    refine (agrees_fromResult _).bind fun nextOffset _ => ?_
    exact (agrees_readTableBytesAt nextOffset (by decide)).bind fun _ _ => agrees_pure
  · rw [if_neg hnext, if_neg hnext]
    exact agrees_pure

/-- The entry is read first. -/
theorem lookupEwf2Chunk_eq (readTable : Nat → Nat → Nat → Result Bytes) (range : TableRange)
    (chunkSize localIndex logicalSize : Nat) :
    lookupEwf2Chunk readTable range chunkSize localIndex logicalSize =
      tableEntryOffset range localIndex Ewf2.tableEntrySize >>= fun entryOffset =>
        readTable range.segmentIndex entryOffset Ewf2.tableEntrySize >>= fun entryData =>
          lookupEwf2Chunk (fun _ _ _ => .ok entryData) range chunkSize localIndex logicalSize := by
  unfold lookupEwf2Chunk readEwf2TableEntry
  cases tableEntryOffset range localIndex Ewf2.tableEntrySize with
  | error e => rfl
  | ok entryOffset =>
    simp only [ok_bind]
    cases readTable range.segmentIndex entryOffset Ewf2.tableEntrySize with
    | error e => rfl
    | ok entryData => rfl

theorem agrees_lookupEwf2 (range : TableRange) (localIndex logicalSize : Nat) :
    Agrees (Paged image start) Stop.IsError (lookupEwf2 image range localIndex logicalSize)
      (lookupEwf2Chunk image.readDirect range image.chunkSize localIndex logicalSize) := by
  rw [lookupEwf2Chunk_eq]
  refine (agrees_fromResult _).bind fun entryOffset _ => ?_
  exact (agrees_readTableBytesAt entryOffset (by decide)).bind fun _ _ => agrees_fromResult _

/-- The lookup of a chunk through the table pages. -/
theorem agrees_lookupChunk (chunkId : Nat) :
    Agrees (Paged image start) Stop.IsError (lookupChunk image chunkId) (image.strictLookup chunkId) := by
  refine (agrees_fromResult _).bind fun range _ => ?_
  refine (agrees_fromResult _).bind fun localIndex _ => ?_
  refine (agrees_fromResult _).bind fun logicalSize _ => ?_
  cases range.kind with
  | ewf1 => exact agrees_lookupEwf1 range localIndex logicalSize
  | ewf2 => exact agrees_lookupEwf2 range localIndex logicalSize

end Pages

end EwfImage.Reading
