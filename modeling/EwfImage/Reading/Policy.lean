import EwfImage.Reading.Media

/-!
# Reading under a policy

A reader serves chunks when its caches hold only pages of the segments and served chunks of
the media. A read keeps such a reader, and returns its part of the media exactly when the
chunks of the part are served: under a policy that puts zeros in place of chunks
(`triple_readAt_policy`), and from decoded chunks alone as long as the read meets no other
(`triple_readAt`).

The loop is by the bytes that are left to read, with the reader's soundness as its invariant.
Which chunks are served is a parameter of the invariant, so one proof covers both results. The
segments have fixed bytes; a failed read leaves a sound reader, too.
-/

namespace EwfImage.Reading

open Fallible LruCache Slice Triples Word

section Soundness

variable (codec : Codec) (image : Image) {lru : Interface}

/-- The caches hold pages of the segments and strictly decoded chunks. -/
structure Sound (reader : Reader lru) : Prop where
  pages : PagesValid image reader.tablePageCache
  chunks : ∀ entry ∈ lru.entries reader.chunkCache, image.strictChunk codec entry.1 = .ok entry.2

/-- A sound reader under a policy, with the chunks that are being decoded. -/
structure Running (policy : Bool) (flights : List Nat) (reader : Reader lru) : Prop
    extends Sound codec image reader where
  policy : reader.readZeroChunkOnError = policy
  flights : reader.chunkInFlight = flights
  running : reader.abortSignaled = false

/-- The chunk decodes, or zeros stand in for it under the policy. -/
def Image.Serves (policy : Bool) (chunkId : Nat) : Prop :=
  image.Decodes codec chunkId ∨ policy = true ∧ image.Substitutes codec chunkId

/-- A running reader whose caches hold pages of the segments and chunks of the media that are
served. -/
structure Serving (served : Nat → Prop) (policy : Bool) (flights : List Nat) (reader : Reader lru) :
    Prop where
  pages : PagesValid image reader.tablePageCache
  chunks : ∀ entry ∈ lru.entries reader.chunkCache,
    served entry.1 ∧ entry.2 = image.mediaChunk codec entry.1
  policy : reader.readZeroChunkOnError = policy
  flights : reader.chunkInFlight = flights
  running : reader.abortSignaled = false

end Soundness

section Operations

variable {lru : Interface} {codec : Codec} {image : Image} {served : Nat → Prop} {policy : Bool}
  {flights : List Nat} {chunkId : Nat}

theorem serving_of_paged {start reader : Reader lru}
    (hstart : Serving codec image served policy flights start) (h : Paged image start reader) :
    Serving codec image served policy flights reader := by
  obtain ⟨hframe, hvalid⟩ := h
  rw [hframe]
  exact ⟨hvalid, hstart.chunks, hstart.policy, hstart.flights, hstart.running⟩

/-- What only changes the table pages can be used under a serving reader. -/
theorem agrees_of_paged {α : Type} {x : Read lru α} {r : Result α}
    (h : ∀ start, Agrees (Paged image start) Stop.IsError x r) :
    Agrees (Serving codec image served policy flights) Stop.IsError x r := by
  refine Triple.of_state fun start hstart => (h start).weaken ?_ ?_ ?_
  · rintro s rfl
    exact ⟨rfl, hstart.pages⟩
  · exact fun _ s hs => ⟨serving_of_paged hstart hs.1, hs.2⟩
  · exact fun _ s hs => ⟨serving_of_paged hstart hs.1, hs.2⟩

theorem agrees_ensureNotAborted :
    Agrees (Serving codec image served policy flights) Stop.IsError
      (ensureNotAborted : Read lru Unit) (.ok () : Result Unit) := by
  refine agrees_get fun reader hreader => ?_
  rw [hreader.running]
  exact agrees_pure

/-- A serving reader is not stopped by the check. -/
theorem triple_ensureNotAborted {α : Type} {x : Read lru α} {Q : α → Reader lru → Prop}
    {E : Stop → Reader lru → Prop} (h : Triple (Serving codec image served policy flights) x Q E) :
    Triple (Serving codec image served policy flights) (ensureNotAborted >>= fun _ => x) Q E :=
  Triple.bind (Q := fun _ => Serving codec image served policy flights)
    (agrees_ensureNotAborted.weaken (fun _ hs => hs) (fun _ _ hs => hs.1)
      fun _ _ hs => absurd rfl (hs.2.2 ())) fun _ => h

/-- The computation returns the chunk of the media when it is served, and fails otherwise. -/
def Supplies (codec : Codec) (image : Image) (served : Nat → Prop) (policy : Bool)
    (flights : List Nat) (chunkId : Nat) (x : Read lru Bytes) : Prop :=
  Triple (Serving codec image served policy flights) x
    (fun bytes s => Serving codec image served policy flights s ∧ served chunkId ∧
      bytes = image.mediaChunk codec chunkId)
    fun stop s => Serving codec image served policy flights s ∧ stop.IsError ∧ ¬ served chunkId

theorem recordChecksumError_ok {chunk : Chunk} (hlookup : image.strictLookup chunkId = .ok chunk)
    {reader : Reader lru} (h : Serving codec image served policy flights reader) :
    ∃ reader', recordChecksumError image chunkId chunk.logicalSize reader = .ok ⟨⟩ reader' ∧
      Serving codec image served policy flights reader' := by
  have hoffset : chunkId * image.chunkSize < u64Limit := by
    simp only [Image.strictLookup, bind_eq_ok] at hlookup
    obtain ⟨range, -, localIndex, -, logicalSize, hsize, -⟩ := hlookup
    simp only [logicalChunkSize, bind_eq_ok, okOr_eq_ok, checkedMul_eq_some] at hsize
    exact hsize.choose_spec.1.1
  have hrange : ∃ range, image.checksumErrorRange chunkId chunk.logicalSize = .ok range := by
    rw [Image.checksumErrorRange, checkedMul_of_lt hoffset, okOr_some, ok_bind]
    cases image.bytesPerSector.filter (· ≠ 0) with
    | none => exact ⟨_, rfl⟩
    | some bytesPerSector => exact ⟨_, rfl⟩
  obtain ⟨range, hrange⟩ := hrange
  refine ⟨if range ∈ reader.checksumErrors then reader
    else { reader with checksumErrors := reader.checksumErrors ++ [range] }, ?_, ?_⟩
  · rw [recordChecksumError, hrange]
    rfl
  · split
    · exact h
    · exact ⟨h.pages, h.chunks, h.policy, h.flights, h.running⟩

/-- A chunk that does not decode and has been looked up is served when the policy is on and the
error is one of the data. -/
theorem serves_iff_of_error {chunk : Chunk} {e : EwfError}
    (hlookup : image.strictLookup chunkId = .ok chunk)
    (hdecode : image.decodeChunk codec chunkId chunk = .error e) :
    image.Serves codec policy chunkId ↔ policy = true ∧ (∃ reason, e = .malformed reason) ∧
      image.encryptionContext chunk.segmentIndex = none := by
  have hstrict : image.strictChunk codec chunkId = .error e := by
    rw [Image.strictChunk, hlookup, ok_bind, hdecode]
  constructor
  · rintro (⟨decoded, hdecoded⟩ | ⟨hpolicy, other, reason, hother, herror, hcontext⟩)
    · rw [hstrict] at hdecoded
      cases hdecoded
    · rw [hlookup] at hother
      cases hother
      rw [hdecode] at herror
      exact ⟨hpolicy, ⟨reason, Except.error.inj herror⟩, hcontext⟩
  · rintro ⟨hpolicy, ⟨reason, rfl⟩, hcontext⟩
    exact .inr ⟨hpolicy, chunk, reason, hlookup, hdecode, hcontext⟩

/-- A chunk that does not decode takes its place in the media with zeros. -/
theorem mediaChunk_of_error {chunk : Chunk} {e : EwfError}
    (hlookup : image.strictLookup chunkId = .ok chunk)
    (hdecode : image.decodeChunk codec chunkId chunk = .error e) :
    image.mediaChunk codec chunkId = List.replicate chunk.logicalSize 0 := by
  have hstrict : image.strictChunk codec chunkId = .error e := by
    rw [Image.strictChunk, hlookup, ok_bind, hdecode]
  rw [Image.mediaChunk, hstrict, Image.strictLookup_logicalSize hlookup]

theorem triple_decodeChunkWithPolicy {chunk : Chunk}
    (hlookup : image.strictLookup chunkId = .ok chunk)
    (hserved : served chunkId ↔ image.Serves codec policy chunkId) :
    Triple (Serving codec image served policy flights)
      (decodeChunkWithPolicy codec image chunkId chunk : Read lru (Bytes × Bool))
      (fun decoded s => Serving codec image served policy flights s ∧ served chunkId ∧
        decoded.1 = image.mediaChunk codec chunkId)
      fun stop s => Serving codec image served policy flights s ∧ stop.IsError ∧
        ¬ served chunkId := by
  refine triple_ensureNotAborted ?_
  refine Triple.bind_get fun reader hreader => ?_
  refine Triple.of_pre (P := Serving codec image served policy flights) ?_ fun s hs => hs ▸ hreader
  cases hdecoded : image.decodeChunk codec chunkId chunk with
  | ok decoded =>
    have hchunk : image.strictChunk codec chunkId = .ok decoded := by
      rw [Image.strictChunk, hlookup, ok_bind, hdecoded]
    exact triple_pure fun s hs => ⟨hs, hserved.mpr (.inl ⟨decoded, hchunk⟩),
      (Image.mediaChunk_of_ok hchunk).symm⟩
  | error e =>
    have hserves : served chunkId ↔ _ := hserved.trans (serves_iff_of_error hlookup hdecoded)
    have hfail : ∀ e', ¬ served chunkId → Triple (Serving codec image served policy flights)
        (fail e' : Read lru (Bytes × Bool)) (fun decoded s =>
          Serving codec image served policy flights s ∧ served chunkId ∧
            decoded.1 = image.mediaChunk codec chunkId)
        fun stop s => Serving codec image served policy flights s ∧ stop.IsError ∧
          ¬ served chunkId :=
      fun e' hnot => triple_throw fun s hs => ⟨hs, ⟨e', rfl⟩, hnot⟩
    cases e with
    | malformed reason =>
      dsimp only
      cases hcontext : image.encryptionContext chunk.segmentIndex with
      | some context =>
        rw [if_pos Option.isSome_some]
        refine hfail _ fun h => ?_
        have hnone := (hserves.mp h).2.2
        rw [hcontext] at hnone
        cases hnone
      | none =>
        rw [if_neg (by simp)]
        by_cases hpolicy : reader.readZeroChunkOnError = true
        · rw [if_pos hpolicy]
          have hon : policy = true := hreader.policy ▸ hpolicy
          have hyes : served chunkId := hserves.mpr ⟨hon, ⟨reason, rfl⟩, hcontext⟩
          refine Triple.bind (Q := fun _ => Serving codec image served policy flights) ?_
            fun _ => ?_
          · intro s hs
            obtain ⟨s', hrun, hs'⟩ := recordChecksumError_ok hlookup hs
            rw [hrun]
            exact hs'
          · exact triple_pure fun s hs => ⟨hs, hyes, (mediaChunk_of_error hlookup hdecoded).symm⟩
        · rw [if_neg hpolicy]
          refine hfail _ fun h => hpolicy ?_
          rw [hreader.policy]
          exact (hserves.mp h).1
    | _ =>
      refine hfail _ fun h => ?_
      obtain ⟨reason, hreason⟩ := (hserves.mp h).2.1
      cases hreason

/-- A served chunk may be remembered. -/
theorem serving_put {reader : Reader lru} {bytes : Bytes}
    (h : Serving codec image served policy flights reader) (hserved : served chunkId)
    (hbytes : bytes = image.mediaChunk codec chunkId) :
    Serving codec image served policy flights
      { reader with chunkCache := lru.put reader.chunkCache chunkId bytes } := by
  refine ⟨h.pages, fun entry hentry => ?_, h.policy, h.flights, h.running⟩
  rcases Interface.mem_entries_put hentry with rfl | hold
  · exact ⟨hserved, hbytes⟩
  · exact h.chunks entry hold

theorem supplies_decodeIntoCache (hserved : served chunkId ↔ image.Serves codec policy chunkId) :
    Supplies codec image served policy flights chunkId
      (decodeIntoCache codec image chunkId : Read lru Bytes) := by
  have hlookup : Agrees (Serving codec image served policy flights) Stop.IsError
      (lookupChunk image chunkId : Read lru Chunk) (image.strictLookup chunkId) :=
    agrees_of_paged fun _ => agrees_lookupChunk chunkId
  refine Triple.bind (hlookup.weaken (fun _ hs => hs) (fun _ _ hs => hs)
    fun _ s hs => ⟨hs.1, hs.2.1, ?_⟩) fun chunk => ?_
  · intro h
    rcases hserved.mp h with ⟨decoded, hdecoded⟩ | ⟨-, chunk, -, hfound, -⟩
    · obtain ⟨chunk, hfound, -⟩ := bind_eq_ok.mp hdecoded
      exact hs.2.2 chunk hfound
    · exact hs.2.2 chunk hfound
  · refine Triple.of_fact (p := image.strictLookup chunkId = .ok chunk) (fun hfound => ?_)
      fun s hs => hs.2
    refine Triple.of_pre (P := Serving codec image served policy flights) ?_ fun s hs => hs.1
    refine Triple.bind (triple_decodeChunkWithPolicy hfound hserved) fun decoded => ?_
    refine Triple.bind (triple_modify (Q := fun _ s => Serving codec image served policy flights s ∧
      served chunkId ∧ decoded.1 = image.mediaChunk codec chunkId)
      fun s hs => ⟨serving_put hs.1 hs.2.1 hs.2.2, hs.2⟩) fun _ => ?_
    exact triple_pure fun s hs => hs

/-- The chunk through the cache, which decodes it at most once. -/
theorem supplies_readChunk (hserved : served chunkId ↔ image.Serves codec policy chunkId) :
    Supplies codec image served policy [] chunkId
      (readChunk codec image chunkId : Read lru Bytes) := by
  refine triple_ensureNotAborted ?_
  refine Triple.bind_get fun reader hreader => ?_
  have hset : ∀ chunkCache : lru.Cache Nat Bytes,
      (∀ entry ∈ lru.entries chunkCache, entry ∈ lru.entries reader.chunkCache) →
      Serving codec image served policy [] { reader with chunkCache } := fun chunkCache hmem =>
    ⟨hreader.pages, fun entry hentry => hreader.chunks entry (hmem entry hentry),
      hreader.policy, hreader.flights, hreader.running⟩
  have hmem : ∀ entry ∈ lru.entries (lru.get reader.chunkCache chunkId).2,
      entry ∈ lru.entries reader.chunkCache := fun _ => Interface.mem_entries_get
  cases hget : lru.get reader.chunkCache chunkId with
  | mk found chunkCache =>
    rw [hget] at hmem
    cases found with
    | some cached =>
      have hcached := hreader.chunks _ (Interface.mem_of_get (by rw [hget]))
      intro s hs
      exact ⟨hset chunkCache hmem, hcached⟩
    | none =>
      have hstored : Triple (· = reader)
          (set { reader with chunkCache } : Read lru PUnit)
          (fun _ => Serving codec image served policy [])
          fun stop s => Serving codec image served policy [] s ∧ stop.IsError ∧ ¬ served chunkId :=
        fun s hs => hset chunkCache hmem
      refine Triple.bind hstored fun _ => ?_
      have hidle : chunkId ∉ reader.chunkInFlight := by
        rw [hreader.flights]
        exact List.not_mem_nil
      rw [if_neg hidle]
      refine Triple.bind (triple_modify (Q := fun _ => Serving codec image served policy [chunkId])
        fun s hs => ⟨hs.pages, hs.chunks, hs.policy, ?_, hs.running⟩) fun _ => ?_
      · rw [hs.flights]
      · -- the flight ends on both ways out
        have hlanded : ∀ {s : Reader lru}, Serving codec image served policy [chunkId] s →
            Serving codec image served policy []
              { s with chunkInFlight := s.chunkInFlight.filter (· ≠ chunkId) } := by
          intro s hs
          refine ⟨hs.pages, hs.chunks, hs.policy, ?_, hs.running⟩
          simp [hs.flights]
        refine Triple.bind (Q := fun decoded s => Serving codec image served policy [chunkId] s ∧
          served chunkId ∧ decoded = image.mediaChunk codec chunkId)
          (triple_tryCatch (supplies_decodeIntoCache hserved) fun stop => ?_) fun decoded => ?_
        · refine Triple.bind (triple_modify (Q := fun _ s =>
            Serving codec image served policy [] s ∧ stop.IsError ∧ ¬ served chunkId)
            fun s hs => ⟨hlanded hs.1, hs.2⟩) fun _ => ?_
          exact triple_throw fun s hs => hs
        · refine Triple.bind (triple_modify (Q := fun _ s =>
            Serving codec image served policy [] s ∧ served chunkId ∧
              decoded = image.mediaChunk codec chunkId)
            fun s hs => ⟨hlanded hs.1, hs.2⟩) fun _ => ?_
          exact triple_pure fun s hs => hs

/-! ## Reads -/

/-- The chunks in front of a position of a read are served. -/
def ServedUpTo (image : Image) (served : Nat → Prop) (offset current : Nat) : Prop :=
  ∀ position, offset ≤ position → position < current → served (position / image.chunkSize)

/-- What one turn copies is the next part of the media. -/
theorem slice_mediaChunk_turn {current count : Nat} (hcurrent : current < image.logicalSize)
    (hcount : count ≤ (image.mediaChunk codec (current / image.chunkSize)).length -
      current % image.chunkSize) :
    slice (image.mediaChunk codec (current / image.chunkSize)) (current % image.chunkSize) count =
      slice (image.media codec) current count := by
  have hle := Image.length_mediaChunk_le codec image (current / image.chunkSize)
  have hmod := Nat.mod_lt current image.chunkSize_pos
  have hdiv := Nat.div_add_mod' current image.chunkSize
  have hfits : current % image.chunkSize + count ≤ image.chunkSize := by omega
  rw [Image.slice_mediaChunk (Image.lt_logicalChunks hcurrent) hfits, hdiv]

/-- The chunk of a position holds at least the byte there. -/
theorem lt_length_mediaChunk (codec : Codec) {current : Nat} (hcurrent : current < image.logicalSize) :
    current % image.chunkSize < (image.mediaChunk codec (current / image.chunkSize)).length := by
  have hlength := Image.length_mediaChunk codec image (current / image.chunkSize)
  have hmod := Nat.mod_lt current image.chunkSize_pos
  have hdiv := Nat.div_add_mod' current image.chunkSize
  unfold Image.chunkLength at hlength
  omega

theorem div_eq_of_turn {current count position : Nat}
    (hcount : count ≤ (image.mediaChunk codec (current / image.chunkSize)).length -
      current % image.chunkSize) (hge : current ≤ position) (hlt : position < current + count) :
    position / image.chunkSize = current / image.chunkSize := by
  have hle := Image.length_mediaChunk_le codec image (current / image.chunkSize)
  have hmod := Nat.mod_lt current image.chunkSize_pos
  have hdiv := Nat.div_add_mod' current image.chunkSize
  have hpos := image.chunkSize_pos
  refine Nat.div_eq_of_lt_le ?_ ?_
  · omega
  · rw [Nat.add_mul]
    omega

section Serves

variable {length offset : Nat} (hserved : ∀ chunkId, image.Touches length offset chunkId →
  (∀ earlier, image.Touches length offset earlier → earlier < chunkId → served earlier) →
  (served chunkId ↔ image.Serves codec policy chunkId))

include hserved

/-- The loop: what it has copied is a part of the media, from chunks that are served. -/
theorem triple_readAtLoop {fuel : Nat} {copied : Bytes} (hoffset : offset < image.logicalSize)
    (hle : copied.length ≤ min (image.logicalSize - offset) length)
    (hfuel : min (image.logicalSize - offset) length ≤ copied.length + fuel)
    (hcopied : copied = slice (image.media codec) offset copied.length)
    (hchunks : ServedUpTo image served offset (offset + copied.length)) :
    Triple (Serving codec image served policy [])
      (readAtLoop codec image (min (image.logicalSize - offset) length) fuel
        (offset + copied.length) copied : Read lru Bytes)
      (fun bytes s => Serving codec image served policy [] s ∧
        bytes = slice (image.media codec) offset (min (image.logicalSize - offset) length) ∧
        ∀ chunkId, image.Touches length offset chunkId → served chunkId)
      fun stop s => Serving codec image served policy [] s ∧ stop.IsError ∧
        ∃ chunkId, image.Touches length offset chunkId ∧ ¬ served chunkId := by
  have hdone : copied.length = min (image.logicalSize - offset) length →
      copied = slice (image.media codec) offset (min (image.logicalSize - offset) length) ∧
      ∀ chunkId, image.Touches length offset chunkId → served chunkId := by
    intro hall
    refine ⟨hall ▸ hcopied, ?_⟩
    rintro _ ⟨position, hge, hlt, hmedia, rfl⟩
    exact hchunks position hge (by omega)
  induction fuel generalizing copied with
  | zero => exact triple_pure fun s hs => ⟨hs, hdone (by omega)⟩
  | succ fuel ih =>
    rw [readAtLoop]
    by_cases hmore : copied.length < min (image.logicalSize - offset) length
    · rw [if_pos hmore]
      have hcurrent : offset + copied.length < image.logicalSize := by omega
      have htouched : image.Touches length offset
          ((offset + copied.length) / image.chunkSize) :=
        Image.touches_of_position (Nat.le_add_right offset copied.length) (by omega) hoffset
      have hchunk := hserved _ htouched <| by
        rintro _ ⟨position, hge, hlt, hmedia, rfl⟩ hearlier
        refine hchunks position hge ?_
        by_contra hlate
        have hmono := Nat.div_le_div_right (c := image.chunkSize) (Nat.le_of_not_lt hlate)
        omega
      refine triple_ensureNotAborted ?_
      refine Triple.bind ((supplies_readChunk hchunk).weaken (fun _ hs => hs) (fun _ _ hs => hs)
        fun _ s hs => ⟨hs.1, hs.2.1, _, htouched, hs.2.2⟩) fun decoded => ?_
      refine Triple.of_fact (p := served _ ∧ decoded = image.mediaChunk codec _)
        (fun hdecoded => ?_) fun s hs => hs.2
      refine Triple.of_pre (P := Serving codec image served policy []) ?_ fun s hs => hs.1
      obtain ⟨hserve, rfl⟩ := hdecoded
      have hbyte := lt_length_mediaChunk codec hcurrent
      dsimp only
      generalize hcount : min (min (image.logicalSize - offset) length - copied.length)
        ((image.mediaChunk codec ((offset + copied.length) / image.chunkSize)).length -
          (offset + copied.length) % image.chunkSize) = count
      rw [if_neg (by omega)]
      have hfits : count ≤
          (image.mediaChunk codec ((offset + copied.length) / image.chunkSize)).length -
            (offset + copied.length) % image.chunkSize := by omega
      rw [slice_mediaChunk_turn hcurrent hfits]
      have hcount_length :
          (slice (image.media codec) (offset + copied.length) count).length = count := by
        refine length_slice_of_le ?_
        rw [Image.length_media]
        omega
      have hlength : (copied ++ slice (image.media codec) (offset + copied.length) count).length =
          copied.length + count := by
        rw [List.length_append, hcount_length]
      have hfront : copied ++ slice (image.media codec) (offset + copied.length) count =
          slice (image.media codec) offset (copied.length + count) := by
        rw [← slice_append_slice, ← hcopied]
      have hnext : ServedUpTo image served offset (offset + (copied.length + count)) := by
        intro position hge hlt
        by_cases hbefore : position < offset + copied.length
        · exact hchunks position hge hbefore
        · rw [div_eq_of_turn hfits (Nat.le_of_not_lt hbefore) (by omega)]
          exact hserve
      rw [Nat.add_assoc, ← hlength]
      rw [← hlength] at hnext hfront
      refine ih (by omega) (by omega) hfront hnext fun hall => ⟨hall ▸ hfront, ?_⟩
      rintro _ ⟨position, hge, hlt, hmedia, rfl⟩
      exact hnext position hge (by omega)
    · rw [if_neg hmore]
      exact triple_pure fun s hs => ⟨hs, hdone (by omega)⟩

/-- A read returns its part of the media when its chunks are served, and fails otherwise. -/
theorem triple_readAt_serving :
    Triple (Serving codec image served policy [])
      (readAt codec image length offset : Read lru Bytes)
      (fun bytes s => Serving codec image served policy [] s ∧
        bytes = slice (image.media codec) offset (min (image.logicalSize - offset) length) ∧
        ∀ chunkId, image.Touches length offset chunkId → served chunkId)
      fun stop s => Serving codec image served policy [] s ∧ stop.IsError ∧
        ∃ chunkId, image.Touches length offset chunkId ∧ ¬ served chunkId := by
  refine triple_ensureNotAborted ?_
  refine triple_ite (fun hnone => ?_) fun hsome => triple_ite (fun hzero => ?_) fun _ => ?_
  · refine triple_pure fun s hs => ⟨hs, ?_, ?_⟩
    · rw [show min (image.logicalSize - offset) length = 0 by omega, slice_zero]
    · rintro _ ⟨position, hge, hlt, hmedia, -⟩
      omega
  · exact absurd hzero (Nat.ne_of_gt image.chunkSize_pos)
  · have hempty : ([] : Bytes) = slice (image.media codec) offset ([] : Bytes).length := by
      rw [List.length_nil, slice_zero]
    refine triple_readAtLoop hserved (by omega) (Nat.zero_le _) ?_ hempty ?_
    · rw [List.length_nil, Nat.zero_add]
    · intro position hge hlt
      simp only [List.length_nil] at hlt
      omega

end Serves

/-- Under the policy, a read is served with the chunks that decode and those that zeros stand in
for. -/
theorem triple_readAt_policy (length offset : Nat) :
    Triple (Serving codec image (image.Serves codec policy) policy [])
      (readAt codec image length offset : Read lru Bytes)
      (fun bytes s => Serving codec image (image.Serves codec policy) policy [] s ∧
        bytes = slice (image.media codec) offset (min (image.logicalSize - offset) length) ∧
        ∀ chunkId, image.Touches length offset chunkId → image.Serves codec policy chunkId)
      fun stop s => Serving codec image (image.Serves codec policy) policy [] s ∧ stop.IsError ∧
        ∃ chunkId, image.Touches length offset chunkId ∧ ¬ image.Serves codec policy chunkId :=
  triple_readAt_serving fun _ _ _ => Iff.rfl

end Operations

end EwfImage.Reading
