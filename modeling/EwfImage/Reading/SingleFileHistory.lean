import EwfImage.Reading.History
import EwfImage.Reading.SingleFileContent

/-!
# Files after any history

The operations on an opened image and the reads of its files in any order. As long as the policy
of zeros is switched off only while the cache holds no zeros, every read of a file returns its
part of the content or fails, and reads that follow each other return what one read does
(`readSingleFileAt_content`).

The condition on the policy is the one of `Reading.History`. A read is granted when it begins
inside the file, and its content is what the extents place there, later extents over earlier
ones and zeros where none covers a byte. Extents may overlap, repeat, be empty and point outside
the media; reading outside the media is what makes a granted read fail.
`readSingleFileAt_not_extents` shows the two places at which the content is not simply that of
the extents.
-/

namespace EwfImage.Reading

open Fallible LruCache Runs Slice Triples Word

/-- An operation on an opened image or a read of one of its files. -/
inductive FileOperation
  | image (operation : Operation)
  | readSingleFileAt (entry : SingleFileEntry) (buf : Bytes) (offset : Nat)

variable {lru : Interface}

section Steps

variable (codec : Codec) (image : Image)

def FileOperation.apply (reader : Reader lru) : FileOperation → Reader lru
  | .image operation => operation.apply codec image reader
  | .readSingleFileAt entry buf offset =>
    after (Reading.readSingleFileAt codec image entry buf offset) reader

/-- The policy of zeros is not switched off while the cache holds a chunk that does not decode. -/
def KeepsPolicy (reader : Reader lru) : FileOperation → Prop
  | .image (.setReadZeroChunkOnError false) =>
    ∀ entry ∈ lru.entries reader.chunkCache, image.Decodes codec entry.1
  | _ => True

def FileStep (reader : Reader lru) (operation : FileOperation) (reader' : Reader lru) : Prop :=
  reader' = operation.apply codec image reader ∧ KeepsPolicy codec image reader operation

/-- A reader between two operations: its caches hold pages of the segments and chunks that the
policy serves. -/
structure Ready (reader : Reader lru) : Prop where
  pages : PagesValid image reader.tablePageCache
  chunks : ∀ entry ∈ lru.entries reader.chunkCache,
    image.Serves codec reader.readZeroChunkOnError entry.1 ∧
      entry.2 = image.mediaChunk codec entry.1
  landed : reader.chunkInFlight = []

/-- The reads of a file with buffers one behind the other; the result is what they copy. -/
def readPieces (entry : SingleFileEntry) : List Bytes → Nat → Read lru Bytes
  | [], _ => return []
  | buf :: bufs, offset => do
    let (copied, buf) ← readSingleFileAt codec image entry buf offset
    let rest ← readPieces entry bufs (offset + copied)
    return buf.take copied ++ rest

end Steps

section Runs

variable {codec : Codec} {image : Image} {reader : Reader lru} {policy : Bool}

/-! ## Reads in a state -/

theorem Ready.serving (h : Ready codec image reader) (habort : reader.abortSignaled = false) :
    Serving codec image (image.Serves codec reader.readZeroChunkOnError)
      reader.readZeroChunkOnError [] reader :=
  ⟨h.pages, h.chunks, rfl, h.landed, habort⟩

theorem Serving.ready (h : Serving codec image (image.Serves codec policy) policy [] reader) :
    Ready codec image reader := by
  refine ⟨h.pages, ?_, h.flights⟩
  rw [h.policy]
  exact h.chunks

/-- The positions of the media whose chunks are served. -/
def Image.ServesAt (codec : Codec) (image : Image) (policy : Bool) (position : Nat) : Prop :=
  image.Serves codec policy (position / image.chunkSize)

theorem readsFrom_readAt (codec : Codec) (image : Image) (policy : Bool) :
    ReadsFrom (Serving codec image (image.Serves codec policy) policy []) (image.media codec)
      (image.ServesAt codec policy) (readAt codec image : Nat → Nat → Read lru Bytes) where
  short := by
    rw [Image.length_media]
    exact image.logicalSize_lt
  running := fun _ h => h.running
  read := by
    intro length offset
    refine (triple_readAt_policy length offset).weaken (fun _ hs => hs) (fun bytes s hs => ?_)
      fun stop s hs => ?_
    · obtain ⟨hserving, hbytes, hserved⟩ := hs
      refine ⟨hserving, ?_, fun position hge hlt hmedia => ?_⟩
      · rw [hbytes, Nat.min_comm, ← Image.length_media codec image, slice_min]
      · rw [Image.length_media] at hmedia
        exact hserved _ ⟨position, hge, hlt, hmedia, rfl⟩
    · obtain ⟨hserving, herror, _, ⟨position, hge, hlt, hmedia, rfl⟩, hnot⟩ := hs
      refine ⟨hserving, herror, position, hge, hlt, ?_, hnot⟩
      rw [Image.length_media]
      exact hmedia

theorem readSingleFileAt_of_aborted (habort : reader.abortSignaled = true)
    (entry : SingleFileEntry) (buf : Bytes) (offset : Nat) :
    readSingleFileAt codec image entry buf offset reader = .error (.error .aborted) reader :=
  ensureNotAborted_bind_of_aborted habort _

/-! ## Reads that follow each other -/

theorem take_overwrite (buf bytes : Bytes) : (overwrite buf 0 bytes).take bytes.length = bytes := by
  rw [overwrite, List.take_zero, List.nil_append, List.take_left]

theorem triple_readPieces (entry : SingleFileEntry) (bufs : List Bytes) (offset : Nat) :
    Triple (Serving codec image (image.Serves codec policy) policy [])
      (readPieces codec image entry bufs offset : Read lru Bytes)
      (fun bytes s => Serving codec image (image.Serves codec policy) policy [] s ∧
        image.Granted entry (image.media codec) (image.ServesAt codec policy)
          (bufs.map List.length).sum offset ∧
        bytes = (image.part entry (bufs.map List.length).sum offset).map
          (FileByte.value (image.media codec)))
      fun stop s => Serving codec image (image.Serves codec policy) policy [] s ∧ stop.IsError ∧
        ¬ image.Granted entry (image.media codec) (image.ServesAt codec policy)
          (bufs.map List.length).sum offset := by
  induction bufs generalizing offset with
  | nil =>
    refine triple_pure fun s hs => ⟨hs, .inl rfl, ?_⟩
    rw [List.map_nil, List.sum_nil, part_zero, List.map_nil]
  | cons buf bufs ih =>
    rw [List.map_cons, List.sum_cons, granted_add]
    refine Triple.bind ((triple_readSingleFileAtImpl (readsFrom_readAt codec image policy)
      image entry buf offset).weaken (fun _ hs => hs) (fun _ _ hs => hs)
      fun _ s hs => ⟨hs.1, hs.2.1, fun hall => hs.2.2 hall.1⟩) fun result => ?_
    refine Triple.of_fact (fun hresult => ?_) fun s hs => hs.2
    refine Triple.of_pre (P := Serving codec image (image.Serves codec policy) policy []) ?_
      fun s hs => hs.1
    obtain ⟨hfirst, rfl⟩ := hresult
    dsimp only
    refine Triple.bind ((ih _).weaken (fun _ hs => hs) (fun _ _ hs => hs) fun _ s hs =>
      ⟨hs.1, hs.2.1, fun hall => hs.2.2 hall.2⟩) fun rest => ?_
    refine triple_pure fun s hs => ⟨hs.1, ⟨hfirst, hs.2.1⟩, ?_⟩
    have hfront := take_overwrite buf ((image.part entry buf.length offset).map
      (FileByte.value (image.media codec)))
    rw [List.length_map] at hfront
    rw [hfront, hs.2.2, ← List.map_append, part_add_of_granted hfirst]

/-! ## Histories -/

theorem unmoved_ready : Unmoved image (Ready codec image : Reader lru → Prop) where
  pages := fun h => h.pages
  paged := by
    rintro start reader hstart ⟨hframe, hvalid⟩
    rw [hframe]
    exact ⟨hvalid, hstart.chunks, hstart.landed⟩
  errors := fun _ h => ⟨h.pages, h.chunks, h.landed⟩

/-- A computation that keeps a serving reader keeps a ready one, unless it is aborted at once. -/
theorem Ready.after {α : Type} {x : Read lru α} (h : Ready codec image reader)
    (haborted : reader.abortSignaled = true → x reader = .error (.error .aborted) reader)
    (hx : Keeps (Serving codec image (image.Serves codec reader.readZeroChunkOnError)
      reader.readZeroChunkOnError []) x) : Ready codec image (after x reader) := by
  by_cases habort : reader.abortSignaled = true
  · rw [Reading.after, haborted habort]
    exact h
  · exact (hx.after (h.serving (Bool.not_eq_true _ ▸ habort))).ready

theorem Image.Serves.mono {chunkId : Nat} {other : Bool} (h : image.Serves codec policy chunkId)
    (hpolicy : policy = true → other = true) : image.Serves codec other chunkId :=
  h.imp id fun hsubstitute => ⟨hpolicy hsubstitute.1, hsubstitute.2⟩

theorem ready_of_step {operation : FileOperation} {reader' : Reader lru}
    (h : Ready codec image reader) (hstep : FileStep codec image reader operation reader') :
    Ready codec image reader' := by
  obtain ⟨rfl, hkeeps⟩ := hstep
  cases operation with
  | readSingleFileAt entry buf offset =>
    refine h.after (fun habort => readSingleFileAt_of_aborted habort entry buf offset) ?_
    exact (triple_readSingleFileAtImpl (readsFrom_readAt codec image _) image entry buf
      offset).weaken
      (fun _ hs => hs) (fun _ _ hs => hs.1) fun _ _ hs => hs.1
  | image operation =>
    cases operation with
    | readAt length offset =>
      refine h.after (fun habort => readAt_of_aborted habort length offset) ?_
      exact (triple_readAt_policy length offset).weaken (fun _ hs => hs) (fun _ _ hs => hs.1)
        fun _ _ hs => hs.1
    | readDataChunk chunkIndex => exact (keeps_readDataChunk unmoved_ready chunkIndex).after h
    | readEncodedDataChunk chunkIndex =>
      exact (keeps_readEncodedDataChunk unmoved_ready chunkIndex).after h
    | verificationChunk chunkId => exact (keeps_verificationChunk unmoved_ready chunkId).after h
    | setReadZeroChunkOnError zeroOnError =>
      refine ⟨h.pages, fun entry hentry => ⟨?_, (h.chunks entry hentry).2⟩, h.landed⟩
      cases zeroOnError with
      | true => exact (h.chunks entry hentry).1.mono fun _ => rfl
      | false => exact .inl (hkeeps entry hentry)
    | signalAbort => exact ⟨h.pages, h.chunks, h.landed⟩

theorem ready_new (lru : Interface) (codec : Codec) (image : Image) (options : OpenOptions) :
    Ready codec image (Reader.new lru image options) :=
  ⟨fun _ hentry => (Interface.not_mem_new _ _ hentry).elim,
    fun _ hentry => (Interface.not_mem_new _ _ hentry).elim, rfl⟩

theorem ready_of_run {options : OpenOptions} {operations : List FileOperation}
    (h : Run (FileStep codec image) (Reader.new lru image options) operations reader) :
    Ready codec image reader :=
  h.invariant (fun _ _ _ hready hstep => ready_of_step hready hstep)
    (ready_new lru codec image options)

end Runs

/-! ## What a read of a file returns -/

/-- The read of a file in a state is granted: no one has aborted it, the extents cover its part,
and the places of the part are in the media and served. -/
def Image.GrantedIn (codec : Codec) (image : Image) (reader : Reader lru) (entry : SingleFileEntry)
    (length offset : Nat) : Prop :=
  reader.abortSignaled = false ∧ image.Granted entry (image.media codec)
    (image.ServesAt codec reader.readZeroChunkOnError) length offset

/-- The read returned its part of the content and left the rest of the buffer when it was granted,
and failed otherwise. -/
def ReturnsContent (codec : Codec) (image : Image) (reader : Reader lru) (entry : SingleFileEntry)
    (buf : Bytes) (offset : Nat) (result : EStateM.Result Stop (Reader lru) (Nat × Bytes)) : Prop :=
  (image.GrantedIn codec reader entry buf.length offset ∧ ∃ reader', result = .ok
    ((image.part entry buf.length offset).length, overwrite buf 0
      ((image.part entry buf.length offset).map (FileByte.value (image.media codec)))) reader') ∨
  (¬ image.GrantedIn codec reader entry buf.length offset ∧
    ∃ e reader', result = .error (.error e) reader')

section Results

variable {codec : Codec} {image : Image} {reader : Reader lru}

theorem Ready.returnsContent (h : Ready codec image reader) (entry : SingleFileEntry)
    (buf : Bytes) (offset : Nat) : ReturnsContent codec image reader entry buf offset
      (readSingleFileAt codec image entry buf offset reader) := by
  by_cases habort : reader.abortSignaled = true
  · refine .inr ⟨fun hgranted => ?_, _, _, readSingleFileAt_of_aborted habort entry buf offset⟩
    rw [hgranted.1] at habort
    cases habort
  · have hnot : reader.abortSignaled = false := Bool.not_eq_true _ ▸ habort
    have hread := triple_readSingleFileAtImpl (readsFrom_readAt codec image _) image entry buf
      offset reader (h.serving hnot)
    rw [ReturnsContent, readSingleFileAt]
    cases hend : readSingleFileAtImpl (readAt codec image) image entry buf offset reader with
    | ok result s =>
      rw [hend] at hread
      obtain ⟨-, hgranted, rfl⟩ := hread
      exact .inl ⟨⟨hnot, hgranted⟩, s, rfl⟩
    | error stop s =>
      rw [hend] at hread
      obtain ⟨-, ⟨e, rfl⟩, hrefused⟩ := hread
      exact .inr ⟨fun hgranted => hrefused hgranted.2, e, s, rfl⟩

theorem Ready.readPieces_iff (h : Ready codec image reader) (entry : SingleFileEntry)
    {bufs : List Bytes} (hbufs : bufs ≠ []) (offset : Nat) (bytes : Bytes) :
    (∃ reader', readPieces codec image entry bufs offset reader = .ok bytes reader') ↔
      image.GrantedIn codec reader entry (bufs.map List.length).sum offset ∧
      bytes = (image.part entry (bufs.map List.length).sum offset).map
        (FileByte.value (image.media codec)) := by
  by_cases habort : reader.abortSignaled = true
  · obtain ⟨buf, rest, rfl⟩ := List.exists_cons_of_ne_nil hbufs
    have hfail : readPieces codec image entry (buf :: rest) offset reader =
        .error (.error .aborted) reader := by
      change EStateM.bind (readSingleFileAt codec image entry buf offset) _ reader = _
      rw [EStateM.bind, readSingleFileAt_of_aborted habort]
    rw [hfail]
    constructor
    · rintro ⟨_, hok⟩
      cases hok
    · rintro ⟨⟨hrunning, -⟩, -⟩
      rw [hrunning] at habort
      cases habort
  · have hnot : reader.abortSignaled = false := Bool.not_eq_true _ ▸ habort
    have hread := triple_readPieces entry bufs offset reader (h.serving hnot)
    cases hend : readPieces codec image entry bufs offset reader with
    | ok result s =>
      rw [hend] at hread
      obtain ⟨-, hgranted, rfl⟩ := hread
      constructor
      · rintro ⟨_, hok⟩
        cases hok
        exact ⟨⟨hnot, hgranted⟩, rfl⟩
      · rintro ⟨-, rfl⟩
        exact ⟨s, rfl⟩
    | error stop s =>
      rw [hend] at hread
      constructor
      · rintro ⟨_, hok⟩
        cases hok
      · rintro ⟨hgranted, -⟩
        exact absurd hgranted.2 hread.2.2

/-- After any history, a read of a file returns its part of the content when it is granted and
fails otherwise, and reads one behind the other return what one read returns. -/
theorem readSingleFileAt_content {options : OpenOptions} {operations : List FileOperation}
    (h : Run (FileStep codec image) (Reader.new lru image options) operations reader)
    (entry : SingleFileEntry) (buf : Bytes) (offset : Nat) :
    ReturnsContent codec image reader entry buf offset
      (readSingleFileAt codec image entry buf offset reader) ∧
    ∀ bufs : List Bytes, bufs ≠ [] → (bufs.map List.length).sum = buf.length → ∀ bytes : Bytes,
      (∃ reader', readPieces codec image entry bufs offset reader = .ok bytes reader') ↔
        ∃ copied buf' reader', readSingleFileAt codec image entry buf offset reader =
          .ok (copied, buf') reader' ∧ bytes = buf'.take copied := by
  have hready := ready_of_run h
  have hreturns := hready.returnsContent entry buf offset
  refine ⟨hreturns, fun bufs hbufs hsum bytes => ?_⟩
  rw [hready.readPieces_iff entry hbufs, hsum]
  have hfront := take_overwrite buf ((image.part entry buf.length offset).map
    (FileByte.value (image.media codec)))
  rw [List.length_map] at hfront
  rcases hreturns with ⟨hgranted, s, hok⟩ | ⟨hrefused, e, s, herror⟩
  · constructor
    · rintro ⟨-, rfl⟩
      exact ⟨_, _, s, hok, hfront.symm⟩
    · rintro ⟨copied, buf', _, hread, rfl⟩
      rw [hok] at hread
      cases hread
      exact ⟨hgranted, hfront⟩
  · constructor
    · rintro ⟨hgranted, -⟩
      exact absurd hgranted hrefused
    · rintro ⟨copied, buf', _, hread, -⟩
      rw [herror] at hread
      cases hread

end Results

/-! ## An entry that repeats a byte -/

/-- An EWF1 logical image with one chunk that holds the byte 7. -/
def repeatingImage : Image := { damagedImage with
  formatProfile := .logicalEnCase6
  segments := [⟨[4, 0, 0, 0, 7, 8, 0, 8, 0], by decide⟩] }

/-- An entry of two bytes with one stored byte. -/
def repeatingEntry : SingleFileEntry where
  flags := some ewf1LogicalSparseFlag
  size := some 2
  duplicateDataOffset := none
  extents := [⟨0, 1, false⟩]

/-- An entry of one byte that is followed by an extent up to the end of the range of offsets. -/
def endlessEntry : SingleFileEntry where
  flags := none
  size := some 1
  duplicateDataOffset := none
  extents := [⟨0, 1, true⟩, ⟨0, u64Limit - 1, true⟩]

def repeatingReader : Reader byRecency := Reader.new byRecency repeatingImage damagedOptions

/-- A read returns bytes that are in no extent and are no zeros, and a read of a part that the
extents cover fails. -/
theorem readSingleFileAt_not_extents :
    (repeatingEntry.extents.flatMap SingleFileExtent.content = [.media 0] ∧ ∃ reader,
      readSingleFileAt plainCodec repeatingImage repeatingEntry [0, 0] 0 repeatingReader =
        .ok (2, [7, 7]) reader) ∧
    ((endlessEntry.extents.flatMap SingleFileExtent.content).take 1 = [.zero] ∧ ∃ e reader,
      readSingleFileAt plainCodec repeatingImage endlessEntry [0] 0 repeatingReader =
        .error (.error e) reader) :=
  ⟨⟨rfl, _, rfl⟩, rfl, _, _, rfl⟩

theorem readSingleFileAt_content_repeating :
    let reader := FileOperation.apply plainCodec repeatingImage repeatingReader
      (.readSingleFileAt repeatingEntry [0] 1)
    ReturnsContent plainCodec repeatingImage reader repeatingEntry [0, 0] 0
      (readSingleFileAt plainCodec repeatingImage repeatingEntry [0, 0] 0 reader) ∧
    ∀ bufs : List Bytes, bufs ≠ [] → (bufs.map List.length).sum = 2 → ∀ bytes : Bytes,
      (∃ reader', readPieces plainCodec repeatingImage repeatingEntry bufs 0 reader =
        .ok bytes reader') ↔
        ∃ copied buf' reader', readSingleFileAt plainCodec repeatingImage repeatingEntry [0, 0] 0
          reader = .ok (copied, buf') reader' ∧ bytes = buf'.take copied := by
  have hrun : Run (FileStep plainCodec repeatingImage)
      (Reader.new byRecency repeatingImage damagedOptions)
      [.readSingleFileAt repeatingEntry [0] 1] (FileOperation.apply plainCodec repeatingImage
        repeatingReader (.readSingleFileAt repeatingEntry [0] 1)) :=
    .one ⟨rfl, trivial⟩
  exact readSingleFileAt_content hrun repeatingEntry [0, 0] 0

end EwfImage.Reading
