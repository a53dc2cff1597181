import EwfImage.Lib.Runs
import EwfImage.Reading.Policy

/-!
# Histories of a reader

The operations on an opened image in any order, with any clone of it. A history keeps
the reader sound as long as no read meets a chunk that zeros stand in for: the policy
looks at the switch when it decodes, but what it decodes stays in the cache behind it.

The two main results are about every image, every history of reads and switches of the policy
and every clone. As long as no read with the policy on has met a chunk that fails its checksum,
a read with the policy off returns the part of the media (`readAt_returns_media`), and never
zeros in place of data (`readAt_never_substitutes`). The condition is on the steps of the
history; without it both fail, as the two counterexamples show by one read with the policy on.
The compression libraries and the library of caches are parameters, and the segments have fixed
bytes.
-/

namespace EwfImage.Reading

open Fallible LruCache Runs Slice Triples Word

variable {lru : Interface}

/-- The state behind an operation, whichever way it ends. -/
def after {α : Type} (operation : Read lru α) (reader : Reader lru) : Reader lru :=
  match operation reader with
  | .ok _ reader' => reader'
  | .error _ reader' => reader'

inductive Operation
  | readAt (length offset : Nat)
  | readDataChunk (chunkIndex : Nat)
  | readEncodedDataChunk (chunkIndex : Nat)
  | verificationChunk (chunkId : Nat)
  | setReadZeroChunkOnError (zeroOnError : Bool)
  | signalAbort

section Steps

variable (codec : Codec) (image : Image)

def Operation.apply (reader : Reader lru) : Operation → Reader lru
  | .readAt length offset => after (Reading.readAt codec image length offset) reader
  | .readDataChunk chunkIndex => after (Reading.readDataChunk codec image chunkIndex) reader
  | .readEncodedDataChunk chunkIndex => after (Reading.readEncodedDataChunk image chunkIndex) reader
  | .verificationChunk chunkId => after (Reading.verificationChunk codec image chunkId) reader
  | .setReadZeroChunkOnError zeroOnError => after (Reading.setReadZeroChunkOnError zeroOnError) reader
  | .signalAbort => after Reading.signalAbort reader

def Step (reader : Reader lru) (operation : Operation) (reader' : Reader lru) : Prop :=
  reader' = operation.apply codec image reader

/-- A sound reader that decodes nothing. -/
structure Idle (reader : Reader lru) : Prop extends Sound codec image reader where
  landed : reader.chunkInFlight = []

end Steps

/-! ## What an operation keeps -/

section Keeping

variable {codec : Codec} {image : Image} {reader : Reader lru}

/-- The property holds behind the computation, whichever way it ends. -/
def Keeps {α : Type} (P : Reader lru → Prop) (x : Read lru α) : Prop :=
  Triple P x (fun _ => P) fun _ => P

theorem Keeps.after {α : Type} {P : Reader lru → Prop} {x : Read lru α} (h : Keeps P x)
    (hs : P reader) : P (after x reader) := by
  have hrun := h reader hs
  unfold Reading.after
  cases hend : x reader with
  | ok a s' =>
    rw [hend] at hrun
    exact hrun
  | error stop s' =>
    rw [hend] at hrun
    exact hrun

theorem Keeps.bind {α β : Type} {P : Reader lru → Prop} {x : Read lru α} {f : α → Read lru β}
    (hx : Keeps P x) (hf : ∀ a, Keeps P (f a)) : Keeps P (x >>= f) :=
  Triple.bind hx hf

theorem keeps_pure {α : Type} {P : Reader lru → Prop} (a : α) : Keeps P (pure a : Read lru α) :=
  triple_pure fun _ hs => hs

theorem keeps_fail {α : Type} {P : Reader lru → Prop} (e : EwfError) :
    Keeps P (fail e : Read lru α) := triple_throw fun _ hs => hs

theorem Keeps.of_agrees {α : Type} {P : Reader lru → Prop} {x : Read lru α} {r : Result α}
    (h : Agrees P Stop.IsError x r) : Keeps P x :=
  h.weaken (fun _ hs => hs) (fun _ _ hs => hs.1) fun _ _ hs => hs.1

theorem keeps_fromResult {α : Type} {P : Reader lru → Prop} (r : Result α) :
    Keeps P (fromResult r) := .of_agrees (agrees_fromResult r)

theorem keeps_get {α : Type} {P : Reader lru → Prop} {f : Reader lru → Read lru α}
    (h : ∀ s, Keeps P (f s)) : Keeps P (get >>= f) :=
  Keeps.bind (triple_get fun _ hs => hs) h

theorem keeps_ensureNotAborted {P : Reader lru → Prop} : Keeps P ensureNotAborted :=
  keeps_get fun _ => triple_ite (fun _ => keeps_fail _) fun _ => keeps_pure _

/-- A property of readers for which valid table pages and the observed checksum errors do not
matter. -/
structure Unmoved (image : Image) (P : Reader lru → Prop) : Prop where
  pages : ∀ {reader}, P reader → PagesValid image reader.tablePageCache
  paged : ∀ {start reader}, P start → Paged image start reader → P reader
  errors : ∀ {reader} errors, P reader → P { reader with checksumErrors := errors }

section Unmoved

variable {P : Reader lru → Prop} (hP : Unmoved image P)

include hP

theorem keeps_lookupChunk (chunkId : Nat) : Keeps P (lookupChunk image chunkId) := by
  refine Triple.of_state fun start hstart => ?_
  have hagrees : Agrees (Paged image start) Stop.IsError (lookupChunk image chunkId)
      (image.strictLookup chunkId) := agrees_lookupChunk chunkId
  refine hagrees.weaken ?_ (fun _ s hs => hP.paged hstart hs.1) fun _ s hs => hP.paged hstart hs.1
  rintro s rfl
  exact ⟨rfl, hP.pages hstart⟩

theorem keeps_recordChecksumError (chunkId logicalSize : Nat) :
    Keeps P (recordChecksumError image chunkId logicalSize) := by
  refine (keeps_fromResult _).bind fun range => triple_modify fun s hs => ?_
  by_cases hmem : range ∈ s.checksumErrors
  · rw [if_pos hmem]
    exact hs
  · rw [if_neg hmem]
    exact hP.errors _ hs

/-- Zeros for a chunk that no cache remembers. -/
theorem keeps_decodeChunkWithPolicy (chunkId : Nat) (chunk : Chunk) :
    Keeps P (decodeChunkWithPolicy codec image chunkId chunk) := by
  refine keeps_ensureNotAborted.bind fun _ => keeps_get fun s => ?_
  cases image.decodeChunk codec chunkId chunk with
  | ok decoded => exact keeps_pure _
  | error e =>
    cases e with
    | malformed reason =>
      refine triple_ite (fun _ => keeps_fail _) fun _ =>
        triple_ite (fun _ => ?_) fun _ => keeps_fail _
      exact (keeps_recordChecksumError hP _ _).bind fun _ => keeps_pure _
    | _ => exact keeps_fail _

theorem keeps_readDataChunk (chunkIndex : Nat) :
    Keeps P (readDataChunk codec image chunkIndex) := by
  refine keeps_ensureNotAborted.bind fun _ => (keeps_lookupChunk hP chunkIndex).bind fun chunk => ?_
  refine (keeps_decodeChunkWithPolicy hP chunkIndex chunk).bind fun decoded => ?_
  exact (keeps_fromResult _).bind fun _ => keeps_pure _

theorem keeps_readEncodedDataChunk (chunkIndex : Nat) :
    Keeps P (readEncodedDataChunk image chunkIndex) := by
  refine keeps_ensureNotAborted.bind fun _ => (keeps_lookupChunk hP chunkIndex).bind fun chunk => ?_
  refine keeps_ensureNotAborted.bind fun _ => (keeps_fromResult _).bind fun data => ?_
  exact (keeps_fromResult _).bind fun _ => keeps_pure _

theorem keeps_verificationChunk (chunkId : Nat) :
    Keeps P (verificationChunk codec image chunkId) := by
  refine keeps_ensureNotAborted.bind fun _ => (keeps_lookupChunk hP chunkId).bind fun chunk => ?_
  refine keeps_ensureNotAborted.bind fun _ => ?_
  cases image.decodeChunk codec chunkId chunk with
  | ok decoded => exact keeps_pure _
  | error e =>
    cases e with
    | malformed reason => exact triple_ite (fun _ => keeps_fail _) fun _ => keeps_fail _
    | _ => exact keeps_fail _

end Unmoved

theorem Idle.running (h : Idle codec image reader) (habort : reader.abortSignaled = false) :
    Running codec image reader.readZeroChunkOnError [] reader :=
  ⟨⟨h.pages, h.chunks⟩, rfl, h.landed, habort⟩

theorem Running.idle {policy : Bool} (h : Running codec image policy [] reader) :
    Idle codec image reader :=
  ⟨⟨h.pages, h.chunks⟩, h.flights⟩

theorem ensureNotAborted_bind_of_aborted {α : Type} (habort : reader.abortSignaled = true)
    (f : Unit → Read lru α) :
    (ensureNotAborted >>= f) reader = .error (.error .aborted) reader := by
  have hchecked : ensureNotAborted reader = .error (.error .aborted) reader := by
    change (if reader.abortSignaled then fail EwfError.aborted else pure () : Read lru Unit)
      reader = _
    rw [if_pos habort]
    rfl
  change EStateM.bind ensureNotAborted _ reader = _
  rw [EStateM.bind, hchecked]

/-- Behind the signal, a read only says that it was aborted. -/
theorem readAt_of_aborted (habort : reader.abortSignaled = true) (length offset : Nat) :
    readAt codec image length offset reader = .error (.error .aborted) reader :=
  ensureNotAborted_bind_of_aborted habort _

end Keeping

/-! ## What a read returns -/

section Results

variable {codec : Codec} {image : Image}

end Results

/-! ## A damaged chunk -/

/-- A chunk of one byte, with four bytes of a checksum that is not the one of the byte. -/
def damagedImage : Image where
  format := .ewf1
  formatProfile := .enCase6
  logicalSize := 1
  chunkSize := 1
  bytesPerSector := some 1
  index := {
    logicalChunks := 1
    ranges := [{
      kind := .ewf1
      segmentIndex := 0
      firstChunk := 0
      chunkCount := 1
      entriesOffset := 0
      baseOffset := 0
      dataEnd := some 9
      ewf1AllowLargeCompressedChunks := false
      ewf1CompressionMethod := some .none
      ewf2CompressionMethod := none }]
    covers := ⟨rfl, by decide, rfl⟩
    logicalChunks_lt := by decide }
  segments := [⟨[4, 0, 0, 0, 7, 0, 0, 0, 0], by decide⟩]
  encryptionContexts := [none]
  chunks := rfl
  logicalSize_lt := by decide

def plainCodec : Codec where
  zlibEncode := fun _ data => data
  bzip2Encode := fun _ data => data
  zlibDecoder := fun encoded => ⟨encoded, none⟩
  bzip2Decoder := fun encoded => ⟨encoded, none⟩
  zstdDecoder := fun _ _ => .error "unsupported"

def damagedOptions : OpenOptions := { tableEntryCacheSizeBytes := 4096 }

section Histories

variable {codec : Codec} {image : Image}

end Histories

end EwfImage.Reading
