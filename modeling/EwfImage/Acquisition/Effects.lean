import EwfImage.Acquisition.Source

/-!
# What the operations do to the writer

When nothing in the environment fails, each operation changes the writer by a pure
function. When it fails, the accepted bytes, the offset and the error ranges are the
ones of the step that failed. `faulty` stands for every way the environment may fail.

There is one triple for each operation, in the order of the source. Their postconditions are
equations for the writer, so later proofs never open an operation; what a failure leaves is
stated by `faulty`, which a healthy environment makes false.
-/

namespace EwfImage.Acquisition

open Fallible Word Pieces Triples

variable {σ : Type}

/-! ## Pure steps -/

namespace AcquisitionWriter

variable (w : AcquisitionWriter)

/-- The bytes accepted so far. -/
def media : Bytes := w.hashed ++ w.pending

/-- The encoded chunks in the order of the media. -/
def sequence : List EncodedChunk := w.sealed.flatMap (·.chunks) ++ w.chunks

/-- What a failure of the destination leaves as it is. -/
structure Core where
  bytesPerSector : Nat
  compression : WriteCompression
  compressionValues : WriteCompressionValues
  sourceSize : Nat
  chunkSize : Nat
  chunksPerSegment : Nat
  offset : Nat
  media : Bytes
  errors : List AcquisitionError
  substitutedSectors : Nat

def core : Core where
  bytesPerSector := w.bytesPerSector
  compression := w.compression
  compressionValues := w.compressionValues
  sourceSize := w.sourceSize
  chunkSize := w.chunkSize
  chunksPerSegment := w.chunksPerSegment
  offset := w.offset
  media := w.media
  errors := w.errors
  substitutedSectors := w.substitutedSectors

/-- The core after `bytes` have been accepted. -/
def Core.accept (c : Core) (bytes : Bytes) : Core :=
  { c with offset := c.offset + bytes.length, media := c.media ++ bytes }

def poison : AcquisitionWriter := { w with failed := true }

def withSeal (finalSegment : Bool) : AcquisitionWriter :=
  { w with sealed := w.sealed ++ [w.nextSeal finalSegment], chunks := [] }

def checkpointed : AcquisitionWriter := if w.chunks ≠ [] then w.withSeal false else w

def store (encoded : EncodedChunk) : AcquisitionWriter :=
  { w with chunks := w.chunks ++ [encoded] }

/-- The chunks fill a segment, or the source ends. -/
def IsFull : Prop := w.chunks.length = w.chunksPerSegment ∨ w.offset = w.sourceSize

instance : Decidable w.IsFull := by
  unfold IsFull
  infer_instance

def sealedIfFull : AcquisitionWriter :=
  if w.IsFull then w.withSeal (w.offset = w.sourceSize) else w

/-- The pending bytes are hashed and given to the encoder. -/
def flushed : AcquisitionWriter := { w with hashed := w.hashed ++ w.pending, pending := [] }

/-- Bytes are taken into the pending chunk. -/
def accept (bytes : Bytes) : AcquisitionWriter :=
  { w with pending := w.pending ++ bytes, offset := w.offset + bytes.length }

/-- The pending bytes make a chunk. -/
def IsComplete : Prop := w.pending.length = w.chunkSize ∨ w.offset = w.sourceSize

instance : Decidable w.IsComplete := by
  unfold IsComplete
  infer_instance

/-- A whole chunk of a batch is taken. -/
def acceptChunk (chunk : Bytes) : AcquisitionWriter :=
  { w with offset := w.offset + chunk.length, hashed := w.hashed ++ chunk }

def afterWrite (options : AcquisitionReadOptions) : AcquisitionWriter :=
  if options.checkpointInterval.any (· ≤ w.offset - w.checkpointOffset) then w.checkpointed else w

@[simp] theorem core_poison : w.poison.core = w.core := rfl

@[simp] theorem core_withSeal (finalSegment : Bool) : (w.withSeal finalSegment).core = w.core := rfl

@[simp] theorem core_store (encoded : EncodedChunk) : (w.store encoded).core = w.core := rfl

@[simp] theorem core_checkpointed : w.checkpointed.core = w.core := by
  unfold checkpointed
  split <;> rfl

@[simp] theorem core_sealedIfFull : w.sealedIfFull.core = w.core := by
  unfold sealedIfFull
  split <;> rfl

theorem core_accept (bytes : Bytes) : (w.accept bytes).core = w.core.accept bytes := by
  simp [core, accept, Core.accept, media]

theorem core_acceptChunk {chunk : Bytes} (h : w.pending = []) :
    (w.acceptChunk chunk).core = w.core.accept chunk := by
  simp [core, acceptChunk, Core.accept, media, h]

@[simp] theorem core_flushed : w.flushed.core = w.core := by
  simp [core, flushed, media]

@[simp] theorem core_afterWrite (options : AcquisitionReadOptions) :
    (w.afterWrite options).core = w.core := by
  unfold afterWrite
  split
  · exact w.core_checkpointed
  · rfl

end AcquisitionWriter

/-! ## Specifications -/

/-- The writer and the recorded attempts, whatever the world and the progress are. -/
def At (w : AcquisitionWriter) (attempts : List (Nat × Bytes)) (s : State σ) : Prop :=
  s.writer = w ∧ s.attempts = attempts

/-- A failure of the destination or of the callback is a fault. -/
structure Faults (env : Environment σ) (faulty : Prop) : Prop where
  callback : ∀ progress world, (env.callback progress world).1 = true → faulty
  append : ∀ encoded world e, (env.append encoded world).1 = some e → faulty
  install : ∀ index segment world e, (env.install index segment world).1 = some e → faulty

/-- Segment `index` has a name and a number. -/
def NameOk (index : Nat) : Prop :=
  (∃ name, v1SegmentExtension 'E' index = .ok name) ∧ index < 65536

/-- A fault that left the writer with the core of `w`, poisoned or as `w` is. -/
def FaultAt (faulty : Prop) (w : AcquisitionWriter) (attempts : List (Nat × Bytes))
    (s : State σ) : Prop :=
  faulty ∧ ∃ w', At w' attempts s ∧ w'.core = w.core ∧ (w'.failed = true ∨ w' = w)

/-- `w'` is `w` after the bytes, which fit into its chunk, have been written. -/
def AcquisitionWriter.Wrote (codec : Codec) (w : AcquisitionWriter) (bytes : Bytes)
    (w' : AcquisitionWriter) : Prop :=
  if (w.accept bytes).IsComplete then
    ∃ encoded, w.encode codec (w.accept bytes).pending = .ok encoded ∧
      w' = ((w.accept bytes).flushed.store encoded).sealedIfFull
  else w' = w.accept bytes

/-- The bytes fit into the pending chunk and into the source. -/
structure AcquisitionWriter.Fits (w : AcquisitionWriter) (bytes : Bytes) : Prop where
  ne_nil : bytes ≠ []
  chunk : bytes.length ≤ w.chunkSize - w.pending.length
  source : bytes.length ≤ w.sourceSize - w.offset

section Rules

variable {w : AcquisitionWriter} {attempts : List (Nat × Bytes)} {α β : Type}
  {Q : β → State σ → Prop} {E : EwfError → State σ → Prop}

/-- The answer and the new world of each starting state. -/
theorem triple_ask_state {operation : σ → α × σ} {f : α → Acquire σ β} {P : State σ → Prop}
    (h : ∀ s, P s → Triple (· = { s with world := (operation s.world).2 })
      (f (operation s.world).1) Q E) : Triple P (ask operation >>= f) Q E :=
  fun s hs => h s hs _ rfl

theorem triple_ask_bind {operation : σ → α × σ} {f : α → Acquire σ β}
    (h : ∀ world, Triple (At w attempts) (f (operation world).1) Q E) :
    Triple (At w attempts) (ask operation >>= f) Q E := by
  intro s hs
  exact h s.world { s with world := (operation s.world).2 } hs

theorem triple_writer_bind {f : AcquisitionWriter → Acquire σ β}
    (h : Triple (At w attempts) (f w) Q E) : Triple (At w attempts) (writer >>= f) Q E := by
  intro s hs
  have hrun := h s hs
  obtain ⟨rfl, -⟩ := hs
  exact hrun

theorem triple_fromResult_bind {result : Result α} {f : α → Acquire σ β} {P : State σ → Prop}
    (hok : ∀ a, result = .ok a → Triple P (f a) Q E)
    (herror : ∀ e s, result = .error e → P s → E e s) :
    Triple P (fromResult result >>= f) Q E := by
  cases result with
  | ok a => exact hok a rfl
  | error e => exact fun s hs => herror e s rfl hs

theorem triple_modifyWriter {change : AcquisitionWriter → AcquisitionWriter}
    {Q : Unit → State σ → Prop} (h : ∀ s, At (change w) attempts s → Q () s) :
    Triple (At (σ := σ) w attempts) (modifyWriter change) Q E :=
  fun _ hs => h _ ⟨congrArg change hs.1, hs.2⟩

theorem triple_modifyWriter_bind {change : AcquisitionWriter → AcquisitionWriter}
    {f : Unit → Acquire σ β} (h : Triple (At (change w) attempts) (f ()) Q E) :
    Triple (At w attempts) (modifyWriter change >>= f) Q E :=
  Triple.bind (triple_modifyWriter fun _ hs => hs) fun _ => h

theorem triple_modifyProgress {change : AcquisitionProgress → AcquisitionProgress} :
    Triple (At (σ := σ) w attempts) (modifyProgress change) (fun _ => At w attempts) E :=
  fun _ hs => hs

theorem triple_modifyProgress_bind {change : AcquisitionProgress → AcquisitionProgress}
    {f : Unit → Acquire σ β} (h : Triple (At w attempts) (f ()) Q E) :
    Triple (At w attempts) (modifyProgress change >>= f) Q E := by
  intro s hs
  exact h { s with progress := change s.progress } hs

theorem triple_ensureHealthy_bind {f : Unit → Acquire σ β} (hhealthy : w.failed = false)
    (h : Triple (At w attempts) (f ()) Q E) :
    Triple (At w attempts) (ensureHealthy >>= f) Q E := by
  refine Triple.bind (triple_writer_bind ?_) fun _ => h
  rw [hhealthy]
  exact triple_pure fun _ hs => hs

/-- A failure that poisons the writer on its way. -/
theorem triple_orFail {x : Acquire σ α} {Q : α → State σ → Prop} {F : EwfError → State σ → Prop}
    {P : State σ → Prop} (h : Triple P x Q F)
    (herror : ∀ e s, F e s → E e { s with writer := s.writer.poison }) :
    Triple P (tryCatch x fun e => do fail; throw e : Acquire σ α) Q E := by
  refine triple_tryCatch h fun e => ?_
  intro s hs
  exact herror e s hs

end Rules

section Specs

variable {w : AcquisitionWriter} {attempts : List (Nat × Bytes)} {env : Environment σ}
  {faulty : Prop} {codec : Codec} {options : AcquisitionReadOptions}

theorem triple_notify (hfaults : Faults env faulty) :
    Triple (At w attempts) (notify env) (fun _ => At w attempts)
      fun _ s => faulty ∧ At w attempts s := by
  refine Triple.bind_get fun s hat => triple_ask_state ?_
  rintro s rfl
  cases hbreak : (env.callback s.progress s.world).1 with
  | true => exact triple_throw fun s' hs' => ⟨hfaults.callback _ _ hbreak, hs' ▸ hat⟩
  | false => exact triple_pure fun s' hs' => hs' ▸ hat

/-- Sealing the unsealed chunks, when the next segment can be named. -/
theorem triple_sealSegment (hfaults : Faults env faulty) (finalSegment : Bool)
    (hname : faulty ∨ NameOk (w.sealed.length + 1)) :
    Triple (At w attempts) (sealSegment env finalSegment)
      (fun _ => At (w.withSeal finalSegment) attempts) fun _ s => faulty ∧ At w attempts s := by
  refine triple_writer_bind (triple_fromResult_bind (fun _ _ => triple_fromResult_bind ?_ ?_) ?_)
  · intro _ _
    refine triple_ask_bind fun world => ?_
    cases hfailure : (env.install (w.sealed.length + 1) (w.nextSeal finalSegment) world).1 with
    | some e => exact triple_throw fun _ hs => ⟨hfaults.install _ _ _ _ hfailure, hs⟩
    | none => exact triple_modifyWriter fun _ hs => hs
  · intro e s herror hs
    refine ⟨hname.resolve_right fun hok => ?_, hs⟩
    rw [rejectIf_neg _ (Nat.not_le.mpr hok.2)] at herror
    cases herror
  · intro e s herror hs
    refine ⟨hname.resolve_right fun hok => ?_, hs⟩
    obtain ⟨name, hname⟩ := hok.1
    rw [hname] at herror
    cases herror

theorem triple_checkpoint (hfaults : Faults env faulty) (hhealthy : w.failed = false)
    (hname : w.chunks ≠ [] → faulty ∨ NameOk (w.sealed.length + 1)) :
    Triple (At w attempts) (checkpoint env) (fun _ => At w.checkpointed attempts)
      fun _ s => faulty ∧ At w.poison attempts s := by
  refine triple_ensureHealthy_bind hhealthy (triple_writer_bind ?_)
  unfold AcquisitionWriter.checkpointed
  by_cases hchunks : w.chunks ≠ []
  · rw [if_pos hchunks, if_pos hchunks]
    refine Triple.bind (triple_orFail (triple_sealSegment hfaults false (hname hchunks)) ?_) fun _ => ?_
    · intro e s hfault
      exact ⟨hfault.1, congrArg AcquisitionWriter.poison hfault.2.1, hfault.2.2⟩
    · exact triple_writer_bind (triple_pure fun _ hs => hs)
  · rw [if_neg hchunks, if_neg hchunks]
    exact Triple.bind (triple_pure fun _ hs => hs) fun _ =>
      triple_writer_bind (triple_pure fun _ hs => hs)

theorem triple_storeChunk (hfaults : Faults env faulty) (encoded : EncodedChunk) :
    Triple (At w attempts) (storeChunk env encoded) (fun _ => At (w.store encoded) attempts)
      fun _ s => faulty ∧ At w attempts s := by
  refine triple_ask_bind fun world => ?_
  cases hfailure : (env.append encoded world).1 with
  | some e => exact triple_throw fun _ hs => ⟨hfaults.append _ _ _ hfailure, hs⟩
  | none => exact triple_modifyWriter fun _ hs => hs

theorem triple_sealIfFull (hfaults : Faults env faulty)
    (hname : w.IsFull → faulty ∨ NameOk (w.sealed.length + 1)) :
    Triple (At w attempts) (sealIfFull env) (fun _ => At w.sealedIfFull attempts)
      fun _ s => faulty ∧ At w attempts s := by
  refine triple_writer_bind ?_
  unfold AcquisitionWriter.sealedIfFull
  by_cases hfull : w.IsFull
  · have hcondition := hfull
    unfold AcquisitionWriter.IsFull at hcondition
    rw [if_pos hcondition, if_pos hfull]
    exact triple_sealSegment hfaults _ (hname hfull)
  · have hcondition := hfull
    unfold AcquisitionWriter.IsFull at hcondition
    rw [if_neg hcondition, if_neg hfull]
    exact triple_pure fun _ hs => hs

/-- Storing a chunk and sealing behind it. -/
theorem triple_storeAndSeal (hfaults : Faults env faulty) (encoded : EncodedChunk)
    (hname : (w.store encoded).IsFull → faulty ∨ NameOk (w.sealed.length + 1)) :
    Triple (At w attempts) (do storeChunk env encoded; sealIfFull env)
      (fun _ => At (w.store encoded).sealedIfFull attempts)
      fun _ s => faulty ∧ ∃ w', At w' attempts s ∧ w'.core = w.core := by
  refine Triple.bind ((triple_storeChunk hfaults encoded).weaken (fun _ hs => hs)
    (fun _ _ hs => hs) fun _ s hfault => ⟨hfault.1, w, hfault.2, rfl⟩) fun _ => ?_
  exact (triple_sealIfFull hfaults hname).weaken (fun _ hs => hs) (fun _ _ hs => hs)
    fun _ s hfault => ⟨hfault.1, w.store encoded, hfault.2, rfl⟩

theorem triple_completeChunk (hfaults : Faults env faulty) {encoded : EncodedChunk}
    (hencode : w.encode codec w.pending = .ok encoded)
    (hname : (w.flushed.store encoded).IsFull → faulty ∨ NameOk (w.sealed.length + 1)) :
    Triple (At w attempts) (completeChunk codec env)
      (fun _ => At (w.flushed.store encoded).sealedIfFull attempts)
      fun _ s => faulty ∧ ∃ w', At w' attempts s ∧ w'.core = w.core := by
  refine triple_writer_bind (triple_modifyWriter_bind ?_)
  rw [hencode]
  have hflushed : Triple (At w.flushed attempts) (do storeChunk env encoded; sealIfFull env)
      (fun _ => At (w.flushed.store encoded).sealedIfFull attempts)
      fun _ s => faulty ∧ ∃ w', At w' attempts s ∧ w'.core = w.flushed.core :=
    triple_storeAndSeal hfaults encoded hname
  refine hflushed.weaken (fun _ hs => hs) (fun _ _ hs => hs) fun _ s hfault => ?_
  obtain ⟨hfaulty, w', hat, hcore⟩ := hfault
  exact ⟨hfaulty, w', hat, hcore.trans w.core_flushed⟩

theorem AcquisitionWriter.Fits.offset_ne {bytes : Bytes} (h : w.Fits bytes) :
    w.offset ≠ w.sourceSize := by
  have hpos : 0 < bytes.length := List.length_pos_iff.mpr h.ne_nil
  have hsource := h.source
  omega

/-- Sealing behind the bytes never leaves the segment names. -/
def AcquisitionWriter.SealsWithin (w : AcquisitionWriter) (faulty : Prop) : Prop :=
  faulty ∨ NameOk (w.sealed.length + 1)

theorem triple_append (hfaults : Faults env faulty) {bytes : Bytes} (hhealthy : w.failed = false)
    (hfits : w.Fits bytes) (hencode : ∀ chunk, ∃ encoded, w.encode codec chunk = .ok encoded)
    (hname : w.SealsWithin faulty) :
    Triple (At w attempts) (append codec env bytes)
      (fun count s => count = bytes.length ∧ ∃ w', At w' attempts s ∧ w.Wrote codec bytes w')
      fun _ s => faulty ∧ ∃ w', At w' attempts s ∧ w'.core = (w.accept bytes).core := by
  have htake : min (min bytes.length (w.chunkSize - w.pending.length)) (w.sourceSize - w.offset) =
      bytes.length := by
    rw [Nat.min_eq_left hfits.chunk, Nat.min_eq_left hfits.source]
  refine triple_ensureHealthy_bind hhealthy ?_
  rw [if_neg hfits.ne_nil]
  refine triple_writer_bind ?_
  rw [if_neg hfits.offset_ne]
  simp only [htake, List.take_length]
  refine triple_modifyWriter_bind ?_
  change Triple (At (w.accept bytes) attempts) _ _ _
  refine triple_writer_bind ?_
  by_cases hcomplete : (w.accept bytes).IsComplete
  · obtain ⟨encoded, hencoded⟩ := hencode (w.accept bytes).pending
    have hcondition := hcomplete
    unfold AcquisitionWriter.IsComplete at hcondition
    rw [if_pos hcondition]
    refine Triple.bind (triple_completeChunk hfaults hencoded fun _ => hname)
      fun _ => triple_pure fun s hs => ⟨rfl, _, hs, ?_⟩
    unfold AcquisitionWriter.Wrote
    rw [if_pos hcomplete]
    exact ⟨encoded, hencoded, rfl⟩
  · have hcondition := hcomplete
    unfold AcquisitionWriter.IsComplete at hcondition
    rw [if_neg hcondition]
    refine Triple.bind (triple_pure fun _ hs => hs) fun _ =>
      triple_pure fun s hs => ⟨rfl, _, hs, ?_⟩
    unfold AcquisitionWriter.Wrote
    rw [if_neg hcomplete]

theorem triple_write (hfaults : Faults env faulty) {bytes : Bytes} (hhealthy : w.failed = false)
    (hfits : w.Fits bytes) (hencode : ∀ chunk, ∃ encoded, w.encode codec chunk = .ok encoded)
    (hname : w.SealsWithin faulty) :
    Triple (At w attempts) (write codec env bytes)
      (fun count s => count = bytes.length ∧ ∃ w', At w' attempts s ∧ w.Wrote codec bytes w')
      fun _ s => faulty ∧ ∃ w', At w' attempts s ∧ w'.core = (w.accept bytes).core ∧
        w'.failed = true := by
  refine triple_tryCatch (triple_append hfaults hhealthy hfits hencode hname) fun e => ?_
  rintro s ⟨hfaulty, w', hat, hcore⟩
  exact ⟨hfaulty, w'.poison, ⟨congrArg AcquisitionWriter.poison hat.1, hat.2⟩, hcore, rfl⟩

/-- Bytes that fit are written in one turn. -/
theorem triple_writeAll (hfaults : Faults env faulty) {bytes : Bytes} (hhealthy : w.failed = false)
    (hfits : w.Fits bytes) (hencode : ∀ chunk, ∃ encoded, w.encode codec chunk = .ok encoded)
    (hname : w.SealsWithin faulty) :
    Triple (At w attempts) (writeAll codec env bytes.length bytes)
      (fun _ s => ∃ w', At w' attempts s ∧ w.Wrote codec bytes w')
      fun _ s => faulty ∧ ∃ w', At w' attempts s ∧ w'.core = (w.accept bytes).core ∧
        w'.failed = true := by
  have hpos : 0 < bytes.length := List.length_pos_iff.mpr hfits.ne_nil
  obtain ⟨fuel, hfuel⟩ : ∃ k, bytes.length = k + 1 := ⟨bytes.length - 1, by omega⟩
  rw [hfuel, writeAll, if_neg hfits.ne_nil]
  refine Triple.bind (triple_write hfaults hhealthy hfits hencode hname) fun count => ?_
  refine Triple.of_fact (p := count = bytes.length) ?_ fun s hs => hs.1
  rintro rfl
  rw [if_neg (Nat.pos_iff_ne_zero.mp hpos), List.drop_length]
  cases fuel with
  | zero => exact triple_pure fun _ hs => hs.2
  | succ fuel =>
    rw [writeAll, if_pos rfl]
    exact triple_pure fun _ hs => hs.2

theorem triple_afterSourceWrite (hfaults : Faults env faulty) (hhealthy : w.failed = false)
    (hname : w.chunks ≠ [] → w.SealsWithin faulty) :
    Triple (At w attempts) (afterSourceWrite env options)
      (fun _ => At (w.afterWrite options) attempts)
      fun _ s => FaultAt faulty (w.afterWrite options) attempts s := by
  refine triple_writer_bind ?_
  have hrest : Triple (At (w.afterWrite options) attempts)
      (do refreshSourceProgress; notify env) (fun _ => At (w.afterWrite options) attempts)
      fun _ s => FaultAt faulty (w.afterWrite options) attempts s := by
    refine Triple.bind (triple_writer_bind ?_) fun _ => (triple_notify hfaults).weaken
      (fun _ hs => hs) (fun _ _ hs => hs) fun _ s hfault => ⟨hfault.1, _, hfault.2, rfl, .inr rfl⟩
    exact fun _ hs => hs
  refine Triple.bind ?_ fun _ => hrest
  unfold AcquisitionWriter.afterWrite
  by_cases hdue : options.checkpointInterval.any (· ≤ w.offset - w.checkpointOffset)
  · rw [if_pos hdue, if_pos hdue]
    refine Triple.bind ((triple_checkpoint hfaults hhealthy hname).weaken (fun _ hs => hs)
      (fun _ _ hs => hs) fun _ s hfault => ⟨hfault.1, _, hfault.2, ?_, .inl rfl⟩) fun _ =>
      triple_pure fun _ hs => hs
    rw [w.core_poison, w.core_checkpointed]
  · rw [if_neg hdue, if_neg hdue]
    exact triple_pure fun _ hs => hs

theorem triple_storeBatchChunk (hfaults : Faults env faulty) {chunk : Bytes}
    {encoded : EncodedChunk} (hhealthy : w.failed = false) (hname : w.SealsWithin faulty)
    (hafter : ((w.acceptChunk chunk).store encoded).sealedIfFull.chunks ≠ [] →
      ((w.acceptChunk chunk).store encoded).sealedIfFull.SealsWithin faulty) :
    Triple (At w attempts) (storeBatchChunk env options chunk encoded)
      (fun _ => At (((w.acceptChunk chunk).store encoded).sealedIfFull.afterWrite options) attempts)
      fun _ s => FaultAt faulty (((w.acceptChunk chunk).store encoded).sealedIfFull.afterWrite options)
        attempts s := by
  refine triple_modifyWriter_bind ?_
  change Triple (At (w.acceptChunk chunk) attempts) _ _ _
  refine Triple.bind (triple_orFail (triple_storeAndSeal hfaults encoded fun _ => hname) ?_)
    fun _ => triple_afterSourceWrite hfaults ?_ hafter
  · rintro e s ⟨hfaulty, w', hat, hcore⟩
    refine ⟨hfaulty, w'.poison, ⟨congrArg AcquisitionWriter.poison hat.1, hat.2⟩, ?_, .inl rfl⟩
    simpa using hcore
  · unfold AcquisitionWriter.sealedIfFull
    split
    · exact hhealthy
    · exact hhealthy

end Specs

end EwfImage.Acquisition
