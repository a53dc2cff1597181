import EwfImage.Acquisition.Budget
import EwfImage.Acquisition.Provenance

/-!
# The acquisition loop

Reading leaves the writer alone. A sector or a batch is accepted behind the media and
keeps the writer consistent; when the destination fails on the way, the accepted bytes
are a part of it that ends with a sector.

The main result is `triple_storeBatch`; `triple_writeSector` is the same for one sector.
`faulty` stands for the failures of scratch storage, and `HaltedWithin` for the writer that such
a failure leaves.
-/

namespace EwfImage.Acquisition

open Fallible Word Pieces Triples AcquisitionWriter

variable {σ : Type}

/-- The bytes have been accepted and the writer is consistent. -/
def Advanced (codec : Codec) (faulty : Prop) (options : AcquisitionReadOptions)
    (w : AcquisitionWriter) (bytes : Bytes) (attempts : List (Nat × Bytes)) (s : State σ) : Prop :=
  ∃ w', At w' attempts s ∧ Consistent codec w' ∧ w'.Budget faulty options ∧
    w'.core = w.core.accept bytes

/-- A fault behind the accepted bytes. -/
def Halted (codec : Codec) (faulty : Prop) (w : AcquisitionWriter) (bytes : Bytes)
    (attempts : List (Nat × Bytes)) (s : State σ) : Prop :=
  faulty ∧ ∃ w', At w' attempts s ∧ w'.core = w.core.accept bytes ∧
    (w'.failed = true ∨ Consistent codec w')

theorem accept_nil (c : Core) : c.accept [] = c := by
  simp [Core.accept]

theorem accept_append (c : Core) (left right : Bytes) :
    (c.accept left).accept right = c.accept (left ++ right) := by
  simp [Core.accept, Nat.add_assoc]

/-- At a chunk boundary nothing is pending. -/
theorem AcquisitionWriter.Consistent.pending_eq_nil {codec : Codec} {w : AcquisitionWriter}
    (h : Consistent codec w) (hboundary : w.chunkSize ∣ w.offset ∨ w.offset = w.sourceSize) :
    w.pending = [] := by
  have hle : w.offset ≤ w.sourceSize := h.laid.offset_le
  rcases Nat.lt_or_ge w.offset w.sourceSize with hopen | hge
  · have hdvd := hboundary.resolve_right (Nat.ne_of_lt hopen)
    have hhashed := h.chunk_dvd_hashed hopen
    have hlength := h.hashed_length
    rw [← hlength] at hdvd
    have hpending : w.chunkSize ∣ w.pending.length := (Nat.dvd_add_right hhashed).mp hdvd
    exact List.length_eq_zero_iff.mp (Nat.eq_zero_of_dvd_of_lt hpending h.pending_lt)
  · exact (h.finished (Nat.le_antisymm hle hge)).1

section Reading

variable {w : AcquisitionWriter} {attempts : List (Nat × Bytes)} {env : Environment σ}

theorem triple_notify_safe : Triple (At w attempts) (notify env) (fun _ => At w attempts)
    fun _ => At w attempts := by
  have hfaults : Faults env True :=
    ⟨fun _ _ _ => trivial, fun _ _ _ _ => trivial, fun _ _ _ _ _ => trivial⟩
  exact (triple_notify hfaults).weaken (fun _ hs => hs) (fun _ _ hs => hs) fun _ _ hs => hs.2

theorem length_of_checkRead {wanted : Nat} {result : Except IoErrorKind Bytes} {bytes : Bytes}
    (h : checkRead wanted result = .ok bytes) : bytes ≠ [] ∧ bytes.length ≤ wanted := by
  unfold checkRead at h
  split at h
  · split at h
    · cases h
    · rename_i hne
      split at h
      · rename_i hle
        cases h
        exact ⟨hne, hle⟩
      · cases h
  · cases h

/-- What the source has given to one attempt at `offset` so far, and the world behind it: the seek
went there, and each answer was a part of what was missing, with a callback that let the attempt go
on between it and the next one. -/
inductive Gathered (env : Environment σ) (offset size : Nat) : Bytes → σ → Prop
  | positioned {world : σ} (h : (env.seek offset world).1 = .ok offset) :
      Gathered env offset size [] (env.seek offset world).2
  | answered {filled bytes : Bytes} {world : σ} {progress : AcquisitionProgress}
      (h : Gathered env offset size filled world)
      (hread : (env.read (size - filled.length) world).1 = .ok bytes) (hne : bytes ≠ [])
      (hle : bytes.length ≤ size - filled.length)
      (hcontinues :
        (env.callback progress (env.read (size - filled.length) world).2).1 = false) :
      Gathered env offset size (filled ++ bytes)
        (env.callback progress (env.read (size - filled.length) world).2).2

/-- The bytes are the answers of the source to one attempt, which got all that it asked for. -/
def Attempted (env : Environment σ) (offset : Nat) (bytes : Bytes) : Prop :=
  ∃ world, Gathered env offset bytes.length bytes world

theorem checkRead_eq_ok {wanted : Nat} {result : Except IoErrorKind Bytes} {bytes : Bytes}
    (h : checkRead wanted result = .ok bytes) : result = .ok bytes := by
  unfold checkRead at h
  split at h
  · split at h
    · cases h
    · split at h
      · cases h
        rfl
      · cases h
  · cases h

/-- A callback that lets the operation go on moves the world only. -/
theorem triple_notify_world {P Q : σ → Prop}
    (h : ∀ progress world, P world → (env.callback progress world).1 = false →
      Q (env.callback progress world).2) :
    Triple (fun s => At w attempts s ∧ P s.world) (notify env)
      (fun _ s => At w attempts s ∧ Q s.world) fun _ => At w attempts := by
  refine Triple.bind_get fun s ⟨hat, hworld⟩ => triple_ask_state ?_
  rintro s rfl
  cases hbreak : (env.callback s.progress s.world).1 with
  | true => exact triple_throw fun s' hs' => hs' ▸ hat
  | false => exact triple_pure fun s' hs' => hs' ▸ ⟨hat, h _ _ hworld hbreak⟩

theorem triple_readLoop {offset size fuel : Nat} {filled : Bytes} (hle : filled.length ≤ size)
    (hfuel : size ≤ filled.length + fuel) :
    Triple (fun s => At w attempts s ∧ Gathered env offset size filled s.world)
      (readLoop env size fuel filled)
      (fun result s => At w attempts s ∧
        ∀ bytes, result = .ok bytes → bytes.length = size ∧ Attempted env offset bytes)
      fun _ => At w attempts := by
  have hdone : ∀ {filled : Bytes}, filled.length = size →
      ∀ s : State σ, At w attempts s ∧ Gathered env offset size filled s.world →
        At w attempts s ∧ ∀ bytes, (.ok filled : Except IoErrorKind Bytes) = .ok bytes →
          bytes.length = size ∧ Attempted env offset bytes := by
    intro filled hlength s hs
    refine ⟨hs.1, fun bytes hbytes => ?_⟩
    cases hbytes
    exact ⟨hlength, s.world, hlength ▸ hs.2⟩
  induction fuel generalizing filled with
  | zero => exact triple_pure (hdone (by omega))
  | succ fuel ih =>
    rw [readLoop]
    by_cases hlt : filled.length < size
    · rw [if_pos hlt]
      refine triple_ask_state fun s hs => ?_
      obtain ⟨hat, hgathered⟩ := hs
      cases hread : checkRead (size - filled.length)
          (env.read (size - filled.length) s.world).1 with
      | error kind =>
        refine Triple.of_pre (P := At w attempts) ?_ fun _ hs' => hs' ▸ hat
        refine triple_modifyProgress_bind (Triple.bind triple_notify_safe fun _ => ?_)
        exact triple_pure fun s hs => ⟨hs, fun bytes hbytes => by cases hbytes⟩
      | ok bytes =>
        obtain ⟨hne, hbytes⟩ := length_of_checkRead hread
        have hpos : 0 < bytes.length := List.length_pos_iff.mpr hne
        refine Triple.of_pre (P := fun s' => At w attempts s' ∧
          s'.world = (env.read (size - filled.length) s.world).2) ?_ fun _ hs' => hs' ▸ ⟨hat, rfl⟩
        refine Triple.bind (triple_notify_world
          (P := (· = (env.read (size - filled.length) s.world).2))
          (Q := Gathered env offset size (filled ++ bytes)) ?_) fun _ => ih ?_ ?_
        · rintro progress world rfl hcontinues
          exact hgathered.answered (checkRead_eq_ok hread) hne hbytes hcontinues
        · rw [List.length_append]
          omega
        · rw [List.length_append]
          omega
    · rw [if_neg hlt]
      exact triple_pure (hdone (by omega))

/-- A successful attempt is recorded with the answers of the source, a failed one leaves nothing. -/
theorem triple_readAttempt (size : Nat) :
    Triple (At w attempts) (readAttempt env size)
      (fun result s => match result with
        | .ok bytes => (bytes.length = size ∧ Attempted env w.offset bytes) ∧
            At w (attempts ++ [(w.offset, bytes)]) s
        | .error _ => At w attempts s)
      fun _ => At w attempts := by
  refine triple_writer_bind (triple_modifyProgress_bind (Triple.bind triple_notify_safe fun _ => ?_))
  refine triple_ask_state fun s hs => ?_
  cases hseek : (env.seek w.offset s.world).1 with
  | error kind => exact triple_throw fun _ hs' => hs' ▸ hs
  | ok positioned =>
    dsimp only
    by_cases hposition : positioned ≠ w.offset
    · rw [if_pos hposition]
      exact triple_throw fun _ hs' => hs' ▸ hs
    · rw [if_neg hposition]
      rw [Decidable.of_not_not hposition] at hseek
      have hstarted : Gathered env w.offset size [] _ := Gathered.positioned hseek
      refine Triple.of_pre (P := fun s' => At w attempts s' ∧
        Gathered env w.offset size [] s'.world) ?_ fun _ hs' => hs' ▸ ⟨hs, hstarted⟩
      refine Triple.bind (Q := fun _ s' => At w attempts s' ∧
        Gathered env w.offset size [] s'.world) (fun _ hs' => hs') fun _ => ?_
      refine Triple.bind (triple_readLoop (Nat.zero_le _) (by simp)) fun result => ?_
      cases result with
      | error kind => exact triple_pure fun _ hs => hs.1
      | ok bytes =>
        intro s hs
        exact ⟨hs.2 bytes rfl, hs.1.1, by rw [← hs.1.2]⟩

/-- A read attempt below `limit` fails only by a fault, and its bytes are `Good`. -/
def Reads (env : Environment σ) (faulty : Prop) (Good : Nat → Bytes → Prop) (limit : Nat) : Prop :=
  ∀ w attempts size, w.offset + size ≤ limit →
    Triple (At w attempts) (readAttempt env size)
      (fun result s => match result with
        | .ok bytes => (bytes.length = size ∧ Good w.offset bytes) ∧
            At w (attempts ++ [(w.offset, bytes)]) s
        | .error _ => faulty ∧ At w attempts s)
      fun _ s => faulty ∧ At w attempts s

/-- What is read from a source that may do anything is what it answered to one attempt. -/
theorem reads_attempted (limit : Nat) : Reads env True (Attempted env) limit := by
  intro w attempts size _
  refine (triple_readAttempt size).weaken (fun _ hs => hs) ?_ fun _ _ hs => ⟨trivial, hs⟩
  intro result s hs
  cases result with
  | ok bytes => exact hs
  | error kind => exact ⟨trivial, hs⟩

theorem Reads.mono {faulty : Prop} {Good Good' : Nat → Bytes → Prop} {limit : Nat}
    (h : Reads env faulty Good limit) (himp : ∀ offset bytes, Good offset bytes → Good' offset bytes) :
    Reads env faulty Good' limit := by
  intro w attempts size hsize
  refine (h w attempts size hsize).weaken (fun _ hs => hs) ?_ fun _ _ hs => hs
  intro result s hs
  cases result with
  | ok bytes => exact ⟨⟨hs.1.1, himp _ _ hs.1.2⟩, hs.2⟩
  | error kind => exact hs

variable {faulty : Prop} {Good : Nat → Bytes → Prop} {limit : Nat}

theorem triple_attemptSector (hreads : Reads env faulty Good limit) {size : Nat}
    (hsize : w.offset + size ≤ limit) (left : Nat) (retry : Bool) :
    Triple (At w attempts) (attemptSector env size left retry)
      (fun result s => match result with
        | .ok bytes => (bytes.length = size ∧ Good w.offset bytes) ∧
            At w (attempts ++ [(w.offset, bytes)]) s
        | .error _ => faulty ∧ At w attempts s)
      fun _ s => faulty ∧ At w attempts s := by
  induction left generalizing retry with
  | zero =>
    rw [attemptSector]
    refine Triple.bind (Q := fun _ => At w attempts) ?_ fun _ =>
      Triple.bind (hreads w attempts size hsize) fun result => ?_
    · exact triple_ite (fun _ => triple_modifyProgress) fun _ => triple_pure fun _ hs => hs
    · cases result with
      | ok bytes => exact triple_pure fun _ hs => hs
      | error kind =>
        exact triple_ite (fun _ => triple_pure fun _ hs => hs) fun _ => triple_throw fun _ hs => hs
  | succ left ih =>
    rw [attemptSector]
    refine Triple.bind (Q := fun _ => At w attempts) ?_ fun _ =>
      Triple.bind (hreads w attempts size hsize) fun result => ?_
    · exact triple_ite (fun _ => triple_modifyProgress) fun _ => triple_pure fun _ hs => hs
    · cases result with
      | ok bytes => exact triple_pure fun _ hs => hs
      | error kind =>
        exact triple_ite (fun _ => (ih true).of_pre fun _ hs => hs.2) fun _ =>
          triple_throw fun _ hs => hs

/-- The bulk read is tried when a turn is longer than a sector. -/
theorem triple_bulkRead (hreads : Reads env faulty Good limit) {size sectorSize : Nat}
    (hsize : w.offset + size ≤ limit) :
    Triple (At w attempts) (bulkRead env size sectorSize)
      (fun result s => match result with
        | some bytes => (bytes.length = size ∧ Good w.offset bytes) ∧ sectorSize < size ∧
            At w (attempts ++ [(w.offset, bytes)]) s
        | none => (faulty ∨ size ≤ sectorSize) ∧ At w attempts s)
      fun _ s => faulty ∧ At w attempts s := by
  refine triple_ite (fun hlt => Triple.bind (hreads w attempts size hsize) fun result => ?_)
    fun hle => triple_pure fun _ hs => ⟨.inr (Nat.le_of_not_lt hle), hs⟩
  cases result with
  | ok bytes => exact triple_pure fun _ hs => ⟨hs.1, hlt, hs.2⟩
  | error kind =>
    exact triple_ite (fun _ => triple_pure fun _ hs => ⟨.inl hs.1, hs.2⟩) fun _ =>
      triple_throw fun _ hs => hs

end Reading

section Writing

variable {codec : Codec} {env : Environment σ} {faulty : Prop} {options : AcquisitionReadOptions}
  {w : AcquisitionWriter} {attempts : List (Nat × Bytes)} {bytes : Bytes}

/-- Bytes are written and followed by the checks behind a write. -/
theorem triple_writeSector (hfaults : Faults env faulty) (h : Consistent codec w)
    (hbudget : w.Budget faulty options) (hfits : w.Fits bytes) :
    Triple (At w attempts) (do writeAll codec env bytes.length bytes; afterSourceWrite env options)
      (fun _ => Advanced codec faulty options w bytes attempts)
      fun _ => Halted codec faulty w bytes attempts := by
  have hencode : ∀ chunk, ∃ encoded, w.encode codec chunk = .ok encoded :=
    exists_encode h.laid.compression
  refine Triple.bind ((triple_writeAll hfaults h.healthy hfits hencode
    (hbudget.sealsWithin (h.checkpoint_lt_of_open hfits.open_))).weaken (fun _ hs => hs)
      (fun _ _ hs => hs) ?_) fun _ => Triple.of_state ?_
  · rintro e s ⟨hfaulty, w', hat, hcore, hfailed⟩
    exact ⟨hfaulty, w', hat, hcore.trans (w.core_accept bytes), .inl hfailed⟩
  · rintro s₀ ⟨w', hat, hwrote⟩
    have hconsistent := h.wrote hfits hwrote
    have hbudget' := h.budget_wrote hbudget hfits hwrote
    have hcore : w'.core = w.core.accept bytes := hwrote.core.trans (w.core_accept bytes)
    have hafter : Triple (At w' attempts) (afterSourceWrite env options)
        (fun _ => At (w'.afterWrite options) attempts)
        fun _ s => FaultAt faulty (w'.afterWrite options) attempts s :=
      triple_afterSourceWrite hfaults hconsistent.healthy fun hchunks =>
        hbudget'.sealsWithin (hconsistent.checkpoint_lt hchunks)
    refine hafter.weaken (fun s hs => hs ▸ hat) ?_ ?_
    · intro _ s hs
      refine ⟨_, hs, hconsistent.afterWrite options, ?_, by rw [core_afterWrite, hcore]⟩
      exact hbudget'.imp_right hconsistent.affordable_afterWrite
    · rintro _ s ⟨hfaulty, v, hv, hvcore, hstate⟩
      rw [core_afterWrite, hcore] at hvcore
      refine ⟨hfaulty, v, hv, hvcore, hstate.imp_right ?_⟩
      rintro rfl
      exact hconsistent.afterWrite options

/-- The encoded chunks of a batch. -/
theorem exists_mapM_encode (h : w.compression ≠ .bzip2) (chunks : List Bytes) :
    ∃ encoded, chunks.mapM (w.encode codec) = .ok encoded ∧
      List.Forall₂ (fun chunk encoded => w.encode codec chunk = .ok encoded) chunks encoded := by
  induction chunks with
  | nil => exact ⟨[], rfl, .nil⟩
  | cons chunk chunks ih =>
    obtain ⟨rest, hrest, hforall⟩ := ih
    obtain ⟨encoded, hencoded⟩ : ∃ encoded, w.encode codec chunk = .ok encoded :=
      exists_encode h chunk
    refine ⟨encoded :: rest, ?_, .cons hencoded hforall⟩
    rw [List.mapM_cons, hencoded, hrest]
    rfl

/-- One chunk of a batch, whole or at the end of the source. -/
theorem triple_storeBatchChunk_consistent (hfaults : Faults env faulty) {encoded : EncodedChunk}
    (h : Consistent codec w) (hbudget : w.Budget faulty options) (hpending : w.pending = [])
    (hne : bytes ≠ []) (hle : bytes.length ≤ w.chunkSize)
    (hsource : bytes.length ≤ w.sourceSize - w.offset)
    (hwhole : bytes.length = w.chunkSize ∨ w.offset + bytes.length = w.sourceSize)
    (hencode : w.encode codec bytes = .ok encoded) :
    Triple (At w attempts) (storeBatchChunk env options bytes encoded)
      (fun _ => Advanced codec faulty options w bytes attempts)
      fun _ => Halted codec faulty w bytes attempts := by
  have hpos : 0 < bytes.length := List.length_pos_iff.mpr hne
  have hopen : w.offset < w.sourceSize := by omega
  obtain ⟨haccept, hhashed⟩ := h.acceptChunk_eq hpending
  rw [← hhashed] at hwhole
  have hconsistent : Consistent codec ((w.acceptChunk bytes).store encoded).sealedIfFull := by
    rw [haccept]
    exact h.stored hopen hne hle (by omega) hwhole hencode
  have hbudget' : ((w.acceptChunk bytes).store encoded).sealedIfFull.Budget faulty options := by
    rw [haccept]
    exact hbudget.imp_right fun haffordable =>
      h.affordable_stored haffordable hopen (by omega) hwhole
  have hcore : ((w.acceptChunk bytes).store encoded).sealedIfFull.core = w.core.accept bytes := by
    simp [core_acceptChunk w hpending]
  refine (triple_storeBatchChunk hfaults h.healthy (hbudget.sealsWithin (h.checkpoint_lt_of_open hopen))
    fun hchunks => hbudget'.sealsWithin (hconsistent.checkpoint_lt hchunks)).weaken (fun _ hs => hs) ?_ ?_
  · intro _ s hs
    refine ⟨_, hs, hconsistent.afterWrite options, ?_, by rw [core_afterWrite, hcore]⟩
    exact hbudget'.imp_right hconsistent.affordable_afterWrite
  · rintro _ s ⟨hfaulty, v, hv, hvcore, hstate⟩
    rw [core_afterWrite, hcore] at hvcore
    refine ⟨hfaulty, v, hv, hvcore, hstate.imp_right ?_⟩
    rintro rfl
    exact hconsistent.afterWrite options

/-- A fault inside a batch: whole chunks of it, or all of it, have been accepted. -/
def HaltedWithin (codec : Codec) (faulty : Prop) (w : AcquisitionWriter) (bytes : Bytes)
    (attempts : List (Nat × Bytes)) (s : State σ) : Prop :=
  ∃ done, done <+: bytes ∧ (w.chunkSize ∣ done.length ∨ done = bytes) ∧
    Halted codec faulty w done attempts s

theorem encode_of_core {w' : AcquisitionWriter} {accepted : Bytes}
    (hcore : w'.core = w.core.accept accepted) : w'.encode codec = w.encode codec := by
  have hchunk : w'.chunkSize = w.chunkSize := congrArg Core.chunkSize hcore
  have hcompression : w'.compression = w.compression := congrArg Core.compression hcore
  have hvalues : w'.compressionValues = w.compressionValues := congrArg Core.compressionValues hcore
  funext chunk
  unfold encode
  rw [hchunk, hcompression, hvalues]

/-- Halting behind more bytes. -/
theorem HaltedWithin.behind {w' : AcquisitionWriter} {first : Bytes} {s : State σ}
    (h : HaltedWithin codec faulty w' bytes attempts s) (hcore : w'.core = w.core.accept first)
    (hfirst : w.chunkSize ∣ first.length ∨ bytes = []) :
    HaltedWithin codec faulty w (first ++ bytes) attempts s := by
  obtain ⟨done, hpart, hdone, hfaulty, v, hv, hvcore, hstate⟩ := h
  have hchunk : w'.chunkSize = w.chunkSize := congrArg Core.chunkSize hcore
  rw [hchunk] at hdone
  refine ⟨first ++ done, (List.prefix_append_right_inj first).mpr hpart, ?_, hfaulty, v, hv, ?_,
    hstate⟩
  · rcases hfirst with hdvd | rfl
    · rcases hdone with hdoneDvd | rfl
      · exact .inl (by rw [List.length_append]; exact Nat.dvd_add hdvd hdoneDvd)
      · exact .inr rfl
    · exact .inr (by rw [List.prefix_nil.mp hpart])
  · rw [hvcore, hcore, accept_append]

/-- The chunks of a batch, the last one of which may end with the source. -/
theorem triple_storeBatch (hfaults : Faults env faulty) {encoded : List EncodedChunk}
    (h : Consistent codec w) (hbudget : w.Budget faulty options)
    (hboundary : w.chunkSize ∣ w.offset ∨ w.offset = w.sourceSize)
    (hsource : bytes.length ≤ w.sourceSize - w.offset)
    (hwhole : w.chunkSize ∣ bytes.length ∨ w.offset + bytes.length = w.sourceSize)
    (hencode : List.Forall₂ (fun chunk encoded => w.encode codec chunk = .ok encoded)
      (pieces w.chunkSize bytes) encoded) :
    Triple (At w attempts) (storeBatch env options ((pieces w.chunkSize bytes).zip encoded))
      (fun _ => Advanced codec faulty options w bytes attempts)
      fun _ => HaltedWithin codec faulty w bytes attempts := by
  induction hn : bytes.length using Nat.strongRecOn generalizing bytes w encoded with
  | ind n ih =>
    have hchunk : 0 < w.chunkSize := h.laid.chunk_pos
    by_cases hnil : bytes = []
    · subst hnil
      rw [pieces_nil, List.zip_nil_left]
      exact triple_pure fun s hs => ⟨w, hs, h, hbudget, (accept_nil _).symm⟩
    · have hpos : 0 < bytes.length := List.length_pos_iff.mpr hnil
      rw [pieces_of_ne_nil hchunk hnil] at hencode ⊢
      cases hencode with
      | @cons _ first _ rest hfirst hrest =>
        rw [List.zip_cons_cons]
        have htake : (bytes.take w.chunkSize).length = min w.chunkSize bytes.length := List.length_take
        have hdrop : (bytes.drop w.chunkSize).length = bytes.length - w.chunkSize := List.length_drop
        have hjoin : bytes.take w.chunkSize ++ bytes.drop w.chunkSize = bytes :=
          List.take_append_drop _ _
        have hfirstNe : bytes.take w.chunkSize ≠ [] := List.length_pos_iff.mp (by omega)
        have hfirstWhole : (bytes.take w.chunkSize).length = w.chunkSize ∨
            w.offset + (bytes.take w.chunkSize).length = w.sourceSize := by
          rcases hwhole with hdvd | hend
          · exact .inl (htake.trans (Nat.min_eq_left (Nat.le_of_dvd hpos hdvd)))
          · omega
        have hfirstChunk : Triple (At w attempts)
            (storeBatchChunk env options (bytes.take w.chunkSize) first)
            (fun _ => Advanced codec faulty options w (bytes.take w.chunkSize) attempts)
            fun _ => Halted codec faulty w (bytes.take w.chunkSize) attempts :=
          triple_storeBatchChunk_consistent hfaults h hbudget (h.pending_eq_nil hboundary) hfirstNe
            (by omega) (by omega) hfirstWhole hfirst
        refine Triple.bind (hfirstChunk.weaken (fun _ hs => hs) (fun _ _ hs => hs) ?_)
          fun _ => Triple.of_state ?_
        · intro e s hs
          refine ⟨_, List.take_prefix _ _, ?_, hs⟩
          rcases Nat.lt_or_ge bytes.length w.chunkSize with hlt | hge
          · exact .inr (List.take_of_length_le (Nat.le_of_lt hlt))
          · exact .inl (by rw [htake, Nat.min_eq_left hge])
        · rintro s₀ ⟨w', hat, hconsistent, hbudget', hcore⟩
          have hchunkSize : w'.chunkSize = w.chunkSize := congrArg Core.chunkSize hcore
          have hsourceSize : w'.sourceSize = w.sourceSize := congrArg Core.sourceSize hcore
          have hoffset : w'.offset = w.offset + (bytes.take w.chunkSize).length :=
            congrArg Core.offset hcore
          have hboundary' : w'.chunkSize ∣ w'.offset ∨ w'.offset = w'.sourceSize := by
            rw [hchunkSize, hsourceSize, hoffset]
            refine hfirstWhole.imp (fun hlength => ?_) fun hend => hend
            rw [hlength]
            exact Nat.dvd_add (hboundary.resolve_right (by omega)) (Nat.dvd_refl _)
          have hwhole' : w'.chunkSize ∣ (bytes.drop w.chunkSize).length ∨
              w'.offset + (bytes.drop w.chunkSize).length = w'.sourceSize := by
            rw [hchunkSize, hsourceSize, hoffset]
            rcases hwhole with hdvd | hend
            · exact .inl (hdrop ▸ Nat.dvd_sub hdvd (Nat.dvd_refl _))
            · exact .inr (by omega)
          have hrestEncode : List.Forall₂ (fun chunk encoded => w'.encode codec chunk = .ok encoded)
              (pieces w'.chunkSize (bytes.drop w.chunkSize)) rest := by
            rw [hchunkSize, encode_of_core hcore]
            exact hrest
          have hrestBatch := ih _ (by omega) hconsistent hbudget' hboundary' (by omega) hwhole'
            hrestEncode rfl
          rw [hchunkSize] at hrestBatch
          refine hrestBatch.weaken (fun s hs => hs ▸ hat) ?_ ?_
          · rintro _ s ⟨v, hv, hvconsistent, hvbudget, hvcore⟩
            refine ⟨v, hv, hvconsistent, hvbudget, ?_⟩
            rw [hvcore, hcore, accept_append, hjoin]
          · intro _ s hs
            have hbehind := hs.behind hcore ?_
            · rwa [hjoin] at hbehind
            · rcases Nat.lt_or_ge bytes.length w.chunkSize with hlt | hge
              · exact .inr (List.drop_of_length_le (Nat.le_of_lt hlt))
              · exact .inl (by rw [htake, Nat.min_eq_left hge])

end Writing

end EwfImage.Acquisition
