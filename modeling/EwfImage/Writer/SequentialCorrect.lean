import EwfImage.Lib.Pieces
import EwfImage.Writer.Sequential
import Mathlib.Data.List.Induction

/-!
# What the sequential writer stages

However the source is cut into calls and the calls into batches, the writer pushes the
pieces of the source in order, and a segment holds the next run of exactly the wanted
number of encoded chunks.

The main result is `run_eq`: a run that takes the whole source comes to `stageRuns` over the
encoded pieces, whatever the cuts were. `Created` collects what creating a writer checks, and
`Created.pieces_padded` the padding of the last sector.
-/

namespace EwfImage

open Fallible Word Pieces

theorem encodeChunk_total {codec : Codec} {compression : WriteCompression}
    {values : WriteCompressionValues} (h : ¬ (compression = .bzip2 ∧ values.level = .none))
    (chunk : Bytes) (chunkSize : Nat) (allowPatternFill allowEmptyBlockCompression : Bool) :
    ∃ encoded, encodeChunk codec chunk compression values chunkSize allowPatternFill
      allowEmptyBlockCompression = .ok encoded := by
  unfold encodeChunk
  split
  · exact ⟨_, rfl⟩
  · split
    · exact ⟨_, rfl⟩
    · cases compression with
      | none => exact ⟨_, rfl⟩
      | zlib =>
        dsimp only
        split
        · exact ⟨_, rfl⟩
        · exact ⟨_, rfl⟩
      | bzip2 =>
        cases hlevel : values.level with
        | none => exact absurd ⟨rfl, hlevel⟩ h
        | default => exact ⟨_, rfl⟩
        | fast => exact ⟨_, rfl⟩
        | best => exact ⟨_, rfl⟩

/-! ## Groups -/

/-- A chunk behind the chunks of a group. -/
def Group.append (group : Group) (encoded : EncodedChunk) : Result Group := do
  let (descriptor, spool) ← appendChunk group.spool encoded
  return ⟨spool, group.chunks ++ [descriptor]⟩

/-- The group of these chunks. -/
def groupOf (chunks : List EncodedChunk) : Result Group := chunks.foldlM Group.append {}

theorem Group.length_append {group next : Group} {encoded : EncodedChunk}
    (h : group.append encoded = .ok next) :
    next.chunks.length = group.chunks.length + 1 := by
  obtain ⟨⟨descriptor, spool⟩, -, h⟩ := bind_eq_ok.mp h
  cases h
  rw [List.length_append, List.length_singleton]

theorem groupOf_length {chunks : List EncodedChunk} {group : Group}
    (h : groupOf chunks = .ok group) : group.chunks.length = chunks.length := by
  induction chunks using List.reverseRecOn generalizing group with
  | nil =>
    cases h
    rfl
  | append_singleton chunks encoded ih =>
    rw [groupOf, foldlM_concat] at h
    obtain ⟨front, hfront, hlast⟩ := bind_eq_ok.mp h
    rw [Group.length_append hlast, ih hfront, List.length_append, List.length_singleton]

namespace SequentialWriter

variable {codec : Codec} {ewf1 : Ewf1PayloadEncoders} {ewf2 : Ewf2PayloadEncoders}
  {digests : Digests} {batchSize : Nat}

/-! ## Pushing encoded chunks -/

/-- The writer with another input state: what no segment depends on before the writer is finished. -/
def setInput (w : SequentialWriter) (position : Nat) (pending hashed : Bytes) : SequentialWriter :=
  { w with position, pending, hashed }

@[simp] theorem setInput_setInput (w : SequentialWriter) (position position' : Nat)
    (pending hashed pending' hashed' : Bytes) :
    (w.setInput position pending hashed).setInput position' pending' hashed' =
      w.setInput position' pending' hashed' := rfl

theorem pushEncoded_setInput (w : SequentialWriter) (position : Nat) (pending hashed : Bytes)
    (encoded : EncodedChunk) :
    (w.setInput position pending hashed).pushEncoded codec ewf1 ewf2 encoded =
      (w.pushEncoded codec ewf1 ewf2 encoded).map (·.setInput position pending hashed) := by
  simp only [pushEncoded, setInput]
  cases appendChunk w.current.spool encoded with
  | error e => rfl
  | ok appended =>
    simp only [ok_bind]
    by_cases hfull : (w.current.chunks ++ [appended.1]).length = w.perSegment ∧
        w.encodedChunks + 1 < w.totalChunks.toNat
    · rw [if_pos hfull]
      refine (if_pos hfull).trans ?_
      have hstage : ∀ group number last, stageGroup codec ewf1 ewf2
          { w with position, pending, hashed } group number last =
            w.stageGroup codec ewf1 ewf2 group number last := fun _ _ _ => rfl
      rw [hstage]
      cases w.stageGroup codec ewf1 ewf2 ⟨appended.2, w.current.chunks ++ [appended.1]⟩
        (w.segments.length + 1) false with
      | error e => rfl
      | ok segment => rfl
    · rw [if_neg hfull]
      exact if_neg hfull

theorem foldlM_pushEncoded_setInput (w : SequentialWriter) (position : Nat)
    (pending hashed : Bytes) (chunks : List EncodedChunk) :
    chunks.foldlM (pushEncoded codec ewf1 ewf2) (w.setInput position pending hashed) =
      (chunks.foldlM (pushEncoded codec ewf1 ewf2) w).map (·.setInput position pending hashed) := by
  induction chunks generalizing w with
  | nil => rfl
  | cons encoded chunks ih =>
    rw [List.foldlM_cons, List.foldlM_cons, pushEncoded_setInput]
    cases w.pushEncoded codec ewf1 ewf2 encoded with
    | error e => rfl
    | ok next => exact ih next

/-- What pushing a chunk leaves as it is. -/
structure SameSettings (w w' : SequentialWriter) : Prop where
  options : w'.options = w.options
  sourceSize : w'.sourceSize = w.sourceSize
  logicalSize : w'.logicalSize = w.logicalSize
  chunkSize : w'.chunkSize = w.chunkSize
  capacity : w'.capacity = w.capacity
  perSegment : w'.perSegment = w.perSegment
  totalChunks : w'.totalChunks = w.totalChunks
  poisoned : w'.poisoned = w.poisoned

theorem SameSettings.refl (w : SequentialWriter) : SameSettings w w :=
  ⟨rfl, rfl, rfl, rfl, rfl, rfl, rfl, rfl⟩

theorem SameSettings.trans {w w' w'' : SequentialWriter} (h : SameSettings w w')
    (h' : SameSettings w' w'') : SameSettings w w'' :=
  ⟨h'.options.trans h.options, h'.sourceSize.trans h.sourceSize,
    h'.logicalSize.trans h.logicalSize, h'.chunkSize.trans h.chunkSize,
    h'.capacity.trans h.capacity, h'.perSegment.trans h.perSegment,
    h'.totalChunks.trans h.totalChunks, h'.poisoned.trans h.poisoned⟩

theorem pushEncoded_settings {w w' : SequentialWriter} {encoded : EncodedChunk}
    (h : w.pushEncoded codec ewf1 ewf2 encoded = .ok w') : SameSettings w w' := by
  obtain ⟨⟨descriptor, spool⟩, -, h⟩ := bind_eq_ok.mp h
  dsimp only at h
  split at h
  · obtain ⟨segment, -, h⟩ := bind_eq_ok.mp h
    cases h
    exact ⟨rfl, rfl, rfl, rfl, rfl, rfl, rfl, rfl⟩
  · cases h
    exact ⟨rfl, rfl, rfl, rfl, rfl, rfl, rfl, rfl⟩

theorem foldlM_pushEncoded_settings {w w' : SequentialWriter} {chunks : List EncodedChunk}
    (h : chunks.foldlM (pushEncoded codec ewf1 ewf2) w = .ok w') : SameSettings w w' :=
  foldlM_invariant (fun _ _ _ hsame _ hpush =>
    hsame.trans (pushEncoded_settings hpush)) (.refl w) h

theorem encodeOne_settings {w w' : SequentialWriter} (h : SameSettings w w') (chunk : Bytes) :
    w'.encodeOne codec chunk = w.encodeOne codec chunk := by
  rw [encodeOne, encodeOne, h.options, h.chunkSize]

theorem stageGroup_settings {w w' : SequentialWriter} (h : SameSettings w w') (group : Group)
    (number : Nat) (last : Bool) :
    w'.stageGroup codec ewf1 ewf2 group number last =
      w.stageGroup codec ewf1 ewf2 group number last := by
  rw [stageGroup, stageGroup, h.options, h.logicalSize, h.perSegment, h.totalChunks]

/-! ## Batches -/

/-- A batch is pushed chunk by chunk. -/
theorem encodeBatch_eq {enc : Bytes → EncodedChunk} {w : SequentialWriter}
    (henc : ∀ chunk, w.encodeOne codec chunk = .ok (enc chunk)) (chunks : List Bytes) :
    w.encodeBatch codec ewf1 ewf2 chunks =
      ((chunks.map enc).foldlM (pushEncoded codec ewf1 ewf2) w).map
        (·.setInput w.position w.pending (w.hashed ++ chunks.flatten)) := by
  have hmap : chunks.mapM (w.encodeOne codec) = .ok (chunks.map enc) := by
    rw [funext henc]
    exact List.mapM_pure
  have hsame : SequentialWriter.encodeOne codec { w with hashed := w.hashed ++ chunks.flatten } =
      w.encodeOne codec := rfl
  rw [encodeBatch, hsame, hmap, ok_bind]
  exact foldlM_pushEncoded_setInput w w.position w.pending (w.hashed ++ chunks.flatten) _

/-- Bytes are taken into filled pieces and, behind them, into the pending one. -/
theorem fillBatch_spec (batchSize : Nat) {fuel : Nat} (chunks : List Bytes) (w : SequentialWriter) {bytes : Bytes}
    (hfuel : bytes.length ≤ fuel) (hpending : w.pending.length < w.capacity) :
    ∃ filled pending taken rest, bytes = taken ++ rest ∧
      fillBatch batchSize fuel chunks w bytes =
        (chunks ++ filled, w.setInput (w.position + taken.length) pending w.hashed, rest) ∧
      Cut w.capacity (w.pending ++ taken) filled pending ∧
      (bytes ≠ [] → chunks.length < batchSize → taken ≠ []) := by
  induction fuel generalizing chunks w bytes with
  | zero =>
    have hnil : bytes = [] := List.length_eq_zero_iff.mp (Nat.le_zero.mp hfuel)
    subst hnil
    refine ⟨[], w.pending, [], [], rfl, ?_, ?_, fun hne => absurd rfl hne⟩
    · rw [List.append_nil]
      rfl
    · rw [List.append_nil]
      exact .short hpending
  | succ fuel ih =>
    rw [fillBatch]
    by_cases hmore : bytes ≠ [] ∧ chunks.length < batchSize
    · rw [if_pos hmore]
      have hpos : 0 < bytes.length := List.length_pos_iff.mpr hmore.1
      generalize htake : min bytes.length (w.capacity - w.pending.length) = take
      have hlength : (bytes.take take).length = take := by
        rw [List.length_take]
        omega
      have hdrop : (bytes.drop take).length ≤ fuel := by
        rw [List.length_drop]
        omega
      have hne : bytes.take take ≠ [] := by
        intro hnil
        rw [hnil, List.length_nil] at hlength
        omega
      dsimp only
      by_cases hfull : (w.pending ++ bytes.take take).length = w.capacity
      · rw [if_pos hfull]
        obtain ⟨filled, pending, taken, rest, hsplit, heq, hcut, -⟩ :=
          ih (chunks ++ [w.pending ++ bytes.take take])
            { w with pending := [], position := w.position + take } hdrop
            (by simp only [List.length_nil]; omega)
        refine ⟨(w.pending ++ bytes.take take) :: filled, pending, bytes.take take ++ taken, rest,
          ?_, ?_, ?_, fun _ _ hnil => hne (List.append_eq_nil_iff.mp hnil).1⟩
        · rw [List.append_assoc, ← hsplit, List.take_append_drop]
        · rw [heq, List.length_append, hlength, ← Nat.add_assoc, List.append_assoc]
          rfl
        · have hfirst : Cut w.capacity (w.pending ++ bytes.take take)
              [w.pending ++ bytes.take take] [] := by
            refine ⟨by simp, fun piece hpiece => ?_, by simp only [List.length_nil]; omega⟩
            rw [List.mem_singleton.mp hpiece, hfull]
          rw [← List.append_assoc]
          exact hfirst.append hcut
      · rw [if_neg hfull]
        have hlt : (w.pending ++ bytes.take take).length < w.capacity := by
          rw [List.length_append, hlength] at hfull ⊢
          omega
        obtain ⟨filled, pending, taken, rest, hsplit, heq, hcut, -⟩ :=
          ih chunks
            { w with pending := w.pending ++ bytes.take take, position := w.position + take }
            hdrop hlt
        refine ⟨filled, pending, bytes.take take ++ taken, rest, ?_, ?_, ?_,
          fun _ _ hnil => hne (List.append_eq_nil_iff.mp hnil).1⟩
        · rw [List.append_assoc, ← hsplit, List.take_append_drop]
        · rw [heq, List.length_append, hlength, ← Nat.add_assoc]
          rfl
        · rw [← List.append_assoc]
          exact hcut
    · rw [if_neg hmore]
      refine ⟨[], w.pending, [], bytes, rfl, ?_, ?_, fun hne hlt => absurd ⟨hne, hlt⟩ hmore⟩
      · rw [List.append_nil]
        rfl
      · rw [List.append_nil]
        exact .short hpending

/-- However the batches fall, the filled pieces are pushed in order. -/
theorem writeLoop_spec {enc : Bytes → EncodedChunk} {fuel : Nat} (w : SequentialWriter)
    {bytes : Bytes} (henc : ∀ chunk, w.encodeOne codec chunk = .ok (enc chunk))
    (hbatch : 0 < batchSize) (hfuel : bytes.length ≤ fuel) (hpending : w.pending.length < w.capacity) :
    ∃ filled rest, Cut w.capacity (w.pending ++ bytes) filled rest ∧
      writeLoop codec ewf1 ewf2 batchSize fuel w bytes =
        ((filled.map enc).foldlM (pushEncoded codec ewf1 ewf2) w).map
          (·.setInput (w.position + bytes.length) rest (w.hashed ++ filled.flatten)) := by
  induction fuel generalizing w bytes with
  | zero =>
    have hnil : bytes = [] := List.length_eq_zero_iff.mp (Nat.le_zero.mp hfuel)
    subst hnil
    refine ⟨[], w.pending, ?_, ?_⟩
    · rw [List.append_nil]
      exact .short hpending
    · simp [writeLoop, setInput, Except.map]
  | succ fuel ih =>
    rw [writeLoop]
    by_cases hne : bytes = []
    · subst hne
      refine ⟨[], w.pending, ?_, ?_⟩
      · rw [List.append_nil]
        exact .short hpending
      · simp [setInput, Except.map]
    · rw [if_pos hne]
      obtain ⟨filled, pending, taken, rest, hsplit, heq, hcut, htaken⟩ :=
        fillBatch_spec batchSize [] w (Nat.le_refl bytes.length) hpending
      have hprogress := List.length_pos_iff.mpr (htaken hne hbatch)
      have hlength : bytes.length = taken.length + rest.length := by
        rw [hsplit, List.length_append]
      have hbatchEq : (w.setInput (w.position + taken.length) pending w.hashed).encodeBatch codec
          ewf1 ewf2 filled = ((filled.map enc).foldlM (pushEncoded codec ewf1 ewf2) w).map
            (·.setInput (w.position + taken.length) pending (w.hashed ++ filled.flatten)) := by
        have hsettings : ∀ chunk, (w.setInput (w.position + taken.length) pending
            w.hashed).encodeOne codec chunk = .ok (enc chunk) := henc
        rw [encodeBatch_eq hsettings, foldlM_pushEncoded_setInput]
        cases (filled.map enc).foldlM (pushEncoded codec ewf1 ewf2) w <;> rfl
      rw [heq]
      dsimp only
      rw [List.nil_append, hbatchEq]
      cases hpushed : (filled.map enc).foldlM (pushEncoded codec ewf1 ewf2) w with
      | error e =>
        obtain ⟨filled', rest', hcut'⟩ :=
          exists_cut (Nat.zero_lt_of_lt hcut.rest) (pending ++ rest)
        refine ⟨filled ++ filled', rest', ?_, ?_⟩
        · rw [hsplit, ← List.append_assoc]
          exact hcut.append hcut'
        · rw [List.map_append, List.foldlM_append, hpushed]
          rfl
      | ok next =>
        have hsame := foldlM_pushEncoded_settings hpushed
        have hcapacity : next.capacity = w.capacity := hsame.capacity
        obtain ⟨filled', rest', hcut', hloop⟩ := ih
          (next.setInput (w.position + taken.length) pending (w.hashed ++ filled.flatten))
          (fun chunk => (encodeOne_settings hsame chunk).trans (henc chunk))
          (show rest.length ≤ fuel by omega)
          (show pending.length < next.capacity by rw [hcapacity]; exact hcut.rest)
        refine ⟨filled ++ filled', rest', ?_, ?_⟩
        · rw [hsplit, ← List.append_assoc]
          rw [show (next.setInput (w.position + taken.length) pending
            (w.hashed ++ filled.flatten)).capacity = w.capacity from hcapacity] at hcut'
          exact hcut.append hcut'
        · rw [List.map_append, List.foldlM_append, hpushed, ok_bind]
          change writeLoop codec ewf1 ewf2 batchSize fuel (next.setInput (w.position + taken.length)
            pending (w.hashed ++ filled.flatten)) rest = _
          rw [hloop, foldlM_pushEncoded_setInput, hlength, List.flatten_append, ← List.append_assoc,
            ← Nat.add_assoc]
          cases (filled'.map enc).foldlM (pushEncoded codec ewf1 ewf2) next <;> rfl

/-- Several calls of `write_all` behind one another. -/
theorem foldlM_append_spec (ewf1 : Ewf1PayloadEncoders) (ewf2 : Ewf2PayloadEncoders)
    {enc : Bytes → EncodedChunk} (w : SequentialWriter) (writes : List Bytes) (henc : ∀ chunk, w.encodeOne codec chunk = .ok (enc chunk))
    (hbatch : 0 < batchSize) (hpending : w.pending.length < w.capacity)
    (hsize : writes.flatten.length ≤ w.sourceSize - w.position) :
    ∃ filled rest, Cut w.capacity (w.pending ++ writes.flatten) filled rest ∧
      writes.foldlM (append codec ewf1 ewf2 batchSize) w =
        ((filled.map enc).foldlM (pushEncoded codec ewf1 ewf2) w).map
          (·.setInput (w.position + writes.flatten.length) rest (w.hashed ++ filled.flatten)) := by
  induction writes generalizing w with
  | nil =>
    refine ⟨[], w.pending, ?_, ?_⟩
    · rw [List.flatten_nil, List.append_nil]
      exact .short hpending
    · simp [setInput, Except.map]
  | cons bytes writes ih =>
    rw [List.flatten_cons, List.length_append] at hsize
    obtain ⟨filled, rest, hcut, hloop⟩ := writeLoop_spec w henc hbatch (Nat.le_refl bytes.length)
      hpending
    rw [List.foldlM_cons, append, rejectIf_neg _ (by omega), ok_bind, hloop]
    cases hpushed : (filled.map enc).foldlM (pushEncoded codec ewf1 ewf2) w with
    | error e =>
      obtain ⟨filled', rest', hcut'⟩ :=
        exists_cut (Nat.zero_lt_of_lt hcut.rest) (rest ++ writes.flatten)
      refine ⟨filled ++ filled', rest', ?_, ?_⟩
      · rw [List.flatten_cons, ← List.append_assoc]
        exact hcut.append hcut'
      · rw [List.map_append, List.foldlM_append, hpushed]
        rfl
    | ok next =>
      have hsame := foldlM_pushEncoded_settings hpushed
      have hcapacity : next.capacity = w.capacity := hsame.capacity
      have hroom : writes.flatten.length ≤ next.sourceSize - (w.position + bytes.length) := by
        rw [hsame.sourceSize]
        omega
      obtain ⟨filled', rest', hcut', hrest⟩ := ih
        (next.setInput (w.position + bytes.length) rest (w.hashed ++ filled.flatten))
        (fun chunk => (encodeOne_settings hsame chunk).trans (henc chunk))
        (show rest.length < next.capacity by rw [hcapacity]; exact hcut.rest) hroom
      refine ⟨filled ++ filled', rest', ?_, ?_⟩
      · rw [List.flatten_cons, ← List.append_assoc]
        rw [show (next.setInput (w.position + bytes.length) rest
          (w.hashed ++ filled.flatten)).capacity = w.capacity from hcapacity] at hcut'
        exact hcut.append hcut'
      · rw [List.map_append, List.foldlM_append, hpushed, ok_bind]
        change writes.foldlM (append codec ewf1 ewf2 batchSize) (next.setInput
          (w.position + bytes.length) rest (w.hashed ++ filled.flatten)) = _
        rw [hrest, foldlM_pushEncoded_setInput, List.flatten_cons, List.length_append,
          List.flatten_append, ← List.append_assoc, ← Nat.add_assoc]
        cases (filled'.map enc).foldlM (pushEncoded codec ewf1 ewf2) next <;> rfl

/-! ## Segments -/

/-- The runs of chunks that become segments; without chunks there is one empty segment. -/
def segmentRuns (perSegment : Nat) (chunks : List EncodedChunk) : List (List EncodedChunk) :=
  if chunks = [] then [[]] else pieces perSegment chunks

/-- Staging the runs in order, the last one by the writer `final` with the final options. -/
def stageRuns (codec : Codec) (ewf1 : Ewf1PayloadEncoders) (ewf2 : Ewf2PayloadEncoders)
    (w final : SequentialWriter) : Nat → List (List EncodedChunk) → Result (List Bytes)
  | _, [] => .ok []
  | number, chunks :: rest => do
    let group ← groupOf chunks
    let segment ← (if rest = [] then final.stageGroup codec ewf1 ewf2 group number true
      else w.stageGroup codec ewf1 ewf2 group number false)
    let segments ← stageRuns codec ewf1 ewf2 w final (number + 1) rest
    return segment :: segments

theorem pushEncoded_of_open {w : SequentialWriter} {encoded : EncodedChunk}
    (hopen : w.current.chunks.length + 1 = w.perSegment →
      w.totalChunks.toNat ≤ w.encodedChunks + 1) :
    w.pushEncoded codec ewf1 ewf2 encoded =
      (w.current.append encoded).map fun current =>
        { w with current, encodedChunks := w.encodedChunks + 1 } := by
  rw [pushEncoded, Group.append]
  cases appendChunk w.current.spool encoded with
  | error e => rfl
  | ok appended =>
    simp only [ok_bind]
    rw [if_neg]
    · rfl
    · rintro ⟨hfull, hmore⟩
      rw [List.length_append, List.length_singleton] at hfull
      have hlast := hopen hfull
      omega

theorem pushEncoded_of_full {w : SequentialWriter} {encoded : EncodedChunk}
    (hfull : w.current.chunks.length + 1 = w.perSegment)
    (hmore : w.encodedChunks + 1 < w.totalChunks.toNat) :
    w.pushEncoded codec ewf1 ewf2 encoded = (do
      let current ← w.current.append encoded
      let segment ← w.stageGroup codec ewf1 ewf2 current (w.segments.length + 1) false
      return { w with
        current := {}
        encodedChunks := w.encodedChunks + 1
        segments := w.segments ++ [segment] }) := by
  rw [pushEncoded, Group.append]
  cases appendChunk w.current.spool encoded with
  | error e => rfl
  | ok appended =>
    simp only [ok_bind]
    rw [if_pos]
    · rfl
    · rw [List.length_append, List.length_singleton]
      exact ⟨hfull, hmore⟩

/-- Chunks that do not complete a group ahead of the last one are only appended. -/
theorem foldlM_pushEncoded_of_open {w : SequentialWriter} {chunks : List EncodedChunk}
    (hopen : ∀ i < chunks.length, w.current.chunks.length + i + 1 = w.perSegment →
      w.totalChunks.toNat ≤ w.encodedChunks + i + 1) :
    chunks.foldlM (pushEncoded codec ewf1 ewf2) w =
      (chunks.foldlM Group.append w.current).map fun current =>
        { w with current, encodedChunks := w.encodedChunks + chunks.length } := by
  induction chunks generalizing w with
  | nil => rfl
  | cons encoded chunks ih =>
    have hfirst := hopen 0 (Nat.zero_lt_succ _)
    rw [List.foldlM_cons, List.foldlM_cons, pushEncoded_of_open (by simpa using hfirst)]
    cases happend : w.current.append encoded with
    | error e => rfl
    | ok current =>
      have hlength := Group.length_append happend
      have hnext := ih (w := { w with current, encodedChunks := w.encodedChunks + 1 })
        fun i hi hfull => by
          have hlater := hopen (i + 1) (Nat.succ_lt_succ hi)
          simp only at hfull ⊢
          omega
      change List.foldlM (pushEncoded codec ewf1 ewf2)
        { w with current, encodedChunks := w.encodedChunks + 1 } chunks = _
      rw [hnext, ok_bind, List.length_cons]
      have hcount : w.encodedChunks + 1 + chunks.length =
          w.encodedChunks + (chunks.length + 1) := by omega
      dsimp only
      rw [hcount]

/-- A full run of chunks is staged as the next segment. -/
theorem foldlM_pushEncoded_run {w : SequentialWriter} {chunks : List EncodedChunk}
    (hfresh : w.current = {}) (hlength : chunks.length = w.perSegment) (hpos : 0 < w.perSegment)
    (hmore : w.encodedChunks + w.perSegment < w.totalChunks.toNat) :
    chunks.foldlM (pushEncoded codec ewf1 ewf2) w = (do
      let group ← groupOf chunks
      let segment ← w.stageGroup codec ewf1 ewf2 group (w.segments.length + 1) false
      return { w with
        current := {}
        encodedChunks := w.encodedChunks + w.perSegment
        segments := w.segments ++ [segment] }) := by
  have hne : chunks ≠ [] := by
    rintro rfl
    rw [List.length_nil] at hlength
    omega
  have hsplit := List.dropLast_append_getLast hne
  have hinit : chunks.dropLast.length + 1 = w.perSegment := by
    rw [List.length_dropLast]
    omega
  generalize chunks.dropLast = front at hsplit hinit
  generalize chunks.getLast hne = encoded at hsplit
  subst hsplit
  have hcurrent : w.current.chunks.length = 0 := by rw [hfresh]; rfl
  rw [foldlM_concat, groupOf, foldlM_concat, foldlM_pushEncoded_of_open, hfresh]
  · cases hgroup : front.foldlM Group.append {} with
    | error e => rfl
    | ok group =>
      have hgroupLength : group.chunks.length = front.length := groupOf_length hgroup
      have hfull : ({ w with
          current := group
          encodedChunks := w.encodedChunks + front.length } : SequentialWriter).pushEncoded codec
            ewf1 ewf2 encoded = _ :=
        pushEncoded_of_full (by simp only; omega) (by simp only; omega)
      refine hfull.trans ?_
      have hcount : w.encodedChunks + front.length + 1 = w.encodedChunks + w.perSegment := by omega
      dsimp only
      rw [hcount, ok_bind]
      rfl
  · intro i hi hfull
    omega

theorem stageRuns_settings {w w' final : SequentialWriter} (h : SameSettings w w')
    (number : Nat) (runs : List (List EncodedChunk)) :
    stageRuns codec ewf1 ewf2 w' final number runs = stageRuns codec ewf1 ewf2 w final number runs := by
  induction runs generalizing number with
  | nil => rfl
  | cons chunks rest ih =>
    simp only [stageRuns, stageGroup_settings h, ih]

/-- Pushing the last chunks and staging what they leave stages their runs. -/
theorem foldlM_pushEncoded_stage (codec : Codec) (ewf1 : Ewf1PayloadEncoders)
    (ewf2 : Ewf2PayloadEncoders) {w : SequentialWriter} (final : SequentialWriter)
    (chunks : List EncodedChunk) (hfresh : w.current = {}) (hpos : 0 < w.perSegment)
    (hcount : w.encodedChunks + chunks.length = w.totalChunks.toNat) :
    (do
      let next ← chunks.foldlM (pushEncoded codec ewf1 ewf2) w
      let segment ← final.stageGroup codec ewf1 ewf2 next.current (next.segments.length + 1) true
      return next.segments ++ [segment]) =
    (stageRuns codec ewf1 ewf2 w final (w.segments.length + 1)
      (segmentRuns w.perSegment chunks)).map (w.segments ++ ·) := by
  induction hn : chunks.length using Nat.strongRecOn generalizing w chunks with
  | ind n ih =>
    by_cases hlast : chunks.length ≤ w.perSegment
    · have hruns : segmentRuns w.perSegment chunks = [chunks] := by
        rw [segmentRuns]
        by_cases hnil : chunks = []
        · rw [if_pos hnil, hnil]
        · rw [if_neg hnil, pieces_of_length_le hnil hlast]
      have hcurrent : w.current.chunks.length = 0 := by rw [hfresh]; rfl
      rw [foldlM_pushEncoded_of_open fun i hi hfull => by omega, hruns, stageRuns, stageRuns,
        hfresh]
      change ((groupOf chunks).map _ >>= _) = _
      cases groupOf chunks with
      | error e => rfl
      | ok group =>
        simp only [Except.map, ok_bind, if_true]
        cases final.stageGroup codec ewf1 ewf2 group (w.segments.length + 1) true <;> rfl
    · have hlength : (chunks.take w.perSegment).length = w.perSegment := by
        rw [List.length_take]
        omega
      have hdrop : (chunks.drop w.perSegment).length = n - w.perSegment := by
        rw [List.length_drop, hn]
      have hne : chunks.drop w.perSegment ≠ [] := by
        intro hnil
        rw [hnil, List.length_nil] at hdrop
        omega
      have hruns : segmentRuns w.perSegment chunks =
          chunks.take w.perSegment :: segmentRuns w.perSegment (chunks.drop w.perSegment) := by
        have hchunks : chunks ≠ [] := by
          rintro rfl
          simp at hlast
        rw [segmentRuns, if_neg hchunks, segmentRuns, if_neg hne, pieces_of_ne_nil hpos hchunks]
      have hothers : segmentRuns w.perSegment (chunks.drop w.perSegment) ≠ [] := by
        rw [segmentRuns, if_neg hne, pieces_of_ne_nil hpos hne]
        exact List.cons_ne_nil _ _
      have hmore : w.encodedChunks + w.perSegment < w.totalChunks.toNat := by omega
      conv_lhs => rw [← List.take_append_drop w.perSegment chunks, List.foldlM_append]
      rw [foldlM_pushEncoded_run hfresh hlength hpos hmore, hruns, stageRuns]
      simp only [if_neg hothers]
      cases groupOf (chunks.take w.perSegment) with
      | error e => rfl
      | ok group =>
        simp only [ok_bind]
        cases w.stageGroup codec ewf1 ewf2 group (w.segments.length + 1) false with
        | error e => rfl
        | ok segment =>
          have hsame : SameSettings w { w with
              current := {}
              encodedChunks := w.encodedChunks + w.perSegment
              segments := w.segments ++ [segment] } := ⟨rfl, rfl, rfl, rfl, rfl, rfl, rfl, rfl⟩
          have hleft : w.encodedChunks + w.perSegment + (chunks.drop w.perSegment).length =
              w.totalChunks.toNat := by omega
          have hnext := ih _ (show n - w.perSegment < n by omega) (w := { w with
              current := {}
              encodedChunks := w.encodedChunks + w.perSegment
              segments := w.segments ++ [segment] }) (chunks.drop w.perSegment) rfl hpos hleft hdrop
          rw [stageRuns_settings hsame] at hnext
          refine hnext.trans ?_
          simp only [List.length_append, List.length_singleton, ok_bind]
          cases stageRuns codec ewf1 ewf2 w final (w.segments.length + 1 + 1)
              (segmentRuns w.perSegment (chunks.drop w.perSegment)) with
          | error e => rfl
          | ok segments => simp [Except.map]

/-! ## New writers -/

theorem searchChunkLimit_spec {encoders : Ewf1PayloadEncoders} {sizing : WriteOptions}
    {encodedChunkSize maximumSize fuel low high count : Nat} (hle : low ≤ high)
    (hfuel : high ≤ low + fuel)
    (h : searchChunkLimit encoders sizing encodedChunkSize maximumSize fuel low high = .ok count) :
    low ≤ count ∧ count ≤ high ∧
      (count = low ∨ ∃ estimate, estimatedEwf1SegmentSize encoders count
        (encodedChunkSize * count) 1 sizing = .ok estimate ∧ estimate ≤ maximumSize) ∧
      (count = high ∨ ∃ estimate, estimatedEwf1SegmentSize encoders (count + 1)
        (encodedChunkSize * (count + 1)) 1 sizing = .ok estimate ∧ maximumSize < estimate) := by
  induction fuel generalizing low high with
  | zero =>
    cases h
    exact ⟨Nat.le_refl _, hle, .inl rfl, .inl (by omega)⟩
  | succ fuel ih =>
    rw [searchChunkLimit] at h
    by_cases hlt : low < high
    · rw [if_pos hlt] at h
      simp only [bind_eq_ok, okOr_eq_ok, checkedMul_eq_some] at h
      obtain ⟨_, ⟨_, rfl⟩, estimate, hestimate, h⟩ := h
      have hhalf : 1 ≤ divCeil (high - low) 2 ∧ divCeil (high - low) 2 ≤ high - low := by
        unfold divCeil
        split <;> omega
      generalize divCeil (high - low) 2 = half at hhalf hestimate h
      have hbound : low + half ≤ high := by omega
      have hnext : low + half - 1 + 1 = low + half := by omega
      split at h
      · rename_i hfits
        obtain ⟨hge, hcount, hlow, hhigh⟩ := ih hbound (by omega) h
        refine ⟨Nat.le_trans (Nat.le_add_right low half) hge, hcount, .inr ?_, hhigh⟩
        rcases hlow with rfl | hlow
        · exact ⟨estimate, hestimate, hfits⟩
        · exact hlow
      · rename_i hexceeds
        obtain ⟨hge, hcount, hlow, hhigh⟩ := ih (by omega) (by omega) h
        refine ⟨hge, Nat.le_trans hcount (Nat.le_trans (Nat.sub_le _ _) hbound), hlow, .inr ?_⟩
        rcases hhigh with rfl | hhigh
        · rw [hnext]
          exact ⟨estimate, hestimate, Nat.lt_of_not_le hexceeds⟩
        · exact hhigh
    · rw [if_neg hlt] at h
      cases h
      exact ⟨Nat.le_refl _, hle, .inl rfl, .inl (by omega)⟩

/-- The settings that a new writer has. -/
structure Created (encoders : Ewf1PayloadEncoders) (settings : SequentialOptions)
    (w : SequentialWriter) : Prop where
  fresh : w = {
    options := settings.write
    sourceSize := settings.sourceSize
    logicalSize := w.logicalSize
    chunkSize := w.chunkSize
    capacity := w.chunkSize
    perSegment := w.perSegment
    totalChunks := w.totalChunks }
  valid : validateOptions settings.write = .ok ()
  format : isEwf2Format settings.write.format = false → settings.write.format = .ewf1Physical
  chunkSize : w.chunkSize =
    settings.write.sectorsPerChunk.toNat * settings.write.bytesPerSector.toNat
  logicalSize : w.logicalSize = (settings.sourceSize + (settings.write.bytesPerSector.toNat - 1)) /
    settings.write.bytesPerSector.toNat * settings.write.bytesPerSector.toNat
  mediaSize : (normalizeMediaSize settings.write.mediaSize).all (· = w.logicalSize)
  totalChunks : w.totalChunks.toNat = divCeil w.logicalSize w.chunkSize
  requested : 0 < settings.chunksPerSegment.toNat
  perSegment : segmentChunkLimit encoders settings.write w.chunkSize settings.chunksPerSegment =
    .ok w.perSegment

theorem create_spec {encoders : Ewf1PayloadEncoders} {settings : SequentialOptions}
    {w : SequentialWriter} (h : create encoders settings = .ok w) : Created encoders settings w := by
  simp only [create, bind_eq_ok, rejectIf_eq_ok, okOr_eq_ok, Option.map_eq_some_iff,
    checkedAdd_eq_some, pure_eq_ok, Except.ok.injEq] at h
  obtain ⟨_, hvalid, _, hformat, ⟨chunkSize, capacity⟩, hgeometry, _, hcapacity, logicalSize,
    ⟨_, ⟨_, rfl⟩, hlogical⟩, _, hmedia, _, htotal, _, _, _, _, perSegment, hlimit, rfl⟩ := h
  obtain ⟨rfl, rfl⟩ := Prod.mk.inj (writerChunkGeometry_eq_ok hgeometry)
  refine ⟨rfl, hvalid, fun hewf1 => ?_, rfl, hlogical.symm, ?_, ?_, ?_, hlimit⟩
  · by_contra hother
    exact hformat (.inl (by simp [hewf1, hother]))
  · cases hsize : normalizeMediaSize settings.write.mediaSize with
    | none => rfl
    | some size =>
      rw [hsize] at hmedia
      simpa using hmedia
  · dsimp only at htotal ⊢
    rw [UInt32.toNat_ofNat']
    exact Nat.mod_eq_of_lt (Nat.lt_of_not_le htotal)
  · exact toNat_pos_of_ne_zero fun hzero => hcapacity (.inr (.inl hzero))

variable {settings : SequentialOptions} {w : SequentialWriter}

/-- A source with the zeros that fill its last sector. -/
def paddedSource (w : SequentialWriter) (source : Bytes) : Bytes :=
  source ++ List.replicate (w.logicalSize - w.sourceSize) 0

/-- A whole run: the calls of `write_all` and `finish`. -/
def run (codec : Codec) (ewf1 : Ewf1PayloadEncoders) (ewf2 : Ewf2PayloadEncoders)
    (digests : Digests) (batchSize : Nat) (w : SequentialWriter) (writes : List Bytes) :
    Result SequentialResult := do
  let w ← writes.foldlM (append codec ewf1 ewf2 batchSize) w
  w.finish codec ewf1 ewf2 digests

theorem Created.encodeOne_total (codec : Codec) (h : Created ewf1 settings w) (chunk : Bytes) :
    ∃ encoded, w.encodeOne codec chunk = .ok encoded := by
  have hvalid := h.valid
  simp only [validateOptions, bind_eq_ok, rejectIf_eq_ok] at hvalid
  obtain ⟨_, _, _, _, _, _, _, _, _, _, _, hlevel, _⟩ := hvalid
  have hoptions : w.options = settings.write := by rw [h.fresh]
  rw [encodeOne, hoptions]
  exact encodeChunk_total hlevel ..

theorem Created.sectors (h : Created ewf1 settings w) :
    0 < settings.write.bytesPerSector.toNat ∧ 0 < settings.write.sectorsPerChunk.toNat := by
  have hsound := sound_of_validateOptions h.valid
  exact ⟨hsound.bytesPerSector, hsound.sectorsPerChunk⟩

theorem Created.sourceSize_le (h : Created ewf1 settings w) :
    settings.sourceSize ≤ w.logicalSize := by
  obtain ⟨hsector, -⟩ := h.sectors
  rw [h.logicalSize]
  generalize settings.write.bytesPerSector.toNat = sector at hsector
  have hdiv := Nat.div_add_mod (settings.sourceSize + (sector - 1)) sector
  have hmod := Nat.mod_lt (settings.sourceSize + (sector - 1)) hsector
  rw [Nat.mul_comm] at hdiv
  omega

/-- The last sector is filled inside the last chunk. -/
theorem Created.logicalSize_le (h : Created ewf1 settings w) {filled : Nat}
    (hlt : settings.sourceSize < (filled + 1) * w.chunkSize) :
    w.logicalSize ≤ (filled + 1) * w.chunkSize := by
  obtain ⟨hsector, -⟩ := h.sectors
  rw [h.logicalSize]
  rw [h.chunkSize, ← Nat.mul_assoc] at hlt ⊢
  generalize settings.write.bytesPerSector.toNat = sector at hsector hlt
  refine Nat.mul_le_mul_right sector ?_
  refine Nat.le_of_lt_succ (Nat.div_lt_of_lt_mul ?_)
  rw [Nat.mul_succ, Nat.mul_comm]
  omega

theorem effectiveWriteHashes_total {options : WriteOptions} (h : validateOptions options = .ok ())
    (md5 sha1 sha256 : Bytes) :
    ∃ hashes, effectiveWriteHashes options.hashes md5 sha1 sha256 = .ok hashes := by
  simp only [validateOptions, bind_eq_ok] at h
  obtain ⟨hashes, hhashes, -⟩ := h
  rw [effectiveWriteHashes, hhashes]
  exact ⟨_, rfl⟩

/-- The pieces of the padded source are the filled ones and the padded rest. -/
theorem Created.pieces_padded (h : Created ewf1 settings w) {source rest : Bytes}
    {filled : List Bytes} (hsize : source.length = settings.sourceSize)
    (hcut : Cut w.chunkSize source filled rest) :
    pieces w.chunkSize (w.paddedSource source) =
        filled ++ (if rest ++ List.replicate (w.logicalSize - w.sourceSize) 0 = [] then []
          else [rest ++ List.replicate (w.logicalSize - w.sourceSize) 0]) ∧
      (pieces w.chunkSize (w.paddedSource source)).length = w.totalChunks.toNat := by
  have hsource : w.sourceSize = settings.sourceSize := by rw [h.fresh]
  have hpos : 0 < w.chunkSize := Nat.zero_lt_of_lt hcut.rest
  have hlength := hcut.length_filled
  rw [hsize] at hlength
  have hle := h.sourceSize_le
  have hlogical : w.logicalSize ≤ (filled.length + 1) * w.chunkSize := by
    refine h.logicalSize_le ?_
    rw [hlength, Nat.add_mul, Nat.one_mul]
    have hrest := hcut.rest
    omega
  rw [Nat.add_mul, Nat.one_mul] at hlogical
  generalize hlast : rest ++ List.replicate (w.logicalSize - w.sourceSize) 0 = last
  have hlastLength : last.length = w.logicalSize - filled.length * w.chunkSize := by
    rw [← hlast, List.length_append, List.length_replicate, hsource]
    omega
  have hpieces : pieces w.chunkSize (w.paddedSource source) =
      filled ++ if last = [] then [] else [last] := by
    have hsplit : w.paddedSource source = filled.flatten ++ last := by
      rw [paddedSource, hcut.split, List.append_assoc, hlast]
    rw [hsplit]
    exact pieces_flatten_append hpos hcut.filled (by omega)
  refine ⟨hpieces, ?_⟩
  rw [hpieces, h.totalChunks, List.length_append]
  have hsum : w.logicalSize = last.length + filled.length * w.chunkSize := by omega
  by_cases hnil : last = []
  · have hzero : last.length = 0 := by rw [hnil]; rfl
    rw [if_pos hnil, hsum, hzero, Nat.zero_add, divCeil, if_pos (Nat.mul_mod_left _ _),
      Nat.mul_div_cancel _ hpos]
    rfl
  · have hne : 0 < last.length := List.length_pos_iff.mpr hnil
    rw [if_neg hnil, List.length_singleton, hsum, divCeil]
    by_cases hfull : last.length = w.chunkSize
    · rw [hfull, Nat.add_mul_mod_self_right, Nat.mod_self, if_pos rfl,
        Nat.add_mul_div_right _ _ hpos, Nat.div_self hpos, Nat.add_comm]
    · have hlt : last.length < w.chunkSize := by omega
      rw [Nat.add_mul_mod_self_right, Nat.mod_eq_of_lt hlt, if_neg (by omega),
        Nat.add_mul_div_right _ _ hpos, Nat.div_eq_of_lt hlt, Nat.zero_add]

theorem Created.perSegment_bounds (h : Created ewf1 settings w) :
    0 < w.perSegment ∧ w.perSegment ≤ settings.chunksPerSegment.toNat := by
  have hlimit := h.perSegment
  have hrequested := h.requested
  unfold segmentChunkLimit at hlimit
  split at hlimit
  · rw [← Except.ok.inj hlimit]
    exact ⟨hrequested, Nat.le_refl _⟩
  · simp only [bind_eq_ok] at hlimit
    obtain ⟨_, _, sizing, _, encodedChunkSize, _, hsearch⟩ := hlimit
    have hspec := searchChunkLimit_spec hrequested (Nat.le_add_left _ _) hsearch
    exact ⟨hspec.1, hspec.2.1⟩

/-- What `finish` returns with these segments for this media. -/
def resultFor (digests : Digests) (w : SequentialWriter) (media : Bytes) (segments : List Bytes) :
    SequentialResult where
  segments := segments
  logicalSize := w.logicalSize
  chunkSize := w.chunkSize
  chunkCount := w.totalChunks.toNat
  computedSha256 := digests.sha256 media

/-- The writer with the final hashes in its options. -/
def withHashes (w : SequentialWriter) (hashes : WriteHashes) : SequentialWriter :=
  { w with options := { w.options with hashes } }

/-- `finish` behind the last call: the pending bytes are the last chunk. -/
theorem finish_setInput (ewf1 : Ewf1PayloadEncoders) (ewf2 : Ewf2PayloadEncoders) {enc : Bytes → EncodedChunk} {next : SequentialWriter}
    {rest hashed : Bytes} {hashes : WriteHashes} {last : List Bytes}
    (hpoisoned : next.poisoned = false)
    (henc : ∀ chunk, next.encodeOne codec chunk = .ok (enc chunk))
    (hlast : last = if rest ++ List.replicate (next.logicalSize - next.sourceSize) 0 = [] then []
      else [rest ++ List.replicate (next.logicalSize - next.sourceSize) 0])
    (hhashes : effectiveWriteHashes next.options.hashes (digests.md5 (hashed ++ last.flatten))
      (digests.sha1 (hashed ++ last.flatten)) (digests.sha256 (hashed ++ last.flatten)) =
        .ok hashes) :
    (next.setInput next.sourceSize rest hashed).finish codec ewf1 ewf2 digests = (do
      let done ← (last.map enc).foldlM (pushEncoded codec ewf1 ewf2) next
      let segment ← (next.withHashes hashes).stageGroup codec ewf1 ewf2 done.current
        (done.segments.length + 1) true
      return next.resultFor digests (hashed ++ last.flatten) (done.segments ++ [segment])) := by
  rw [finish, rejectIf_neg _ (by simp [setInput, hpoisoned]), ok_bind,
    rejectIf_neg _ (by simp [setInput]), ok_bind]
  change (do
    let w ← (if rest ++ List.replicate (next.logicalSize - next.sourceSize) 0 ≠ [] then
      (next.setInput next.sourceSize [] hashed).encodeBatch codec ewf1 ewf2
        [rest ++ List.replicate (next.logicalSize - next.sourceSize) 0]
      else Except.ok (next.setInput next.sourceSize rest hashed))
    _) = _
  by_cases hnil : rest ++ List.replicate (next.logicalSize - next.sourceSize) 0 = []
  · rw [if_pos hnil] at hlast
    subst hlast
    rw [if_neg (by simpa using hnil), ok_bind]
    simp only [List.flatten_nil, List.append_nil] at hhashes
    simp only [List.map_nil, List.foldlM_nil, pure_eq_ok, ok_bind, List.flatten_nil,
      List.append_nil]
    change (effectiveWriteHashes next.options.hashes (digests.md5 hashed) (digests.sha1 hashed)
      (digests.sha256 hashed) >>= _) = _
    rw [hhashes]
    rfl
  · rw [if_neg hnil] at hlast
    generalize rest ++ List.replicate (next.logicalSize - next.sourceSize) 0 = pending at *
    subst hlast
    have hsettings : ∀ chunk, (next.setInput next.sourceSize [] hashed).encodeOne codec chunk =
        .ok (enc chunk) := henc
    rw [if_pos hnil, encodeBatch_eq hsettings, foldlM_pushEncoded_setInput]
    cases hpushed : ([pending].map enc).foldlM (pushEncoded codec ewf1 ewf2) next with
    | error e => rfl
    | ok done =>
      have hsame := foldlM_pushEncoded_settings hpushed
      have hoptions : done.options = next.options := hsame.options
      simp only [Except.map, ok_bind, setInput]
      rw [hoptions, hhashes, ok_bind]
      have hstage : SameSettings (next.withHashes hashes) { done with
          position := next.sourceSize
          pending := []
          hashed := hashed ++ [pending].flatten
          options := { next.options with hashes } } :=
        ⟨rfl, hsame.sourceSize, hsame.logicalSize, hsame.chunkSize, hsame.capacity,
          hsame.perSegment, hsame.totalChunks, hsame.poisoned⟩
      rw [stageGroup_settings hstage, hsame.logicalSize, hsame.chunkSize, hsame.totalChunks]
      rfl

/-- However the source is cut into calls and the calls into batches, a run stages the runs of the
encoded pieces of the padded source. -/
theorem run_eq {writes : List Bytes} (h : Created ewf1 settings w) (hbatch : 0 < batchSize)
    (hsize : writes.flatten.length = settings.sourceSize) :
    ∃ encoded hashes,
      (pieces w.chunkSize (w.paddedSource writes.flatten)).mapM (w.encodeOne codec) = .ok encoded ∧
      encoded.length = w.totalChunks.toNat ∧
      effectiveWriteHashes w.options.hashes (digests.md5 (w.paddedSource writes.flatten))
        (digests.sha1 (w.paddedSource writes.flatten))
        (digests.sha256 (w.paddedSource writes.flatten)) = .ok hashes ∧
      run codec ewf1 ewf2 digests batchSize w writes =
        (stageRuns codec ewf1 ewf2 w (w.withHashes hashes) 1 (segmentRuns w.perSegment encoded)).map
          (w.resultFor digests (w.paddedSource writes.flatten)) := by
  choose enc henc using h.encodeOne_total codec
  have hfresh := h.fresh
  have hpending : w.pending = [] := by rw [hfresh]
  have hhashed : w.hashed = [] := by rw [hfresh]
  have hposition : w.position = 0 := by rw [hfresh]
  have hcurrent : w.current = {} := by rw [hfresh]
  have hsegments : w.segments = [] := by rw [hfresh]
  have hcount : w.encodedChunks = 0 := by rw [hfresh]
  have hpoisoned : w.poisoned = false := by rw [hfresh]
  have hsource : w.sourceSize = settings.sourceSize := by rw [hfresh]
  have hcapacity : w.capacity = w.chunkSize := by rw [hfresh]
  have hoptions : w.options = settings.write := by rw [hfresh]
  have hpos : 0 < w.chunkSize := by
    obtain ⟨hbps, hspc⟩ := h.sectors
    rw [h.chunkSize]
    exact Nat.mul_pos hspc hbps
  obtain ⟨filled, rest, hcut, hwrites⟩ := foldlM_append_spec ewf1 ewf2 w writes henc hbatch
    (by rw [hpending, hcapacity]; exact hpos) (by rw [hposition, hsource]; omega)
  rw [hpending, List.nil_append, hcapacity] at hcut
  obtain ⟨hpieces, hlength⟩ := h.pieces_padded hsize hcut
  generalize hlast : (if rest ++ List.replicate (w.logicalSize - w.sourceSize) 0 = [] then []
    else [rest ++ List.replicate (w.logicalSize - w.sourceSize) 0]) = last at hpieces
  have hflatten : filled.flatten ++ last.flatten = w.paddedSource writes.flatten := by
    rw [← List.flatten_append, ← hpieces, flatten_pieces hpos]
  obtain ⟨hashes, hhashes⟩ := effectiveWriteHashes_total h.valid
    (digests.md5 (w.paddedSource writes.flatten)) (digests.sha1 (w.paddedSource writes.flatten))
    (digests.sha256 (w.paddedSource writes.flatten))
  rw [← hoptions] at hhashes
  refine ⟨(filled ++ last).map enc, hashes, ?_, ?_, hhashes, ?_⟩
  · rw [hpieces, funext henc]
    exact List.mapM_pure
  · rw [List.length_map, ← hpieces, hlength]
  have hstage := foldlM_pushEncoded_stage codec ewf1 ewf2 (w.withHashes hashes)
    ((filled ++ last).map enc) hcurrent h.perSegment_bounds.1 (by rw [hcount, List.length_map, ← hpieces, hlength, Nat.zero_add])
  have hruns : stageRuns codec ewf1 ewf2 w (w.withHashes hashes) 1
      (segmentRuns w.perSegment ((filled ++ last).map enc)) = (do
        let next ← (filled.map enc).foldlM (pushEncoded codec ewf1 ewf2) w
        let next ← (last.map enc).foldlM (pushEncoded codec ewf1 ewf2) next
        let segment ← (w.withHashes hashes).stageGroup codec ewf1 ewf2 next.current
          (next.segments.length + 1) true
        return next.segments ++ [segment]) := by
    rw [hsegments, List.length_nil, Nat.zero_add] at hstage
    rw [← bind_assoc, ← List.foldlM_append, ← List.map_append, hstage]
    cases stageRuns codec ewf1 ewf2 w (w.withHashes hashes) 1
      (segmentRuns w.perSegment ((filled ++ last).map enc)) <;> rfl
  rw [hruns, run, hwrites, hposition, hhashed, List.nil_append, Nat.zero_add, hsize, ← hsource]
  cases hpushed : (filled.map enc).foldlM (pushEncoded codec ewf1 ewf2) w with
  | error e => rfl
  | ok next =>
    have hsame := foldlM_pushEncoded_settings hpushed
    have hfinish := finish_setInput ewf1 ewf2 (hsame.poisoned.trans hpoisoned)
      (fun chunk => (encodeOne_settings hsame chunk).trans (henc chunk))
      (by rw [hsame.logicalSize, hsame.sourceSize, hlast])
      (by rw [hsame.options, hflatten, hhashes])
    have hfinal : SameSettings (w.withHashes hashes) (next.withHashes hashes) :=
      ⟨by rw [withHashes, withHashes, hsame.options], hsame.sourceSize, hsame.logicalSize,
        hsame.chunkSize, hsame.capacity, hsame.perSegment, hsame.totalChunks, hsame.poisoned⟩
    have hresult : next.resultFor digests (w.paddedSource writes.flatten) =
        w.resultFor digests (w.paddedSource writes.flatten) := by
      funext segments
      rw [resultFor, resultFor, hsame.logicalSize, hsame.chunkSize, hsame.totalChunks]
    rw [hsame.sourceSize, hflatten, hresult] at hfinish
    simp only [stageGroup_settings hfinal] at hfinish
    refine Eq.trans hfinish ?_
    rw [ok_bind]
    cases (last.map enc).foldlM (pushEncoded codec ewf1 ewf2) next with
    | error e => rfl
    | ok done =>
      rw [ok_bind, ok_bind]
      cases (w.withHashes hashes).stageGroup codec ewf1 ewf2 done.current
        (done.segments.length + 1) true <;> rfl

end SequentialWriter

end EwfImage
