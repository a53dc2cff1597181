import EwfImage.Lib.Decimal
import EwfImage.Reading.RecoveryPlan

/-!
# Recovery bundles

A recovery writes its output and, for each chunk, a row of a map that binds the bytes to their
provenance. Either output can fail or take only a part of what it is given, and the recovery
can be cancelled; the rows never run ahead of the data.

The main result is `stream_maps`, about every plan, both outputs with any answers to their
writes, and any stop signals. At the end of a run, however it came about, the complete lines of
the map are the rows of the first chunks; they tile the mapped bytes, and the raw output has
taken at least these. A run that succeeds has mapped the media, and its report counts and
records just these rows. `stream_maps_short` is a run over three chunks, one of them lost, with
outputs that take little at a time. An output is what its `write` answers, so short writes,
interruptions and failures are lists of answers; the digest of an output is the list of bytes it
was given. The header row of the map and the publication of the files are left out.
-/

namespace EwfImage.Cli

open Ewf1 Fallible Reading Tiling Triples

/-! ## Outputs -/

/-- An output, with what each `write` gives: the number of bytes that it takes at most. An output
without a further answer fails. -/
structure Output where
  accepted : Bytes := []
  answers : List (Except IoErrorKind Nat)

def Output.write (output : Output) (bytes : Bytes) : Except IoErrorKind Nat × Output :=
  match output.answers with
  | [] => (.error .other, output)
  | .error e :: answers => (.error e, { output with answers })
  | .ok most :: answers =>
    let count := min most bytes.length
    (.ok count, { accepted := output.accepted ++ bytes.take count, answers })

/-- `flush` -/
def Output.flush (output : Output) : Except IoErrorKind Unit × Output :=
  match output.answers with
  | .error e :: answers => (.error e, { output with answers })
  | _ => (.ok (), output)

structure HashedWriter where
  inner : Output
  bytes : Nat := 0
  hash : Bytes := []

namespace HashedWriter

def write (writer : HashedWriter) (bytes : Bytes) : Except IoErrorKind Nat × HashedWriter :=
  match writer.inner.write bytes with
  | (.error e, inner) => (.error e, { writer with inner })
  | (.ok count, inner) => (.ok count, {
      inner
      bytes := writer.bytes + count
      hash := writer.hash ++ bytes.take count })

theorem answers_of_write {writer writer' : HashedWriter} {bytes : Bytes}
    {result : Except IoErrorKind Nat} (h : writer.write bytes = (result, writer'))
    (hresult : result ≠ .error .other) :
    writer'.inner.answers.length < writer.inner.answers.length := by
  unfold write Output.write at h
  split at h
  · rename_i e inner hinner
    split at hinner
    · cases hinner
      cases h
      exact (hresult rfl).elim
    · rename_i hanswers
      cases hinner
      cases h
      simp [hanswers]
    · cases hinner
  · rename_i count inner hinner
    split at hinner
    · cases hinner
    · cases hinner
    · rename_i hanswers
      cases hinner
      cases h
      simp [hanswers]

/-- `write_all`: an interrupted `write` is repeated, and one that takes nothing is an error. -/
def writeAll (writer : HashedWriter) (bytes : Bytes) : Except IoErrorKind Unit × HashedWriter :=
  if bytes = [] then (.ok (), writer)
  else match _hwrite : writer.write bytes with
    | (.ok 0, writer) => (.error .writeZero, writer)
    | (.ok (count + 1), writer) => writer.writeAll (bytes.drop (count + 1))
    | (.error .interrupted, writer) => writer.writeAll bytes
    | (.error e, writer) => (.error e, writer)
termination_by writer.inner.answers.length
decreasing_by
  · exact answers_of_write _hwrite fun h => by cases h
  · exact answers_of_write _hwrite fun h => by cases h

end HashedWriter

/-! ## The map -/

def newline : UInt8 := 10

def statusName : RecoveryStatus → Bytes
  | .primary => ascii "Primary"
  | .redundant => ascii "Redundant"
  | .suspectPrimary => ascii "SuspectPrimary"
  | .suspectRedundant => ascii "SuspectRedundant"
  | .zeroFilled => ascii "ZeroFilled"

def decimal (n : Nat) : Bytes := (Decimal.digits n).map fun c => UInt8.ofNat c.toNat

/-- The JSON text of a row; an object has its keys in order. -/
def rowText (row : ChunkRow) : Bytes :=
  ascii "\x7b\"byte_count\":" ++ decimal row.byteCount ++
    ascii ",\"chunk_index\":" ++ decimal row.chunkIndex ++
    ascii ",\"logical_offset\":" ++ decimal row.logicalOffset ++
    ascii ",\"record\":\"chunk\",\"status\":\"" ++ statusName row.status ++ ascii "\"\x7d"

/-- `record` -/
def record (map : HashedWriter) (row : ChunkRow) : Except IoErrorKind Unit × HashedWriter :=
  map.writeAll (rowText row ++ [newline])

/-- The lines of a text that a newline ends. -/
def completeLines (line : Bytes) : Bytes → List Bytes
  | [] => []
  | byte :: rest =>
    if byte = newline then line :: completeLines [] rest else completeLines (line ++ [byte]) rest

/-! ## The stream -/

/-- What `stream` works on: both outputs, its variables, the fields of the report that it sets,
and what the stop flag is at each event. -/
structure Streaming where
  raw : HashedWriter
  map : HashedWriter
  stops : List Bool
  previous : Nat := 0
  mapError : Option IoErrorKind := none
  mappedBytes : Nat := 0
  mappedChunks : Option Nat := none

namespace Streaming

variable (s : Streaming)

/-- `Progress::event` -/
def event : Bool × Streaming :=
  match s.stops with
  | [] => (false, s)
  | stop :: stops => (stop, { s with stops })

/-- The callback of `stream`. -/
def observe (p : RecoveryProgress) : Bool × Streaming :=
  match p.lastStatus with
  | none => s.event
  | some status =>
    match record s.map ⟨p.chunksProcessed - 1, s.previous, p.bytesWritten - s.previous, status⟩ with
    | (.error e, map) => (true, { s with map, mapError := some e })
    | (.ok (), map) => event { s with
        map
        previous := p.bytesWritten
        mappedBytes := p.bytesWritten
        mappedChunks := some p.chunksProcessed }

end Streaming

def writeRaw (bytes : Bytes) : EStateM EwfError Streaming Unit := fun s =>
  match s.raw.writeAll bytes with
  | (.ok (), raw) => .ok () { s with raw }
  | (.error e, raw) => .error (.io e) { s with raw }

def flushRaw : EStateM EwfError Streaming Unit := fun s =>
  match s.raw.inner.flush with
  | (.ok (), inner) => .ok () { s with raw := { s.raw with inner } }
  | (.error e, inner) => .error (.io e) { s with raw := { s.raw with inner } }

inductive StreamError
  | io (kind : IoErrorKind)
  | image (e : EwfError)

def stream (codec : Codec) (recovery : EwfRecovery) (s : Streaming) :
    Except StreamError RecoveryReport × Streaming :=
  match recoverWithProgress codec recovery writeRaw flushRaw (fun p s => s.observe p) s with
  | .ok report s =>
    match s.mapError with
    | some e => (.error (.io e), s)
    | none => (.ok report, s)
  | .error e s =>
    match s.mapError with
    | some e => (.error (.io e), s)
    | none => (.error (.image e), s)

/-! ## What an output has taken -/

namespace HashedWriter

/-- The writer has taken these bytes since, and has counted and hashed them. -/
structure Takes (writer writer' : HashedWriter) (taken : Bytes) : Prop where
  accepted : writer'.inner.accepted = writer.inner.accepted ++ taken
  bytes : writer'.bytes = writer.bytes + taken.length
  hash : writer'.hash = writer.hash ++ taken

variable {writer writer' writer'' : HashedWriter} {taken taken' bytes : Bytes}

theorem Takes.refl (writer : HashedWriter) : writer.Takes writer [] := by
  constructor <;> simp

theorem Takes.trans (h : writer.Takes writer' taken) (h' : writer'.Takes writer'' taken') :
    writer.Takes writer'' (taken ++ taken') := by
  constructor
  · rw [h'.accepted, h.accepted, List.append_assoc]
  · rw [h'.bytes, h.bytes, List.length_append, Nat.add_assoc]
  · rw [h'.hash, h.hash, List.append_assoc]

/-- One `write` takes the first bytes, as many as it says. -/
theorem write_takes {result : Except IoErrorKind Nat}
    (h : writer.write bytes = (result, writer')) :
    (∃ e, result = .error e ∧ writer.Takes writer' []) ∨
      ∃ count, result = .ok count ∧ count ≤ bytes.length ∧
        writer.Takes writer' (bytes.take count) := by
  unfold write Output.write at h
  split at h
  · rename_i e inner hinner
    split at hinner
    · cases hinner
      cases h
      exact .inl ⟨_, rfl, by constructor <;> simp⟩
    · cases hinner
      cases h
      exact .inl ⟨_, rfl, by constructor <;> simp⟩
    · cases hinner
  · rename_i count inner hinner
    split at hinner
    · cases hinner
    · cases hinner
    · cases hinner
      cases h
      exact .inr ⟨_, rfl, Nat.min_le_right _ _, by constructor <;> simp⟩

/-- `write_all` takes everything, or fails with a part of it taken. -/
theorem writeAll_takes {result : Except IoErrorKind Unit}
    (h : writer.writeAll bytes = (result, writer')) :
    (result = .ok () ∧ writer.Takes writer' bytes) ∨
      ∃ e part rest, result = .error e ∧ bytes = part ++ rest ∧ rest ≠ [] ∧
        writer.Takes writer' part := by
  fun_induction writeAll writer bytes generalizing result writer' with
  | case1 writer =>
    cases h
    exact .inl ⟨rfl, Takes.refl _⟩
  | case2 writer bytes hne writer₁ hwrite =>
    cases h
    rcases write_takes hwrite with ⟨_, hresult, _⟩ | ⟨count, hresult, _, htakes⟩
    · cases hresult
    · cases hresult
      exact .inr ⟨_, [], bytes, rfl, rfl, hne, htakes⟩
  | case3 writer bytes hne count writer₁ hwrite ih =>
    rcases write_takes hwrite with ⟨_, hresult, _⟩ | ⟨_, hresult, _, htakes⟩
    · cases hresult
    · cases hresult
      rcases ih h with ⟨hok, hrest⟩ | ⟨e, part, rest, herror, hsplit, hrest, hpart⟩
      · have hall := htakes.trans hrest
        rw [List.take_append_drop] at hall
        exact .inl ⟨hok, hall⟩
      · refine .inr ⟨e, bytes.take (count + 1) ++ part, rest, herror, ?_, hrest,
          htakes.trans hpart⟩
        rw [List.append_assoc, ← hsplit, List.take_append_drop]
  | case4 writer bytes hne writer₁ hwrite ih =>
    rcases write_takes hwrite with ⟨_, hresult, htakes⟩ | ⟨_, hresult, _⟩
    · rcases ih h with ⟨hok, hrest⟩ | ⟨e, part, rest, herror, hsplit, hrest, hpart⟩
      · exact .inl ⟨hok, htakes.trans hrest⟩
      · exact .inr ⟨e, part, rest, herror, hsplit, hrest, htakes.trans hpart⟩
    · cases hresult
  | case5 writer bytes hne e writer₁ _ hwrite =>
    cases h
    rcases write_takes hwrite with ⟨_, hresult, htakes⟩ | ⟨_, hresult, _⟩
    · cases hresult
      exact .inr ⟨_, [], bytes, rfl, rfl, hne, htakes⟩
    · cases hresult

theorem flush_takes {result : Except IoErrorKind Unit} {inner : Output}
    (h : writer.inner.flush = (result, inner)) : writer.Takes { writer with inner } [] := by
  unfold Output.flush at h
  split at h <;> (cases h; constructor <;> simp)

end HashedWriter

/-! ## The rows of a text -/

def rowLine (row : ChunkRow) : Bytes := rowText row ++ [newline]

theorem newline_not_mem_decimal (n : Nat) : newline ∉ decimal n := by
  intro hmem
  obtain ⟨c, hc, heq⟩ := List.mem_map.mp hmem
  have hdigit := Decimal.isDigit_of_mem_padded hc
  simp only [Char.isDigit, Bool.and_eq_true, decide_eq_true_eq, ge_iff_le,
    UInt32.le_iff_toNat_le] at hdigit
  have hbyte := congrArg UInt8.toNat heq
  rw [UInt8.toNat_ofNat'] at hbyte
  have hten : newline.toNat = 10 := rfl
  have hlow : '0'.val.toNat = 48 := rfl
  have hhigh : '9'.val.toNat = 57 := rfl
  have hval : c.val.toNat = c.toNat := rfl
  omega

theorem newline_not_mem_rowText (row : ChunkRow) : newline ∉ rowText row := by
  have hname : newline ∉ statusName row.status := by
    cases row.status <;> decide
  simp only [rowText, List.mem_append, not_or]
  exact ⟨⟨⟨⟨⟨⟨⟨⟨by decide, newline_not_mem_decimal _⟩, by decide⟩,
    newline_not_mem_decimal _⟩, by decide⟩, newline_not_mem_decimal _⟩,
    by decide⟩, hname⟩, by decide⟩

theorem completeLines_append {line part : Bytes} (rest : Bytes) (h : newline ∉ part) :
    completeLines line (part ++ rest) = completeLines (line ++ part) rest := by
  induction part generalizing line with
  | nil => rw [List.nil_append, List.append_nil]
  | cons byte part ih =>
    rw [List.mem_cons, not_or] at h
    rw [List.cons_append, completeLines, if_neg (Ne.symm h.1), ih h.2, List.append_assoc,
      List.singleton_append]

/-- The complete lines of rows and a part of a line behind them are the rows. -/
theorem completeLines_rows (rows : List ChunkRow) {part : Bytes} (h : newline ∉ part) :
    completeLines [] (rows.flatMap rowLine ++ part) = rows.map rowText := by
  induction rows with
  | nil =>
    have hpart := @completeLines_append [] part [] h
    rw [List.append_nil] at hpart
    exact hpart
  | cons row rows ih =>
    rw [List.flatMap_cons, rowLine, List.append_assoc, List.append_assoc,
      completeLines_append _ (newline_not_mem_rowText row), List.singleton_append, List.nil_append,
      completeLines, if_pos rfl, ih, List.map_cons]

/-! ## The rows never run ahead of the data -/

/-- The raw output has taken `data`, and the map the rows of the first chunks and `text`. -/
structure Stands (codec : Codec) (recovery : EwfRecovery) (start s : Streaming) (chunks : Nat)
    (data text : Bytes) : Prop where
  raw : start.raw.Takes s.raw data
  map : start.map.Takes s.map ((recovery.rows codec chunks).flatMap rowLine ++ text)
  previous : s.previous = recovery.written chunks
  mappedBytes : s.mappedBytes = recovery.written chunks

section Stream

variable {codec : Codec} {recovery : EwfRecovery} {start s s' : Streaming} {chunks total : Nat}
  {data text : Bytes}

/-- The stream can go on behind the first chunks. -/
structure Ready (codec : Codec) (recovery : EwfRecovery) (start : Streaming) (chunks data : Nat)
    (s : Streaming) : Prop where
  stands : Stands codec recovery start s chunks (recovery.emitted codec data) []
  healthy : s.mapError = none

/-- The stream has ended behind the first chunks, with a part of a row and of the next data. -/
def Ended (codec : Codec) (recovery : EwfRecovery) (start s : Streaming) : Prop :=
  ∃ chunks data text, Stands codec recovery start s chunks data text ∧ newline ∉ text ∧
    recovery.emitted codec chunks <+: data ∧
    Tiles ChunkRow.logicalOffset ChunkRow.byteCount 0 (recovery.rows codec chunks)
      (recovery.written chunks)

theorem event_stands (h : Stands codec recovery start s chunks data text) :
    Stands codec recovery start s.event.2 chunks data text ∧ s.event.2.mapError = s.mapError := by
  unfold Streaming.event
  split
  · exact ⟨h, rfl⟩
  · exact ⟨⟨h.raw, h.map, h.previous, h.mappedBytes⟩, rfl⟩

theorem emitted_prefix (chunks : Nat) :
    recovery.emitted codec chunks <+: recovery.emitted codec (chunks + 1) := by
  rw [EwfRecovery.emitted_succ]
  exact List.prefix_append _ _

theorem writeRaw_triple
    (htotal : logicalChunkCount recovery.logicalSize recovery.chunkSize = .ok total)
    (hchunks : chunks < total) :
    Triple (Ready codec recovery start chunks chunks) (writeRaw (recovery.chunk codec chunks).1)
      (fun _ => Ready codec recovery start chunks (chunks + 1))
      fun _ s => Ended codec recovery start s := by
  intro s hs
  unfold writeRaw
  cases hwrite : s.raw.writeAll (recovery.chunk codec chunks).1 with
  | mk result raw =>
    rcases HashedWriter.writeAll_takes hwrite with ⟨rfl, htakes⟩ | ⟨e, part, _, rfl, _, _, htakes⟩
    · refine ⟨⟨?_, hs.stands.map, hs.stands.previous, hs.stands.mappedBytes⟩, hs.healthy⟩
      rw [EwfRecovery.emitted_succ]
      exact hs.stands.raw.trans htakes
    · refine ⟨chunks, recovery.emitted codec chunks ++ part, [],
        ⟨hs.stands.raw.trans htakes, hs.stands.map, hs.stands.previous, hs.stands.mappedBytes⟩,
        by simp, List.prefix_append _ _, EwfRecovery.tiles_rows htotal (by omega)⟩

/-- A part of a line that is not the whole line has no newline. -/
theorem newline_not_mem_part {row : ChunkRow} {part rest : Bytes}
    (h : rowText row ++ [newline] = part ++ rest) (hrest : rest ≠ []) : newline ∉ part := by
  obtain ⟨init, last, rfl⟩ := List.eq_nil_or_concat rest |>.resolve_left hrest
  rw [List.concat_eq_append, ← List.append_assoc] at h
  have htext := (List.append_inj' h rfl).1
  intro hmem
  exact newline_not_mem_rowText row (htext ▸ List.mem_append_left init hmem)

theorem notify_triple {σ : Type} {progress : RecoveryProgress → σ → Bool × σ}
    {event : RecoveryProgress} {P : σ → Prop} {Q : Unit → σ → Prop} {E : EwfError → σ → Prop}
    (h : ∀ s, P s → ((progress event s).1 = true → E .aborted (progress event s).2) ∧
      ((progress event s).1 = false → Q () (progress event s).2)) :
    Triple P (notifyRecovery progress event) Q E := by
  unfold notifyRecovery
  refine Triple.bind (Q := fun stopped s => (stopped = true → E .aborted s) ∧
    (stopped = false → Q () s)) (fun s hs => h s hs) fun stopped => ?_
  cases stopped with
  | true => exact triple_throw fun s hs => hs.1 rfl
  | false => exact triple_pure fun s hs => hs.2 rfl

/-- After a complete row, or before the first one, the recovery goes on or is cancelled. -/
theorem event_keeps (h : Ready codec recovery start chunks chunks s)
    (htiles : Tiles ChunkRow.logicalOffset ChunkRow.byteCount 0 (recovery.rows codec chunks)
      (recovery.written chunks)) :
    (s.event.1 = true → Ended codec recovery start s.event.2) ∧
      (s.event.1 = false → Ready codec recovery start chunks chunks s.event.2) := by
  obtain ⟨hstands, herror⟩ := event_stands h.stands
  exact ⟨fun _ => ⟨chunks, _, [], hstands, by simp, List.prefix_refl _, htiles⟩,
    fun _ => ⟨hstands, herror.trans h.healthy⟩⟩

theorem observe_triple
    (htotal : logicalChunkCount recovery.logicalSize recovery.chunkSize = .ok total)
    (hchunks : chunks < total) :
    Triple (Ready codec recovery start chunks (chunks + 1))
      (notifyRecovery (fun p s => s.observe p) (recovery.eventOf codec total (chunks + 1)))
      (fun _ => Ready codec recovery start (chunks + 1) (chunks + 1))
      fun _ s => Ended codec recovery start s := by
  refine notify_triple fun s hs => ?_
  have hrow : (⟨chunks + 1 - 1, s.previous,
      recovery.written chunks + recovery.chunkBytes chunks - s.previous,
      (recovery.chunk codec chunks).2⟩ : ChunkRow) = recovery.row codec chunks := by
    rw [hs.stands.previous, Nat.add_sub_cancel_left, Nat.add_sub_cancel]
    rfl
  rw [EwfRecovery.eventOf_succ]
  unfold Streaming.observe
  dsimp only
  rw [hrow]
  cases hrecord : record s.map (recovery.row codec chunks) with
  | mk result map =>
    rcases HashedWriter.writeAll_takes hrecord with
      ⟨rfl, htakes⟩ | ⟨e, part, rest, rfl, hsplit, hrest, htakes⟩
    · have hmap := hs.stands.map.trans htakes
      rw [List.append_nil] at hmap
      have hwritten := @EwfRecovery.written_succ recovery chunks
      refine event_keeps ⟨⟨hs.stands.raw, ?_, hwritten.symm, hwritten.symm⟩, hs.healthy⟩
        (EwfRecovery.tiles_rows htotal (by omega))
      rw [EwfRecovery.rows_succ, List.flatMap_append, List.flatMap_singleton, List.append_nil]
      exact hmap
    · refine ⟨fun _ => ?_, fun hstop => by cases hstop⟩
      have hmap := hs.stands.map.trans htakes
      rw [List.append_nil] at hmap
      exact ⟨chunks, recovery.emitted codec (chunks + 1), part,
        ⟨hs.stands.raw, hmap, hs.stands.previous, hs.stands.mappedBytes⟩,
        newline_not_mem_part hsplit hrest, emitted_prefix chunks,
        EwfRecovery.tiles_rows htotal (by omega)⟩

theorem flushRaw_triple
    (htotal : logicalChunkCount recovery.logicalSize recovery.chunkSize = .ok total) :
    Triple (Ready codec recovery start total total) flushRaw
      (fun _ => Ready codec recovery start total total)
      fun _ s => Ended codec recovery start s := by
  intro s hs
  unfold flushRaw
  cases hflush : s.raw.inner.flush with
  | mk result inner =>
    have hraw := hs.stands.raw.trans (HashedWriter.flush_takes hflush)
    rw [List.append_nil] at hraw
    cases result with
    | ok =>
      exact ⟨⟨hraw, hs.stands.map, hs.stands.previous, hs.stands.mappedBytes⟩, hs.healthy⟩
    | error e =>
      exact ⟨total, _, [], ⟨hraw, hs.stands.map, hs.stands.previous, hs.stands.mappedBytes⟩,
        by simp, List.prefix_refl _, EwfRecovery.tiles_rows htotal (Nat.le_refl _)⟩

/-- The whole recovery, from outputs at any point. -/
theorem recover_stands (raw map : HashedWriter) (stops : List Bool) :
    Triple (· = ({ raw, map, stops } : Streaming))
      (recoverWithProgress codec recovery writeRaw flushRaw fun p s => s.observe p)
      (fun report s => ∃ total,
        logicalChunkCount recovery.logicalSize recovery.chunkSize = .ok total ∧
        Ready codec recovery { raw, map, stops } total total s ∧
        report = recovery.reportOf codec total total)
      fun _ s => Ended codec recovery { raw, map, stops } s := by
  have hstart : Ready codec recovery { raw, map, stops } 0 0 { raw, map, stops } :=
    ⟨⟨HashedWriter.Takes.refl _, HashedWriter.Takes.refl _,
      EwfRecovery.written_zero.symm, EwfRecovery.written_zero.symm⟩, rfl⟩
  have hnone : Tiles ChunkRow.logicalOffset ChunkRow.byteCount 0 (recovery.rows codec 0)
      (recovery.written 0) := EwfRecovery.written_zero.symm
  have hrun := @recover_triple _ codec recovery writeRaw flushRaw (fun p s => s.observe p)
    (· = ({ raw, map, stops } : Streaming))
    (fun s => ∃ total, logicalChunkCount recovery.logicalSize recovery.chunkSize = .ok total ∧
      Ready codec recovery { raw, map, stops } total total s)
    (fun chunks => Ready codec recovery { raw, map, stops } chunks chunks)
    (fun chunks => Ready codec recovery { raw, map, stops } chunks (chunks + 1))
    (fun _ s => Ended codec recovery { raw, map, stops } s) ?_ ?_
  · refine hrun.imp fun report s hs => ?_
    obtain ⟨⟨total, htotal, hready⟩, total', htotal', hreport⟩ := hs
    rw [htotal] at htotal'
    cases htotal'
    exact ⟨total, htotal, hready, hreport⟩
  · intro e s _ hs
    subst hs
    exact ⟨0, _, [], hstart.stands, by simp, List.prefix_refl _, hnone⟩
  · intro total htotal
    refine ⟨notify_triple fun s hs => ?_, fun id hid => ⟨writeRaw_triple htotal hid,
      observe_triple htotal hid⟩, (flushRaw_triple htotal).imp fun _ s hs => ⟨total, htotal, hs⟩⟩
    subst hs
    rw [EwfRecovery.eventOf_zero]
    exact event_keeps hstart hnone

end Stream

/-- The complete lines of the map are these rows: those of the first chunks, whose indexes count
up from zero. They tile the mapped bytes, which the raw output has taken. -/
structure Maps (codec : Codec) (recovery : EwfRecovery) (raw map : HashedWriter) (s : Streaming)
    (rows : List ChunkRow) : Prop where
  lines : ∃ text, map.Takes s.map text ∧ completeLines [] text = rows.map rowText
  chunks : rows = recovery.rows codec rows.length
  indexes : rows.map ChunkRow.chunkIndex = List.range rows.length
  tiles : Tiles ChunkRow.logicalOffset ChunkRow.byteCount 0 rows s.mappedBytes
  data : ∃ data, raw.Takes s.raw data ∧ recovery.emitted codec rows.length <+: data ∧
    s.mappedBytes ≤ data.length

theorem Ended.maps {codec : Codec} {recovery : EwfRecovery} {raw map : HashedWriter}
    {stops : List Bool} {s : Streaming} (h : Ended codec recovery { raw, map, stops } s) :
    ∃ rows, Maps codec recovery raw map s rows := by
  obtain ⟨chunks, data, text, hstands, hpart, hfront, htiles⟩ := h
  have hlength := @EwfRecovery.length_emitted codec recovery chunks
  refine ⟨recovery.rows codec chunks, ⟨_, hstands.map, completeLines_rows _ hpart⟩, ?_, ?_, ?_,
    data, hstands.raw, ?_, ?_⟩
  · rw [EwfRecovery.length_rows]
  · rw [EwfRecovery.length_rows, EwfRecovery.chunkIndex_rows]
  · rw [hstands.mappedBytes]
    exact htiles
  · rw [EwfRecovery.length_rows]
    exact hfront
  · rw [hstands.mappedBytes, ← hlength]
    exact hfront.length_le

theorem Ready.maps {codec : Codec} {recovery : EwfRecovery} {raw map : HashedWriter}
    {stops : List Bool} {s : Streaming} {total : Nat}
    (htotal : logicalChunkCount recovery.logicalSize recovery.chunkSize = .ok total)
    (h : Ready codec recovery { raw, map, stops } total total s) :
    Maps codec recovery raw map s (recovery.rows codec total) ∧
      s.mappedBytes = recovery.logicalSize := by
  have hmapped := h.stands.mappedBytes
  have hlength := @EwfRecovery.length_emitted codec recovery total
  refine ⟨⟨⟨_, h.stands.map, completeLines_rows _ (by simp)⟩, ?_, ?_, ?_, _, h.stands.raw, ?_, ?_⟩,
    ?_⟩
  · rw [EwfRecovery.length_rows]
  · rw [EwfRecovery.length_rows, EwfRecovery.chunkIndex_rows]
  · rw [hmapped]
    exact EwfRecovery.tiles_rows htotal (Nat.le_refl _)
  · simpa only [EwfRecovery.length_rows] using List.prefix_refl _
  · omega
  · rw [hmapped, EwfRecovery.written_total htotal]

/-- Wherever an output fails or takes only a part, and whenever the recovery is cancelled, the
map covers bytes that the raw output has taken. A recovery that succeeds has mapped the whole
media, and its report counts and records just the rows of the map. -/
theorem stream_maps (codec : Codec) (recovery : EwfRecovery) (raw map : HashedWriter)
    (stops : List Bool) :
    ∃ rows, Maps codec recovery raw map (stream codec recovery { raw, map, stops }).2 rows ∧
      ∀ report, (stream codec recovery { raw, map, stops }).1 = .ok report →
        (stream codec recovery { raw, map, stops }).2.mappedBytes = recovery.logicalSize ∧
        report.logicalSize = recovery.logicalSize ∧ report.chunksTotal = rows.length ∧
        report.Counts rows ∧ report.Records rows := by
  have hrun := @recover_stands codec recovery raw map stops _ rfl
  unfold stream
  cases hresult : recoverWithProgress codec recovery writeRaw flushRaw (fun p s => s.observe p)
      { raw, map, stops } with
  | ok report s =>
    rw [hresult] at hrun
    obtain ⟨total, htotal, hready, hreport⟩ := hrun
    obtain ⟨hmaps, hmapped⟩ := hready.maps htotal
    obtain ⟨hsize, hchunks⟩ := @EwfRecovery.reportOf_media codec recovery total total
    obtain ⟨hcounts, hrecords⟩ := @reportOf_accounts codec recovery total total
    dsimp only
    rw [hready.healthy]
    refine ⟨_, hmaps, fun report' hok => ?_⟩
    cases hok
    rw [hreport, EwfRecovery.length_rows]
    exact ⟨hmapped, hsize, hchunks, hcounts, hrecords⟩
  | error e s =>
    rw [hresult] at hrun
    obtain ⟨rows, hmaps⟩ := Ended.maps hrun
    dsimp only
    cases s.mapError with
    | none => exact ⟨rows, hmaps, fun report hok => by cases hok⟩
    | some kind => exact ⟨rows, hmaps, fun report hok => by cases hok⟩

/-! ## Outputs that take little at a time -/

section Short

/-- A codec without compressed chunks. -/
def rawCodec : Codec where
  zlibEncode := fun _ data => data
  bzip2Encode := fun _ data => data
  zlibDecoder := fun data => ⟨data, none⟩
  bzip2Decoder := fun data => ⟨data, none⟩
  zstdDecoder := fun _ _ => .error "unsupported"

/-- The data is taken one byte at a time at first, with an interruption between them. -/
def shortRaw : HashedWriter where
  inner := { answers := [.ok 1, .error .interrupted, .ok 1, .ok 7, .ok 2] }

/-- The rows are taken in parts. -/
def shortMap : HashedWriter where
  inner := { answers := [.ok 50, .ok 60, .ok 200, .ok 1, .ok 3, .ok 200] }

/-- What is asked of the recovery of the plan. -/
def Succeeds (recovery : EwfRecovery) : Prop :=
  (stream rawCodec recovery { raw := shortRaw, map := shortMap, stops := [] }).1.toOption.any
      (fun report => report.chunksTotal = 3 ∧ report.chunksPrimary = 2 ∧
        report.chunksZeroFilled = 1) = true ∧
    (stream rawCodec recovery { raw := shortRaw, map := shortMap, stops := [] }).2.raw.inner.accepted =
      [1, 2, 3, 4, 0, 0]

instance (recovery : EwfRecovery) : Decidable (Succeeds recovery) :=
  inferInstanceAs (Decidable (_ ∧ _))

theorem stream_maps_short : ∃ recovery report rows,
    openRecovery [twoOfThree] {} = .ok recovery ∧
      (stream rawCodec recovery { raw := shortRaw, map := shortMap, stops := [] }).1 = .ok report ∧
      (stream rawCodec recovery
        { raw := shortRaw, map := shortMap, stops := [] }).2.raw.inner.accepted = [1, 2, 3, 4, 0, 0] ∧
      rows.length = 3 ∧ report.chunksPrimary = 2 ∧ report.chunksZeroFilled = 1 ∧
      Maps rawCodec recovery shortRaw shortMap
        (stream rawCodec recovery { raw := shortRaw, map := shortMap, stops := [] }).2 rows ∧
      report.Counts rows ∧ report.Records rows := by
  have hopens : (openRecovery [twoOfThree] {}).toOption.any
      (fun recovery => decide (Succeeds recovery)) = true := by decide +kernel
  obtain ⟨recovery, hrecovery, hfacts⟩ := (Option.any_eq_true ..).mp hopens
  obtain ⟨hreport, haccepted⟩ := of_decide_eq_true hfacts
  obtain ⟨report, hok, hcounts⟩ := (Option.any_eq_true ..).mp hreport
  obtain ⟨htotal, hprimary, hzero⟩ := of_decide_eq_true hcounts
  obtain ⟨rows, hmaps, hsucceeds⟩ := stream_maps rawCodec recovery shortRaw shortMap []
  obtain ⟨-, -, hrows, haccounts, hrecords⟩ := hsucceeds report (toOption_eq_some.mp hok)
  exact ⟨recovery, report, rows, toOption_eq_some.mp hrecovery, toOption_eq_some.mp hok, haccepted,
    hrows.symm.trans htotal, hprimary, hzero, hmaps, haccounts, hrecords⟩

end Short

end EwfImage.Cli
