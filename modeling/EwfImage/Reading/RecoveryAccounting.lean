import EwfImage.Lib.Tiling
import EwfImage.Reading.Recovery
import Mathlib.Data.List.Forall2
import Mathlib.Tactic.Ring

/-!
# What a recovery reports

The chunks of a recovery are rows: an index, a place, a size and an outcome. The rows tile the
media, the report of a whole recovery counts them, and its ranges are blocks of them.

The main results are `recover_triple`, what a recovery does step by step for any output and
callback, and `reportOf_accounts`, what its report says in the end. The rows are a function of
the plan alone, so a recovery that is stopped has written the first of them.
-/

namespace EwfImage.Reading

open Fallible Tiling Triples

/-- What is known of an emitted chunk. -/
structure ChunkRow where
  chunkIndex : Nat
  logicalOffset : Nat
  byteCount : Nat
  status : RecoveryStatus
  deriving DecidableEq

namespace EwfRecovery

variable (codec : Codec) (recovery : EwfRecovery)

/-- The size of the first chunks together. -/
def written (chunks : Nat) : Nat := min (chunks * recovery.chunkSize) recovery.logicalSize

def chunkBytes (id : Nat) : Nat :=
  min recovery.chunkSize (recovery.logicalSize - recovery.written id)

def chunk (id : Nat) : Bytes × RecoveryStatus :=
  recovery.recoverChunk codec id (recovery.chunkBytes id)

def row (id : Nat) : ChunkRow :=
  ⟨id, recovery.written id, recovery.chunkBytes id, (recovery.chunk codec id).2⟩

/-- The rows of the first chunks. -/
def rows (chunks : Nat) : List ChunkRow := (List.range chunks).map (recovery.row codec)

/-- The bytes of the first chunks. -/
def emitted (chunks : Nat) : Bytes :=
  (List.range chunks).flatMap fun id => (recovery.chunk codec id).1

/-- The event behind the first chunks. -/
def eventOf (total chunks : Nat) : RecoveryProgress where
  chunksProcessed := chunks
  chunksTotal := total
  bytesWritten := recovery.written chunks
  bytesTotal := recovery.logicalSize
  lastStatus := (recovery.rows codec chunks).getLast?.map ChunkRow.status

/-- The report of the first chunks. -/
def reportOf (total chunks : Nat) : RecoveryReport :=
  (recovery.rows codec chunks).foldl
    (fun report row => report.add recovery.options.maximumRecords row.chunkIndex row.logicalOffset
      row.byteCount row.status)
    { logicalSize := recovery.logicalSize
      chunksTotal := total
      notices := recovery.notices
      omittedNotices := recovery.omittedNotices }

variable {codec recovery} {total chunks id : Nat}

/-! ## The rows -/

@[simp] theorem written_zero : recovery.written 0 = 0 := by
  simp [written]

theorem written_succ (id : Nat) :
    recovery.written (id + 1) = recovery.written id + recovery.chunkBytes id := by
  have hmul : (id + 1) * recovery.chunkSize = id * recovery.chunkSize + recovery.chunkSize := by
    ring
  unfold written chunkBytes written
  omega

@[simp] theorem rows_zero : recovery.rows codec 0 = [] := rfl

theorem rows_succ (chunks : Nat) :
    recovery.rows codec (chunks + 1) = recovery.rows codec chunks ++ [recovery.row codec chunks] := by
  simp [rows, List.range_succ]

@[simp] theorem length_rows (chunks : Nat) : (recovery.rows codec chunks).length = chunks := by
  simp [rows]

theorem chunkIndex_rows (chunks : Nat) :
    (recovery.rows codec chunks).map ChunkRow.chunkIndex = List.range chunks := by
  rw [rows, List.map_map]
  exact List.map_id _

theorem emitted_succ (chunks : Nat) : recovery.emitted codec (chunks + 1) =
    recovery.emitted codec chunks ++ (recovery.chunk codec chunks).1 := by
  simp [emitted, List.range_succ]

theorem length_emitted (chunks : Nat) :
    (recovery.emitted codec chunks).length = recovery.written chunks := by
  induction chunks with
  | zero => simp [emitted]
  | succ chunks ih =>
    rw [emitted_succ, List.length_append, ih, written_succ]
    exact congrArg _ (length_recoverChunk chunks _)

theorem eventOf_zero (total : Nat) :
    recovery.eventOf codec total 0 = ⟨0, total, 0, recovery.logicalSize, none⟩ := by
  simp [eventOf]

theorem eventOf_succ (total chunks : Nat) :
    recovery.eventOf codec total (chunks + 1) = { recovery.eventOf codec total chunks with
      chunksProcessed := chunks + 1
      bytesWritten := recovery.written chunks + recovery.chunkBytes chunks
      lastStatus := some (recovery.chunk codec chunks).2 } := by
  simp only [eventOf, written_succ, rows_succ, List.getLast?_append, List.getLast?_singleton,
    Option.some_or, Option.map_some]
  rfl

theorem reportOf_succ (total chunks : Nat) :
    recovery.reportOf codec total (chunks + 1) = (recovery.reportOf codec total chunks).add
      recovery.options.maximumRecords chunks (recovery.written chunks)
      (recovery.chunkBytes chunks) (recovery.chunk codec chunks).2 := by
  simp only [reportOf, rows_succ, List.foldl_append, List.foldl_cons, List.foldl_nil]
  rfl

theorem media_add {report : RecoveryReport} (maximum id offset size : Nat)
    (status : RecoveryStatus) :
    (report.add maximum id offset size status).logicalSize = report.logicalSize ∧
      (report.add maximum id offset size status).chunksTotal = report.chunksTotal := by
  unfold RecoveryReport.add RecoveryReport.addRecord
  split
  · cases status <;> exact ⟨rfl, rfl⟩
  · split <;> (cases status <;> exact ⟨rfl, rfl⟩)

/-- The report of the first chunks is about the whole media. -/
theorem reportOf_media (total chunks : Nat) :
    (recovery.reportOf codec total chunks).logicalSize = recovery.logicalSize ∧
      (recovery.reportOf codec total chunks).chunksTotal = total := by
  induction chunks with
  | zero => exact ⟨rfl, rfl⟩
  | succ chunks ih =>
    have hadd := @media_add (recovery.reportOf codec total chunks)
      recovery.options.maximumRecords chunks (recovery.written chunks)
      (recovery.chunkBytes chunks) (recovery.chunk codec chunks).2
    rw [reportOf_succ, hadd.1, hadd.2]
    exact ih

/-- The chunk count of a recovery. -/
theorem logicalChunkCount_eq_ok
    (h : logicalChunkCount recovery.logicalSize recovery.chunkSize = .ok total) :
    0 < recovery.chunkSize ∧ total = if recovery.logicalSize = 0 then 0
      else (recovery.logicalSize - 1) / recovery.chunkSize + 1 := by
  simp only [logicalChunkCount, bind_eq_ok, rejectIf_eq_ok, pure_eq_ok, Except.ok.injEq] at h
  obtain ⟨_, hsize, htotal⟩ := h
  exact ⟨Nat.pos_of_ne_zero hsize, htotal.symm⟩

theorem written_total
    (h : logicalChunkCount recovery.logicalSize recovery.chunkSize = .ok total) :
    recovery.written total = recovery.logicalSize := by
  obtain ⟨hsize, rfl⟩ := logicalChunkCount_eq_ok h
  unfold written
  by_cases hzero : recovery.logicalSize = 0
  · omega
  · rw [if_neg hzero]
    have hlt := Nat.lt_mul_div_succ (recovery.logicalSize - 1) hsize
    rw [Nat.mul_comm] at hlt
    omega

theorem chunkBytes_pos
    (h : logicalChunkCount recovery.logicalSize recovery.chunkSize = .ok total) (hid : id < total) :
    0 < recovery.chunkBytes id := by
  obtain ⟨hsize, rfl⟩ := logicalChunkCount_eq_ok h
  by_cases hzero : recovery.logicalSize = 0
  · rw [if_pos hzero] at hid
    omega
  · rw [if_neg hzero] at hid
    have hle : id * recovery.chunkSize ≤ recovery.logicalSize - 1 :=
      (Nat.le_div_iff_mul_le hsize).mp (by omega)
    unfold chunkBytes written
    omega

/-- The first rows tile the first bytes of the media. -/
theorem tiles_rows
    (h : logicalChunkCount recovery.logicalSize recovery.chunkSize = .ok total)
    (hchunks : chunks ≤ total) : Tiles ChunkRow.logicalOffset ChunkRow.byteCount 0
      (recovery.rows codec chunks) (recovery.written chunks) := by
  induction chunks with
  | zero => exact written_zero.symm
  | succ chunks ih =>
    rw [rows_succ]
    refine (ih (by omega)).append ⟨rfl, chunkBytes_pos h (by omega), ?_⟩
    exact (written_succ chunks).symm

end EwfRecovery

/-! ## The run -/

section Run

variable {σ : Type} {codec : Codec} {recovery : EwfRecovery}
  {write : Bytes → EStateM EwfError σ Unit} {flush : EStateM EwfError σ Unit}
  {progress : RecoveryProgress → σ → Bool × σ} {P F : σ → Prop} {I W : Nat → σ → Prop}
  {E : EwfError → σ → Prop} {total : Nat}

theorem recoverStep_triple {id : Nat}
    (hwrite : Triple (I id) (write (recovery.chunk codec id).1) (fun _ => W id) E)
    (hnotify : Triple (W id) (notifyRecovery progress (recovery.eventOf codec total (id + 1)))
      (fun _ => I (id + 1)) E) :
    Triple (I id) (recoverStep codec recovery write progress
        (recovery.eventOf codec total id, recovery.reportOf codec total id) id)
      (fun sofar s => I (id + 1) s ∧
        sofar = (recovery.eventOf codec total (id + 1), recovery.reportOf codec total (id + 1)))
      E := by
  unfold recoverStep
  rw [EwfRecovery.eventOf_succ] at hnotify
  rw [EwfRecovery.eventOf_succ, EwfRecovery.reportOf_succ]
  refine Triple.bind hwrite fun _ => Triple.bind hnotify fun _ => ?_
  exact triple_pure fun s hs => ⟨hs, rfl⟩

/-- A recovery whose writes and events keep an invariant of the chunks emitted so far. -/
theorem recover_triple
    (hsize : ∀ e s, logicalChunkCount recovery.logicalSize recovery.chunkSize = .error e →
      P s → E e s)
    (hrun : ∀ total, logicalChunkCount recovery.logicalSize recovery.chunkSize = .ok total →
      Triple P (notifyRecovery progress (recovery.eventOf codec total 0)) (fun _ => I 0) E ∧
      (∀ id, id < total →
        Triple (I id) (write (recovery.chunk codec id).1) (fun _ => W id) E ∧
        Triple (W id) (notifyRecovery progress (recovery.eventOf codec total (id + 1)))
          (fun _ => I (id + 1)) E) ∧
      Triple (I total) flush (fun _ => F) E) :
    Triple P (recoverWithProgress codec recovery write flush progress)
      (fun report s => F s ∧ ∃ total,
        logicalChunkCount recovery.logicalSize recovery.chunkSize = .ok total ∧
          report = recovery.reportOf codec total total) E := by
  unfold recoverWithProgress
  cases htotal : logicalChunkCount recovery.logicalSize recovery.chunkSize with
  | error e => exact triple_throw fun s hs => hsize e s htotal hs
  | ok total =>
    obtain ⟨hfirst, hturn, hflush⟩ := hrun total htotal
    have hloop : ∀ chunks, chunks ≤ total →
        Triple (I 0) ((List.range chunks).foldlM (recoverStep codec recovery write progress)
            (recovery.eventOf codec total 0, recovery.reportOf codec total 0))
          (fun sofar s => I chunks s ∧
            sofar = (recovery.eventOf codec total chunks, recovery.reportOf codec total chunks))
          E := by
      intro chunks hchunks
      induction chunks with
      | zero => exact triple_pure fun s hs => ⟨hs, rfl⟩
      | succ chunks ih =>
        rw [List.range_succ, List.foldlM_append]
        refine Triple.bind (ih (by omega)) fun sofar => ?_
        refine Triple.of_fact (fun hsofar => ?_) fun s hs => hs.2
        subst hsofar
        obtain ⟨hwrite, hnotify⟩ := hturn chunks (by omega)
        rw [List.foldlM_cons]
        simp only [List.foldlM_nil, bind_pure]
        exact (recoverStep_triple hwrite hnotify).of_pre fun s hs => hs.1
    rw [EwfRecovery.eventOf_zero] at hfirst hloop
    refine Triple.bind (Q := fun total' s => P s ∧ total' = total)
      (triple_pure fun s hs => ⟨hs, rfl⟩) fun total' => ?_
    refine Triple.of_fact (fun htotal' => ?_) fun s hs => hs.2
    subst htotal'
    refine Triple.of_pre (P := P) ?_ fun s hs => hs.1
    refine Triple.bind hfirst fun _ => ?_
    refine Triple.bind (hloop total' (Nat.le_refl _)) fun sofar => ?_
    refine Triple.of_fact (fun hsofar => ?_) fun s hs => hs.2
    subst hsofar
    refine Triple.of_pre (P := I total') ?_ fun s hs => hs.1
    refine Triple.bind hflush fun _ => ?_
    exact triple_pure fun s hs => ⟨hs, total', rfl, rfl⟩

end Run

/-! ## The report -/

namespace RecoveryStatus

/-- From the primary table, retained suspect bytes included. -/
def fromPrimary (status : RecoveryStatus) : Bool :=
  status = .primary || status = .suspectPrimary

/-- From the redundant table, retained suspect bytes included. -/
def fromRedundant (status : RecoveryStatus) : Bool :=
  status = .redundant || status = .suspectRedundant

def suspect (status : RecoveryStatus) : Bool :=
  status = .suspectPrimary || status = .suspectRedundant

def filled (status : RecoveryStatus) : Bool := status = .zeroFilled

end RecoveryStatus

/-- How many bytes the rows have. -/
def totalBytes (rows : List ChunkRow) : Nat := (rows.map ChunkRow.byteCount).sum

/-- The range stands for these rows. -/
structure RecoveryRange.Describes (range : RecoveryRange) (block : List ChunkRow) : Prop where
  first : ∃ row rest, block = row :: rest ∧ row.chunkIndex = range.firstChunk ∧
    row.logicalOffset = range.logicalOffset
  count : block.length = range.chunkCount
  bytes : totalBytes block = range.byteCount
  status : ∀ row ∈ block, row.status = range.status

/-- The numbers of the report are those of the rows: how many chunks came from either table, were
filled or are suspect, and how many bytes were recovered and filled. -/
structure RecoveryReport.Counts (report : RecoveryReport) (rows : List ChunkRow) : Prop where
  primary : report.chunksPrimary = rows.countP (·.status.fromPrimary)
  redundant : report.chunksRedundant = rows.countP (·.status.fromRedundant)
  zeroFilled : report.chunksZeroFilled = rows.countP (·.status.filled)
  suspect : report.chunksChecksumSuspect = rows.countP (·.status.suspect)
  bytesRecovered : report.bytesRecovered = totalBytes (rows.filter (!·.status.filled))
  bytesZeroFilled : report.bytesZeroFilled = totalBytes (rows.filter (·.status.filled))

/-- The ranges of the report are blocks of the rows, in their order, up to the omitted ones. -/
def RecoveryReport.Records (report : RecoveryReport) (rows : List ChunkRow) : Prop :=
  report.omittedChunkRecords ≤ rows.length ∧
    ∃ blocks, List.Forall₂ RecoveryRange.Describes report.ranges blocks ∧
      blocks.flatten = rows.take (rows.length - report.omittedChunkRecords)

section Report

variable {report : RecoveryReport} {rows : List ChunkRow} {row : ChunkRow} {maximum : Nat}

theorem totalBytes_append (rows rows' : List ChunkRow) :
    totalBytes (rows ++ rows') = totalBytes rows + totalBytes rows' := by
  simp [totalBytes]

theorem ranges_countStatus (status : RecoveryStatus) (size : Nat) :
    ((report.countStatus status).countBytes status size).ranges = report.ranges ∧
    ((report.countStatus status).countBytes status size).omittedChunkRecords =
      report.omittedChunkRecords := by
  cases status <;> exact ⟨rfl, rfl⟩

theorem Counts.addRecord (h : report.Counts rows) (id offset size : Nat)
    (status : RecoveryStatus) :
    (report.addRecord maximum id offset size status).Counts rows := by
  unfold RecoveryReport.addRecord
  split
  · exact ⟨h.1, h.2, h.3, h.4, h.5, h.6⟩
  · split <;> exact ⟨h.1, h.2, h.3, h.4, h.5, h.6⟩

/-- The numbers of the report count one more row. -/
theorem Counts.add (h : report.Counts rows) (row : ChunkRow) :
    (report.add maximum row.chunkIndex row.logicalOffset row.byteCount row.status).Counts
      (rows ++ [row]) := by
  refine Counts.addRecord ?_ _ _ _ _
  obtain ⟨h1, h2, h3, h4, h5, h6⟩ := h
  cases hstatus : row.status <;> constructor <;>
    simp [RecoveryReport.countStatus, RecoveryReport.countBytes, RecoveryStatus.fromPrimary,
      RecoveryStatus.fromRedundant, RecoveryStatus.filled, RecoveryStatus.suspect, totalBytes,
      List.filter_append, *]

/-- A row of the whole is at the place that its index says. -/
theorem chunkIndex_getElem {i : Nat} (hindex : rows.map ChunkRow.chunkIndex = List.range rows.length)
    (hrow : rows[i]? = some row) : row.chunkIndex = i := by
  have hmap : (rows.map ChunkRow.chunkIndex)[i]? = some row.chunkIndex := by
    rw [List.getElem?_map, hrow, Option.map_some]
  obtain ⟨hlt, _⟩ := List.getElem?_eq_some_iff.mp hrow
  rw [hindex, List.getElem?_range hlt] at hmap
  exact (Option.some.inj hmap).symm

/-- The last block ends where its range says. -/
theorem Describes.stop {range : RecoveryRange} {blocks : List (List ChunkRow)}
    {block : List ChunkRow} {kept : Nat} (h : range.Describes block)
    (hindex : rows.map ChunkRow.chunkIndex = List.range rows.length) (hkept : kept ≤ rows.length)
    (hblocks : (blocks ++ [block]).flatten = rows.take kept) :
    range.firstChunk + range.chunkCount = kept := by
  obtain ⟨row, rest, rfl, hfirst, _⟩ := h.first
  rw [List.flatten_append, List.flatten_singleton] at hblocks
  have hlength := congrArg List.length hblocks
  rw [List.length_append, List.length_take, h.count] at hlength
  have hrow : rows[blocks.flatten.length]? = some row := by
    have hget := congrArg (fun xs => xs[blocks.flatten.length]?) hblocks
    simp only [List.getElem?_append_right (Nat.le_refl _), Nat.sub_self, List.getElem?_cons_zero,
      List.getElem?_take] at hget
    split at hget
    · exact hget.symm
    · cases hget
  have hplace := chunkIndex_getElem hindex hrow
  omega

theorem forall₂_concat_left {α β : Type} {R : α → β → Prop} {xs : List α} {x : α} {zs : List β}
    (h : List.Forall₂ R (xs ++ [x]) zs) :
    ∃ ys y, zs = ys ++ [y] ∧ List.Forall₂ R xs ys ∧ R x y := by
  induction xs generalizing zs with
  | nil =>
    cases h with
    | cons hx hnil =>
      cases hnil
      exact ⟨[], _, rfl, .nil, hx⟩
  | cons a xs ih =>
    cases h with
    | cons ha hrest =>
      obtain ⟨ys, y, rfl, hys, hy⟩ := ih hrest
      exact ⟨_ :: ys, y, rfl, .cons ha hys, hy⟩

/-- A block with one more row. -/
theorem Describes.extend {range : RecoveryRange} {block : List ChunkRow}
    (h : range.Describes block) (hstatus : range.status = row.status) :
    RecoveryRange.Describes { range with
      chunkCount := range.chunkCount + 1
      byteCount := range.byteCount + row.byteCount } (block ++ [row]) := by
  obtain ⟨first, rest, rfl, hfirst⟩ := h.first
  refine ⟨⟨first, rest ++ [row], rfl, hfirst⟩, ?_, ?_, ?_⟩
  · rw [List.length_append, h.count]
    rfl
  · rw [totalBytes_append, h.bytes]
    rfl
  · intro other hother
    rcases List.mem_append.mp hother with hold | hnew
    · exact h.status other hold
    · rw [List.mem_singleton.mp hnew, hstatus]

/-- The records of the report take in one more row. -/
theorem Records.add (h : report.Records rows)
    (hroom : report.omittedChunkRecords = 0 ∨ maximum ≤ report.ranges.length)
    (hindex : rows.map ChunkRow.chunkIndex = List.range rows.length)
    (hrow : row.chunkIndex = rows.length) :
    (report.addRecord maximum row.chunkIndex row.logicalOffset row.byteCount row.status).Records
        (rows ++ [row]) ∧
      ((report.addRecord maximum row.chunkIndex row.logicalOffset row.byteCount
          row.status).omittedChunkRecords = 0 ∨
        maximum ≤ (report.addRecord maximum row.chunkIndex row.logicalOffset row.byteCount
          row.status).ranges.length) := by
  obtain ⟨hle, blocks, hdescribes, hblocks⟩ := h
  unfold RecoveryReport.addRecord
  split
  · rename_i last hlast
    obtain ⟨hget, hmatch⟩ := Option.filter_eq_some_iff.mp hlast
    simp only [Bool.and_eq_true, decide_eq_true_eq] at hmatch
    obtain ⟨hstatus, hstop⟩ := hmatch
    obtain ⟨init, hinit⟩ := List.getLast?_eq_some_iff.mp hget
    rw [hinit] at hdescribes
    obtain ⟨blocks, block, rfl, hinits, hblock⟩ := forall₂_concat_left hdescribes
    have hkept := Describes.stop hblock hindex (Nat.sub_le _ _) hblocks
    have hnone : report.omittedChunkRecords = 0 := by omega
    refine ⟨⟨by simp [hnone], blocks ++ [block ++ [row]], ?_, ?_⟩, .inl hnone⟩
    · rw [hinit, List.dropLast_concat]
      exact List.rel_append hinits (.cons (Describes.extend hblock hstatus) .nil)
    · rw [hnone, Nat.sub_zero, List.take_length] at hblocks ⊢
      rw [← hblocks]
      simp
  · split
    · rename_i hlt
      have hnone : report.omittedChunkRecords = 0 := by omega
      refine ⟨⟨by simp [hnone], blocks ++ [[row]], ?_, ?_⟩, .inl hnone⟩
      · refine List.rel_append hdescribes (.cons ⟨⟨row, [], rfl, rfl, rfl⟩, rfl, ?_, ?_⟩ .nil)
        · simp [totalBytes]
        · intro other hother
          rw [List.mem_singleton.mp hother]
      · rw [hnone, Nat.sub_zero, List.take_length] at hblocks ⊢
        rw [← hblocks]
        simp
    · rename_i hfull
      refine ⟨⟨?_, blocks, hdescribes, ?_⟩, .inr (by simpa using hfull)⟩
      · simpa using hle
      · have hlength : (rows ++ [row]).length - (report.omittedChunkRecords + 1) =
            rows.length - report.omittedChunkRecords := by
          rw [List.length_append, List.length_singleton, Nat.add_sub_add_right]
        dsimp only
        rw [hblocks, hlength, List.take_append_of_le_length (Nat.sub_le _ _)]

/-- The report of the first chunks counts and records their rows. -/
theorem reportOf_accounts {codec : Codec} {recovery : EwfRecovery} (total chunks : Nat) :
    (recovery.reportOf codec total chunks).Counts (recovery.rows codec chunks) ∧
      (recovery.reportOf codec total chunks).Records (recovery.rows codec chunks) := by
  have h : (recovery.reportOf codec total chunks).Counts (recovery.rows codec chunks) ∧
      (recovery.reportOf codec total chunks).Records (recovery.rows codec chunks) ∧
      ((recovery.reportOf codec total chunks).omittedChunkRecords = 0 ∨
        recovery.options.maximumRecords ≤ (recovery.reportOf codec total chunks).ranges.length) := by
    induction chunks with
    | zero =>
      exact ⟨⟨rfl, rfl, rfl, rfl, rfl, rfl⟩, ⟨Nat.le_refl _, [], .nil, rfl⟩, .inl rfl⟩
    | succ chunks ih =>
      obtain ⟨hcounts, hrecords, hroom⟩ := ih
      rw [EwfRecovery.reportOf_succ, EwfRecovery.rows_succ]
      refine ⟨Counts.add hcounts (recovery.row codec chunks), ?_⟩
      obtain ⟨hranges, homitted⟩ := @ranges_countStatus (recovery.reportOf codec total chunks)
        (recovery.chunk codec chunks).2 (recovery.chunkBytes chunks)
      refine @Records.add _ _ (recovery.row codec chunks) _ ?_ ?_ ?_ ?_
      · unfold RecoveryReport.Records
        rw [hranges, homitted]
        exact hrecords
      · rw [hranges, homitted]
        exact hroom
      · rw [EwfRecovery.length_rows, EwfRecovery.chunkIndex_rows]
      · rw [EwfRecovery.length_rows]
        rfl
  exact ⟨h.1, h.2.1⟩

end Report

end EwfImage.Reading
