import EwfImage.Lib.Tiling
import EwfImage.Writer.SegmentSize
import Mathlib.Data.List.Induction

/-!
# Cutting the chunks into segments

The chunks are cut into segments of at most the wanted size. The loop keeps the size of
the open segment up to date chunk by chunk, while the writer later lays the segment out
from scratch; both arrive at the same tables, and the estimate bounds what is written.

The main result is `segmentGroups_spec`, about any chunks, options and maximum size for which
the loop succeeds. The groups follow one another and hold every chunk once; a group of more than
one chunk is within the maximum by the loop's estimate, and no segment that the writer emits for
the group is longer than the estimate, whatever its headers. `OpenSegment.tables_eq` is the
agreement of the running count with the tables that are built in the end. The payload encoders
are parameters.
-/

namespace EwfImage

open Fallible Word

/-- A `Range<usize>` of chunks. -/
structure ChunkRange where
  start : Nat
  stop : Nat
  deriving DecidableEq

def ChunkRange.count (range : ChunkRange) : Nat := range.stop - range.start

def ChunkRange.of (range : ChunkRange) (chunks : List ChunkDescriptor) : List ChunkDescriptor :=
  (chunks.take range.stop).drop range.start

/-- The variables of the loop of `segment_groups`. -/
structure SegmentGroupState where
  groups : List ChunkRange := []
  chunkIndex : Nat := 0
  currentStart : Nat := 0
  payloadSize : Nat := 0
  ewf1TableGroupState : Ewf1TableGroupState := {}
  deriving DecidableEq

section

variable (codec : Codec) (ewf1 : Ewf1PayloadEncoders) (ewf2 : Ewf2PayloadEncoders)
  (options : WriteOptions) (sectorCount totalChunkCount : Nat)

/-- The table groups of EWF1 with one more chunk; EWF2 has a single table. -/
def addTableGroupChunk (state : Ewf1TableGroupState) (chunkSize : Nat) :
    Result Ewf1TableGroupState :=
  if isEwf2Format options.format then .ok state
  else state.addChunk chunkSize ewf1TableGroupMaxEntries ewf1TableGroupMaxPayload

/-- One turn of the loop. -/
def SegmentGroupState.addChunk (maximumSegmentSize : Nat) (state : SegmentGroupState)
    (chunk : ChunkDescriptor) : Result SegmentGroupState := do
  let chunkSize := chunk.dataSize
  let proposedPayloadSize ← okOr (.malformed "writer segment payload size overflow")
    (checkedAdd state.payloadSize chunkSize)
  let proposedEwf1TableGroupState ← addTableGroupChunk options state.ewf1TableGroupState chunkSize
  let proposedSize ← estimatedSegmentSize codec ewf1 ewf2 (state.chunkIndex - state.currentStart + 1)
    proposedPayloadSize (max proposedEwf1TableGroupState.groupCount 1) options sectorCount
    totalChunkCount
  if state.currentStart < state.chunkIndex ∧ maximumSegmentSize < proposedSize then do
    let ewf1TableGroupState ← addTableGroupChunk options {} chunkSize
    let payloadSize ← okOr (.malformed "writer segment payload size overflow")
      (checkedAdd 0 chunkSize)
    return {
      groups := state.groups ++ [⟨state.currentStart, state.chunkIndex⟩]
      chunkIndex := state.chunkIndex + 1
      currentStart := state.chunkIndex
      payloadSize
      ewf1TableGroupState }
  else do
    let payloadSize ← okOr (.malformed "writer segment payload size overflow")
      (checkedAdd state.payloadSize chunkSize)
    return { state with
      chunkIndex := state.chunkIndex + 1
      payloadSize
      ewf1TableGroupState := proposedEwf1TableGroupState }

/-- The loop over `chunks`. -/
def segmentGroupLoop (maximumSegmentSize : Nat) (chunks : List ChunkDescriptor) :
    Result SegmentGroupState :=
  chunks.foldlM (SegmentGroupState.addChunk codec ewf1 ewf2 options sectorCount totalChunkCount
    maximumSegmentSize) {}

def segmentGroups (chunks : List ChunkDescriptor) (maximumSegmentSize : Option Nat) :
    Result (List ChunkRange) :=
  match maximumSegmentSize with
  | none => .ok [⟨0, chunks.length⟩]
  | some maximumSegmentSize => do
    let state ← segmentGroupLoop codec ewf1 ewf2 options sectorCount totalChunkCount
      maximumSegmentSize chunks
    return state.groups ++ [⟨state.currentStart, chunks.length⟩]

/-- A segment writer given these options emits a segment of `length` bytes for `chunks`. -/
inductive EmitsSegment (chunks : List ChunkDescriptor) (length : Nat) : Prop
  | ewf1 (spool : Bytes) (context : Ewf1SegmentWriteContext) (out : SegmentOutput Bytes)
      (hwritten : writeEwf1Segment ewf1 spool chunks options context = .ok out)
      (hlength : length = out.bytes.length)
  | ewf2 (spool : Bytes) (context : Ewf2SegmentWriteContext)
      (out : SegmentOutput Ewf2.SectionType) (hsectors : context.sectorCount = sectorCount)
      (hchunks : context.totalChunkCount.toNat = totalChunkCount)
      (hwritten : writeEwf2Segment codec ewf2 spool chunks options context = .ok out)
      (hlength : length = out.bytes.length)

end

/-! ## Tables counted ahead and tables built -/

/-- The table groups counted chunk by chunk. -/
def countTableGroups (maxEntries maxPayload : Nat) (chunks : List ChunkDescriptor)
    (state : Ewf1TableGroupState) : Result Ewf1TableGroupState :=
  chunks.foldlM (fun state chunk => state.addChunk chunk.dataSize maxEntries maxPayload) state

/-- The state of a count: a group is open exactly when one was counted. -/
def Ewf1TableGroupState.Counting (state : Ewf1TableGroupState) : Prop :=
  state.groupCount = 0 ↔ state.currentEntryCount = 0

theorem addChunk_counting {state next : Ewf1TableGroupState} {size maxEntries maxPayload : Nat}
    (hcounting : state.Counting) (h : state.addChunk size maxEntries maxPayload = .ok next) :
    next.Counting ∧ 0 < next.groupCount ∧ max state.groupCount 1 ≤ next.groupCount ∧
      next.groupCount = max state.groupCount 1 +
        if state.groupCount < next.groupCount ∧ state.currentEntryCount ≠ 0 then 1 else 0 := by
  unfold Ewf1TableGroupState.Counting at hcounting ⊢
  simp only [Ewf1TableGroupState.addChunk, bind_eq_ok, okOr_eq_ok, checkedAdd_eq_some] at h
  obtain ⟨_, _, h⟩ := h
  split at h
  · rename_i hfull
    simp only [bind_eq_ok, okOr_eq_ok, checkedAdd_eq_some, pure_eq_ok, Except.ok.injEq] at h
    obtain ⟨_, ⟨_, rfl⟩, rfl⟩ := h
    have hopen := hfull.1
    refine ⟨by simp, by simp, by simp only; omega, ?_⟩
    rw [if_pos ⟨by simp, hopen⟩]
    simp only
    omega
  · simp only [bind_eq_ok, okOr_eq_ok, checkedAdd_eq_some, pure_eq_ok, Except.ok.injEq] at h
    obtain ⟨_, ⟨_, rfl⟩, rfl⟩ := h
    refine ⟨by simp only; omega, by simp only; omega, by simp only; omega, ?_⟩
    rw [if_neg ?_]
    · rfl
    · simp only
      omega

/-- The groups built from a state are the ones still to be counted and the open one. -/
theorem ewf1TableGroupsFrom_length {maxEntries maxPayload : Nat} (index firstChunk : Nat)
    {chunks : List ChunkDescriptor} {state final : Ewf1TableGroupState} (hcounting : state.Counting)
    (h : countTableGroups maxEntries maxPayload chunks state = .ok final) :
    ∃ groups, ewf1TableGroupsFrom maxEntries maxPayload chunks index firstChunk state = .ok groups ∧
      groups.length + max state.groupCount 1 = max final.groupCount 1 + 1 := by
  induction chunks generalizing index firstChunk state with
  | nil =>
    cases h
    exact ⟨_, rfl, by rw [List.length_singleton]; omega⟩
  | cons chunk chunks ih =>
    simp only [countTableGroups, List.foldlM_cons, bind_eq_ok] at h
    obtain ⟨next, hnext, hrest⟩ := h
    obtain ⟨hnextCounting, hpositive, hge, hcount⟩ := addChunk_counting hcounting hnext
    simp only [ewf1TableGroupsFrom, hnext, ok_bind]
    by_cases hnew : state.groupCount < next.groupCount ∧ state.currentEntryCount ≠ 0
    · obtain ⟨groups, hgroups, hlength⟩ := ih (index + 1) index hnextCounting hrest
      rw [if_pos hnew] at hcount ⊢
      rw [hgroups]
      exact ⟨_, rfl, by rw [List.length_cons]; omega⟩
    · obtain ⟨groups, hgroups, hlength⟩ := ih (index + 1) firstChunk
        hnextCounting hrest
      rw [if_neg hnew] at hcount ⊢
      exact ⟨groups, hgroups, by omega⟩

/-- The tables built are the tables counted. -/
theorem ewf1TableGroups_length {maxEntries maxPayload : Nat} {chunks : List ChunkDescriptor}
    {final : Ewf1TableGroupState}
    (h : countTableGroups maxEntries maxPayload chunks {} = .ok final) :
    ∃ groups, ewf1TableGroups chunks maxEntries maxPayload = .ok groups ∧
      groups.length = max final.groupCount 1 := by
  obtain ⟨groups, hgroups, hlength⟩ := ewf1TableGroupsFrom_length 0 0 (by exact Iff.rfl) h
  exact ⟨groups, hgroups, by simp at hlength; omega⟩

/-- A chunk that was counted is in a group. -/
theorem groupCount_pos {maxEntries maxPayload : Nat} {chunks : List ChunkDescriptor}
    {final : Ewf1TableGroupState} (hne : chunks ≠ [])
    (h : countTableGroups maxEntries maxPayload chunks {} = .ok final) : 0 < final.groupCount := by
  rw [← List.dropLast_append_getLast hne, countTableGroups, foldlM_concat] at h
  obtain ⟨state, hstate, hlast⟩ := bind_eq_ok.mp h
  have hcounting : state.Counting :=
    foldlM_invariant (fun _ _ _ hcounting _ hadd => (addChunk_counting hcounting hadd).1)
      (show Ewf1TableGroupState.Counting {} from Iff.rfl) hstate
  exact (addChunk_counting hcounting hlast).2.1

/-! ## The loop -/

section

variable {codec : Codec} {ewf1 : Ewf1PayloadEncoders} {ewf2 : Ewf2PayloadEncoders}
  {options : WriteOptions} {sectorCount totalChunkCount maximumSegmentSize : Nat}
  {done chunks : List ChunkDescriptor} {chunk : ChunkDescriptor} {state next : SegmentGroupState}

/-- The estimate for the open segment of `state`. -/
def SegmentGroupState.estimate (codec : Codec) (ewf1 : Ewf1PayloadEncoders)
    (ewf2 : Ewf2PayloadEncoders) (options : WriteOptions) (sectorCount totalChunkCount : Nat)
    (state : SegmentGroupState) : Result Nat :=
  estimatedSegmentSize codec ewf1 ewf2 (state.chunkIndex - state.currentStart) state.payloadSize
    (max state.ewf1TableGroupState.groupCount 1) options sectorCount totalChunkCount

/-- The state of the loop behind the chunks `done`. -/
structure OpenSegment (codec : Codec) (ewf1 : Ewf1PayloadEncoders) (ewf2 : Ewf2PayloadEncoders)
    (options : WriteOptions) (sectorCount totalChunkCount maximumSegmentSize : Nat)
    (done : List ChunkDescriptor) (state : SegmentGroupState) : Prop where
  index : state.chunkIndex = done.length
  nonempty : done ≠ [] → state.currentStart < done.length
  start : state.currentStart ≤ done.length
  payload : state.payloadSize = storedSize (done.drop state.currentStart)
  tables : (done.drop state.currentStart).foldlM
    (fun state chunk => addTableGroupChunk options state chunk.dataSize) {} =
      .ok state.ewf1TableGroupState
  bounded : 1 < done.length - state.currentStart → ∃ estimate,
    state.estimate codec ewf1 ewf2 options sectorCount totalChunkCount = .ok estimate ∧
      estimate ≤ maximumSegmentSize

theorem OpenSegment.empty : OpenSegment codec ewf1 ewf2 options sectorCount totalChunkCount
    maximumSegmentSize [] {} := by
  refine ⟨rfl, fun h => absurd rfl h, Nat.le_refl _, rfl, rfl, fun h => ?_⟩
  simp at h

/-- A chunk is put into the open segment or closes it and opens the next one. -/
theorem OpenSegment.addChunk
    (h : OpenSegment codec ewf1 ewf2 options sectorCount totalChunkCount maximumSegmentSize done state)
    (hadd : state.addChunk codec ewf1 ewf2 options sectorCount totalChunkCount maximumSegmentSize
      chunk = .ok next) :
    OpenSegment codec ewf1 ewf2 options sectorCount totalChunkCount maximumSegmentSize
        (done ++ [chunk]) next ∧
      ((next.groups = state.groups ∧ next.currentStart = state.currentStart) ∨
        (next.groups = state.groups ++ [⟨state.currentStart, done.length⟩] ∧
          next.currentStart = done.length ∧ state.currentStart < done.length)) := by
  simp only [SegmentGroupState.addChunk, bind_eq_ok, okOr_eq_ok, checkedAdd_eq_some] at hadd
  obtain ⟨proposedPayload, ⟨_, hpayload⟩, proposedTables, htables, proposedSize, hsize, hadd⟩ := hadd
  split at hadd
  · rename_i hclose
    simp only [bind_eq_ok, okOr_eq_ok, checkedAdd_eq_some, pure_eq_ok, Except.ok.injEq] at hadd
    obtain ⟨tables, hfresh, _, ⟨_, rfl⟩, rfl⟩ := hadd
    rw [h.index] at hclose
    refine ⟨⟨?_, ?_, ?_, ?_, ?_, ?_⟩, .inr ⟨by rw [h.index], h.index, hclose.1⟩⟩
    · simp [h.index]
    · simp [h.index]
    · simp [h.index]
    · simp [h.index]
    · simpa only [h.index, List.drop_left, foldlM_singleton] using hfresh
    · simp [h.index]
  · rename_i hkeep
    simp only [bind_eq_ok, okOr_eq_ok, checkedAdd_eq_some, pure_eq_ok, Except.ok.injEq] at hadd
    obtain ⟨_, ⟨_, rfl⟩, rfl⟩ := hadd
    have hdrop : (done ++ [chunk]).drop state.currentStart =
        done.drop state.currentStart ++ [chunk] := List.drop_append_of_le_length h.start
    refine ⟨⟨?_, ?_, ?_, ?_, ?_, ?_⟩, .inl ⟨rfl, rfl⟩⟩
    · simp [h.index]
    · intro _
      have hstart := h.start
      simp only [List.length_append, List.length_singleton]
      omega
    · have hstart := h.start
      simp only [List.length_append, List.length_singleton]
      omega
    · rw [hdrop, storedSize_append, h.payload]
      simp
    · rw [hdrop, foldlM_concat, h.tables]
      exact htables
    · intro hmore
      have hstart := h.start
      simp only [List.length_append, List.length_singleton] at hmore
      have hcount : state.chunkIndex + 1 - state.currentStart =
          state.chunkIndex - state.currentStart + 1 := by
        rw [h.index]
        omega
      refine ⟨proposedSize, ?_, ?_⟩
      · rw [SegmentGroupState.estimate, hcount, hpayload]
        exact hsize
      · rw [h.index] at hkeep
        by_contra hlarge
        exact hkeep ⟨by omega, by omega⟩

theorem segmentGroupLoop_append :
    segmentGroupLoop codec ewf1 ewf2 options sectorCount totalChunkCount maximumSegmentSize
      (done ++ [chunk]) = (do
        let state ← segmentGroupLoop codec ewf1 ewf2 options sectorCount totalChunkCount
          maximumSegmentSize done
        state.addChunk codec ewf1 ewf2 options sectorCount totalChunkCount maximumSegmentSize
          chunk) :=
  foldlM_concat ..

/-- What holds after any number of turns: the closed groups tile the chunks up to the open
segment, and each of them was the open segment when its last chunk was done. -/
theorem segmentGroupLoop_spec
    (h : segmentGroupLoop codec ewf1 ewf2 options sectorCount totalChunkCount maximumSegmentSize
      chunks = .ok state) :
    OpenSegment codec ewf1 ewf2 options sectorCount totalChunkCount maximumSegmentSize chunks state ∧
      Tiling.Tiles ChunkRange.start ChunkRange.count 0 state.groups state.currentStart ∧
      ∀ range ∈ state.groups, ∃ closed, segmentGroupLoop codec ewf1 ewf2 options sectorCount
        totalChunkCount maximumSegmentSize (chunks.take range.stop) = .ok closed ∧
        closed.currentStart = range.start ∧ range.stop ≤ chunks.length := by
  induction chunks using List.reverseRecOn generalizing state with
  | nil =>
    cases h
    exact ⟨.empty, rfl, fun range hrange => by cases hrange⟩
  | append_singleton done chunk ih =>
    rw [segmentGroupLoop_append] at h
    obtain ⟨before, hbefore, hadd⟩ := bind_eq_ok.mp h
    obtain ⟨hopen, htiles, hclosed⟩ := ih hbefore
    obtain ⟨hnext, hgroups⟩ := hopen.addChunk hadd
    have hkept : ∀ range ∈ before.groups, ∃ closed, segmentGroupLoop codec ewf1 ewf2 options
        sectorCount totalChunkCount maximumSegmentSize ((done ++ [chunk]).take range.stop) =
          .ok closed ∧ closed.currentStart = range.start ∧
        range.stop ≤ (done ++ [chunk]).length := by
      intro range hrange
      obtain ⟨closed, hloop, hstart, hstop⟩ := hclosed range hrange
      rw [List.take_append_of_le_length hstop, List.length_append]
      exact ⟨closed, hloop, hstart, by omega⟩
    rcases hgroups with ⟨hsame, hstart⟩ | ⟨hpushed, hstart, hlt⟩
    · rw [hsame, hstart]
      exact ⟨hnext, htiles, hkept⟩
    · rw [hpushed, hstart]
      refine ⟨hnext, htiles.append ⟨rfl, ?_, ?_⟩, ?_⟩
      · simp only [ChunkRange.count]
        omega
      · change before.currentStart + (done.length - before.currentStart) = done.length
        omega
      · intro range hrange
        rcases List.mem_append.mp hrange with hrange | hrange
        · exact hkept range hrange
        · rw [List.mem_singleton.mp hrange]
          refine ⟨before, ?_, rfl, by simp⟩
          rw [List.take_left]
          exact hbefore

/-- Every range is in the end the open segment of a state of the loop. -/
theorem segmentGroups_closed {groups : List ChunkRange}
    (h : segmentGroups codec ewf1 ewf2 options sectorCount totalChunkCount chunks
      (some maximumSegmentSize) = .ok groups) :
    (chunks ≠ [] → Tiling.Tiles ChunkRange.start ChunkRange.count 0 groups chunks.length) ∧
      (chunks = [] → groups = [⟨0, 0⟩]) ∧
      ∀ range ∈ groups, range.start ≤ range.stop ∧ range.stop ≤ chunks.length ∧
        ∃ closed, segmentGroupLoop codec ewf1 ewf2 options sectorCount totalChunkCount
          maximumSegmentSize (chunks.take range.stop) = .ok closed ∧
          closed.currentStart = range.start := by
  obtain ⟨state, hloop, hgroups⟩ := bind_eq_ok.mp h
  cases hgroups
  obtain ⟨hopen, htiles, hclosed⟩ := segmentGroupLoop_spec hloop
  refine ⟨fun hne => ?_, fun hempty => ?_, fun range hrange => ?_⟩
  · have hlt := hopen.nonempty hne
    refine htiles.append ⟨rfl, ?_, ?_⟩
    · simp only [ChunkRange.count]
      omega
    · change state.currentStart + (chunks.length - state.currentStart) = chunks.length
      omega
  · subst hempty
    cases hloop
    rfl
  · rcases List.mem_append.mp hrange with hrange | hrange
    · obtain ⟨closed, hstate, hstart, hstop⟩ := hclosed range hrange
      obtain ⟨hinside, -, -⟩ := segmentGroupLoop_spec hstate
      have hle := hinside.start
      rw [List.length_take, Nat.min_eq_left hstop, hstart] at hle
      exact ⟨hle, hstop, closed, hstate, hstart⟩
    · rw [List.mem_singleton.mp hrange]
      refine ⟨hopen.start, Nat.le_refl _, state, ?_, rfl⟩
      rw [List.take_length]
      exact hloop

/-- The tables that the loop has counted are the tables of the open segment. -/
theorem OpenSegment.tables_eq (hformat : isEwf2Format options.format = false)
    (h : OpenSegment codec ewf1 ewf2 options sectorCount totalChunkCount maximumSegmentSize done
      state) :
    ∃ tables, ewf1TableGroups (done.drop state.currentStart) ewf1TableGroupMaxEntries
        ewf1TableGroupMaxPayload = .ok tables ∧
      tables.length = max state.ewf1TableGroupState.groupCount 1 ∧
      (state.currentStart < done.length →
        tables.length = state.ewf1TableGroupState.groupCount) := by
  have htables := h.tables
  simp only [addTableGroupChunk, hformat] at htables
  obtain ⟨tables, hbuilt, hlength⟩ := ewf1TableGroups_length htables
  refine ⟨tables, hbuilt, hlength, fun hlt => ?_⟩
  have hpositive := groupCount_pos (by simpa using hlt) htables
  omega

/-- No segment written for the open chunks is longer than the estimate. -/
theorem OpenSegment.length_le {estimate length : Nat}
    (h : OpenSegment codec ewf1 ewf2 options sectorCount totalChunkCount maximumSegmentSize done
      state)
    (hestimate : state.estimate codec ewf1 ewf2 options sectorCount totalChunkCount = .ok estimate)
    (hemits : EmitsSegment codec ewf1 ewf2 options sectorCount totalChunkCount
      (done.drop state.currentStart) length) : length ≤ estimate := by
  have hcount : state.chunkIndex - state.currentStart = (done.drop state.currentStart).length := by
    rw [h.index, List.length_drop]
  simp only [SegmentGroupState.estimate, estimatedSegmentSize, h.payload, hcount] at hestimate
  cases hemits with
  | ewf1 spool context out hwritten hlength =>
    have hformat : isEwf2Format options.format = false := by
      simp only [writeEwf1Segment, bind_eq_ok, rejectIf_eq_ok] at hwritten
      obtain ⟨_, hformat, -⟩ := hwritten
      simpa using hformat
    rw [if_neg (by simp [hformat])] at hestimate
    obtain ⟨tables, htables, hgroups, -⟩ := h.tables_eq hformat
    rw [← hgroups] at hestimate
    rw [hlength]
    exact length_writeEwf1Segment_le htables hestimate hwritten
  | ewf2 spool context out hsectors hchunks hwritten hlength =>
    have hformat : isEwf2Format options.format = true := by
      simp only [writeEwf2Segment, bind_eq_ok, rejectIf_eq_ok] at hwritten
      obtain ⟨_, hformat, -⟩ := hwritten
      simpa using hformat
    rw [if_pos hformat, ← hsectors, ← hchunks] at hestimate
    rw [hlength]
    exact length_writeEwf2Segment_le hestimate hwritten

theorem flatMap_of_tiles {groups : List ChunkRange} {lo : Nat}
    (h : Tiling.Tiles ChunkRange.start ChunkRange.count lo groups chunks.length) :
    groups.flatMap (·.of chunks) = chunks.drop lo := by
  induction groups generalizing lo with
  | nil =>
    have hlo : lo = chunks.length := h
    simp [hlo]
  | cons range groups ih =>
    obtain ⟨hstart, hsize, hrest⟩ := h
    have hle := hrest.le
    have hstop : lo + range.count = range.stop := by
      simp only [ChunkRange.count] at hsize ⊢
      omega
    rw [List.flatMap_cons, ih hrest, hstop, ChunkRange.of, hstart]
    conv_rhs => rw [← List.take_append_drop range.stop chunks,
      List.drop_append_of_le_length (by rw [List.length_take]; omega)]

end

/-- The groups follow one another and hold every chunk once. While the loop ran, each of them was
the open segment with the tables that the writer builds for it and with an estimate that no
segment written for it exceeds; with more than one chunk it is within the maximum. -/
theorem segmentGroups_spec (codec : Codec) (ewf1 : Ewf1PayloadEncoders) (ewf2 : Ewf2PayloadEncoders)
    (options : WriteOptions) (sectorCount totalChunkCount : Nat) (chunks : List ChunkDescriptor)
    (maximumSegmentSize : Option Nat) (groups : List ChunkRange)
    (h : segmentGroups codec ewf1 ewf2 options sectorCount totalChunkCount chunks
      maximumSegmentSize = .ok groups) :
    groups.flatMap (·.of chunks) = chunks ∧
    (chunks ≠ [] → Tiling.Tiles ChunkRange.start ChunkRange.count 0 groups chunks.length) ∧
    (chunks = [] → groups = [⟨0, 0⟩]) ∧
    ∀ maximum, maximumSegmentSize = some maximum → ∀ range ∈ groups, ∃ state,
      segmentGroupLoop codec ewf1 ewf2 options sectorCount totalChunkCount maximum
        (chunks.take range.stop) = .ok state ∧
      state.currentStart = range.start ∧
      state.payloadSize = storedSize (range.of chunks) ∧
      (isEwf2Format options.format = false → ∃ tables,
        ewf1TableGroups (range.of chunks) ewf1TableGroupMaxEntries ewf1TableGroupMaxPayload =
          .ok tables ∧ tables.length = max state.ewf1TableGroupState.groupCount 1 ∧
        (0 < range.count → tables.length = state.ewf1TableGroupState.groupCount)) ∧
      (∀ estimate length,
        estimatedSegmentSize codec ewf1 ewf2 range.count state.payloadSize
          (max state.ewf1TableGroupState.groupCount 1) options sectorCount totalChunkCount =
            .ok estimate →
        EmitsSegment codec ewf1 ewf2 options sectorCount totalChunkCount (range.of chunks) length →
        length ≤ estimate) ∧
      (1 < range.count → ∀ length,
        EmitsSegment codec ewf1 ewf2 options sectorCount totalChunkCount (range.of chunks) length →
        length ≤ maximum) := by
  cases hmaximum : maximumSegmentSize with
  | none =>
    rw [hmaximum] at h
    cases h
    refine ⟨by simp [ChunkRange.of], fun hne => ⟨rfl, ?_, ?_⟩, ?_, fun _ hnone => by cases hnone⟩
    · exact List.length_pos_iff.mpr hne
    · exact Nat.zero_add _
    · rintro rfl
      rfl
  | some maximum =>
    rw [hmaximum] at h
    obtain ⟨htiles, hempty, hclosed⟩ := segmentGroups_closed h
    refine ⟨?_, htiles, hempty, ?_⟩
    · by_cases hne : chunks = []
      · rw [hempty hne, hne]
        rfl
      · rw [flatMap_of_tiles (htiles hne), List.drop_zero]
    · rintro _ ⟨⟩ range hrange
      obtain ⟨hle, hstop, state, hloop, hstart⟩ := hclosed range hrange
      obtain ⟨hopen, -, -⟩ := segmentGroupLoop_spec hloop
      have hof : (chunks.take range.stop).drop state.currentStart = range.of chunks := by
        rw [hstart, ChunkRange.of]
      have hcount : state.chunkIndex - state.currentStart = range.count := by
        rw [hopen.index, hstart, List.length_take, Nat.min_eq_left hstop, ChunkRange.count]
      refine ⟨state, hloop, hstart, by rw [hopen.payload, hof], fun hformat => ?_,
        fun estimate length hestimate hemits => ?_, fun hmore length hemits => ?_⟩
      · obtain ⟨tables, htables, hlength, hexact⟩ := hopen.tables_eq hformat
        rw [hof] at htables
        rw [← hcount, hopen.index]
        exact ⟨tables, htables, hlength, fun hpositive => hexact (by omega)⟩
      · rw [← hof] at hemits
        rw [← hcount] at hestimate
        exact hopen.length_le hestimate hemits
      · rw [← hcount, hopen.index] at hmore
        obtain ⟨estimate, hestimate, hbound⟩ := hopen.bounded hmore
        rw [← hof] at hemits
        exact Nat.le_trans (hopen.length_le hestimate hemits) hbound

/-- Segments without metadata. -/
def bareEwf1 : Ewf1PayloadEncoders :=
  ⟨fun _ => .ok none, fun _ => .ok none, fun _ => .ok none, fun _ => .ok none, fun _ => .ok none,
    fun _ => .ok none, fun _ => .ok none, fun _ => .ok none⟩

def bareEwf2 : Ewf2PayloadEncoders where
  deviceInformation := fun _ _ _ => []
  caseData := fun _ _ => []
  errorTable := fun _ => .ok none
  sessionTable := fun _ _ => .ok none
  memoryExtentsTable := fun _ => none
  singleFilesData := .ok
  singleFilesTable0x21 := fun _ => none
  singleFilesMd5HashTable := fun _ => none
  singleFilesTable0x23 := fun _ => none
  hash := id
  utf16leWithBom := fun _ => []

def bareCodec : Codec where
  zlibEncode := fun _ data => 0x78 :: 0x01 :: data
  bzip2Encode := fun _ data => 0x42 :: data
  zlibDecoder := fun encoded => ⟨encoded.drop 2, none⟩
  bzip2Decoder := fun encoded => ⟨encoded.tail, none⟩
  zstdDecoder := fun _ _ => .error "unsupported"

def fiveBytes (dataOffset : Nat) : ChunkDescriptor := ⟨dataOffset, 5, false, true, none⟩

/-- Of three chunks of five bytes two fit into 1,530 bytes. -/
theorem segmentGroups_spec_three :
    segmentGroups bareCodec bareEwf1 bareEwf2 {} 3 3 [fiveBytes 0, fiveBytes 5, fiveBytes 10]
      (some 1530) = .ok [⟨0, 2⟩, ⟨2, 3⟩] ∧
    ∀ length, EmitsSegment bareCodec bareEwf1 bareEwf2 {} 3 3 [fiveBytes 0, fiveBytes 5] length →
      length ≤ 1530 := by
  have hgroups : segmentGroups bareCodec bareEwf1 bareEwf2 {} 3 3
      [fiveBytes 0, fiveBytes 5, fiveBytes 10] (some 1530) = .ok [⟨0, 2⟩, ⟨2, 3⟩] := by
    decide
  obtain ⟨-, -, -, hranges⟩ := segmentGroups_spec bareCodec bareEwf1 bareEwf2 {} 3 3
    [fiveBytes 0, fiveBytes 5, fiveBytes 10] (some 1530) _ hgroups
  obtain ⟨_, -, -, -, -, -, hbound⟩ := hranges 1530 rfl ⟨0, 2⟩ (by simp)
  exact ⟨hgroups, hbound (by decide)⟩

end EwfImage
