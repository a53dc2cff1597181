import EwfImage.Image.Sections
import EwfImage.Lib.Tiling

/-!
# The chunk index

The table ranges of an image in the order of their chunks. An index is only built of
ranges that tile the chunks of the media, so each chunk has exactly one range.

`LazyChunkIndex` carries that its ranges tile the chunks and that their number is a 64-bit word,
so an index that does not cover the media cannot be built. `exists_coveringRange` finds the
range of a chunk, and `rangeFor_of_lt` the same for the search of the reader.
-/

namespace EwfImage

open Fallible Word Tiling

def TableRange.covers (ranges : List TableRange) (first last : Nat) : Prop :=
  Tiles TableRange.firstChunk TableRange.chunkCount first ranges last

def logicalChunkCount (logicalSize chunkSize : Nat) : Result Nat := do
  rejectIf (chunkSize = 0) (.malformed "chunk size is zero")
  return if logicalSize = 0 then 0 else (logicalSize - 1) / chunkSize + 1

/-- The loop of `LazyChunkIndex::new`; the result is the end of the coverage. -/
def checkCoverage : List TableRange → Nat → Result Nat
  | [], expectedNext => .ok expectedNext
  | range :: ranges, expectedNext => do
    rejectIf (range.chunkCount = 0) (.malformed "table range has zero chunks")
    let first := range.firstChunk
    rejectIf (range.firstChunk < expectedNext) (.malformed
      s!"table range starting at chunk {first} overlaps previous range ending at chunk {expectedNext}")
    rejectIf (expectedNext < range.firstChunk) (.malformed
      s!"table range starts at chunk {first}, expected {expectedNext}")
    let expectedNext ← okOr (.malformed "table range chunk count overflow")
      (checkedAdd range.firstChunk range.chunkCount)
    checkCoverage ranges expectedNext

theorem checkCoverage_tiles {ranges : List TableRange} {first last : Nat}
    (h : checkCoverage ranges first = .ok last) : TableRange.covers ranges first last := by
  induction ranges generalizing first with
  | nil => exact Except.ok.inj h
  | cons range ranges ih =>
    simp only [checkCoverage, bind_eq_ok, rejectIf_eq_ok, okOr_eq_ok, checkedAdd_eq_some] at h
    obtain ⟨_, hcount, _, hge, _, hle, next, ⟨_, rfl⟩, hrest⟩ := h
    have hfirst : range.firstChunk = first := by omega
    refine ⟨hfirst, by omega, ?_⟩
    rw [← hfirst]
    exact ih hrest

theorem checkCoverage_lt {ranges : List TableRange} {first last : Nat}
    (h : checkCoverage ranges first = .ok last) (hfirst : first < u64Limit) : last < u64Limit := by
  induction ranges generalizing first with
  | nil =>
    cases h
    exact hfirst
  | cons range ranges ih =>
    simp only [checkCoverage, bind_eq_ok, rejectIf_eq_ok, okOr_eq_ok, checkedAdd_eq_some] at h
    obtain ⟨_, _, _, _, _, _, next, ⟨hnext, rfl⟩, hrest⟩ := h
    exact ih hrest hnext

structure LazyChunkIndex where
  logicalChunks : Nat
  ranges : List TableRange
  covers : TableRange.covers ranges 0 logicalChunks
  logicalChunks_lt : logicalChunks < u64Limit

def LazyChunkIndex.new (ranges : List TableRange) (logicalSize chunkSize : Nat) :
    Result LazyChunkIndex := do
  let logicalChunks ← logicalChunkCount logicalSize chunkSize
  let ranges := ranges.mergeSort (fun left right => left.firstChunk ≤ right.firstChunk)
  match hcoverage : checkCoverage ranges 0 with
  | .error e => .error e
  | .ok expectedNext =>
    if heq : expectedNext ≠ logicalChunks then
      .error (.malformed
        s!"table coverage ends at chunk {expectedNext}, expected {logicalChunks}")
    else .ok {
      logicalChunks
      ranges
      covers := by
        have heq : expectedNext = logicalChunks := not_not.mp heq
        exact heq ▸ checkCoverage_tiles hcoverage
      logicalChunks_lt := by
        have heq : expectedNext = logicalChunks := not_not.mp heq
        exact heq ▸ checkCoverage_lt hcoverage (by decide) }

/-- The range that a search for the first one ending behind `chunkId` finds. -/
def coveringRange (ranges : List TableRange) (chunkId : Nat) : Option TableRange :=
  (ranges.find? fun range =>
    ¬ saturatingAdd range.firstChunk range.chunkCount ≤ chunkId).filter (·.firstChunk ≤ chunkId)

/-- `range_index_for`, without the position in the list. -/
def LazyChunkIndex.rangeFor (index : LazyChunkIndex) (chunkId : Nat) : Result TableRange := do
  let logicalChunks := index.logicalChunks
  rejectIf (index.logicalChunks ≤ chunkId) (.malformed
    s!"chunk {chunkId} is outside logical chunk count {logicalChunks}")
  okOr (.malformed s!"chunk {chunkId} is not covered") (coveringRange index.ranges chunkId)

/-! ## Ranges that tile -/

section Coverage

variable {ranges : List TableRange} {first last chunkId : Nat}

theorem coveringRange_eq_some {range : TableRange} (h : TableRange.covers ranges first last)
    (hlast : last < u64Limit) (hrange : range ∈ ranges) (hge : range.firstChunk ≤ chunkId)
    (hlt : chunkId < range.firstChunk + range.chunkCount) :
    coveringRange ranges chunkId = some range := by
  have hbehind : ∀ other ∈ ranges, decide (¬ saturatingAdd other.firstChunk other.chunkCount ≤
      chunkId) = true ↔ chunkId < other.firstChunk + other.chunkCount := by
    intro other hother
    have hbounds := Tiles.bounds h hother
    rw [saturatingAdd_of_lt (by omega)]
    simp
  rw [coveringRange, Tiles.find?_eq_some h hbehind hrange hge hlt]
  simpa using hge

theorem exists_coveringRange (h : TableRange.covers ranges first last) (hlast : last < u64Limit)
    (hge : first ≤ chunkId) (hlt : chunkId < last) :
    ∃ range ∈ ranges, coveringRange ranges chunkId = some range ∧ range.firstChunk ≤ chunkId ∧
      chunkId < range.firstChunk + range.chunkCount := by
  obtain ⟨range, hrange, hstart, hend⟩ := Tiles.exists_mem h hge hlt
  exact ⟨range, hrange, coveringRange_eq_some h hlast hrange hstart hend, hstart, hend⟩

theorem coveringRange_eq_none (h : TableRange.covers ranges first last) (hlast : last < u64Limit)
    (hout : chunkId < first ∨ last ≤ chunkId) : coveringRange ranges chunkId = none := by
  cases hfound : coveringRange ranges chunkId with
  | none => rfl
  | some range =>
    obtain ⟨hfind, hstart⟩ := Option.filter_eq_some_iff.mp hfound
    have hbounds := Tiles.bounds h (List.mem_of_find?_eq_some hfind)
    have hend := List.find?_some hfind
    rw [saturatingAdd_of_lt (by omega)] at hend
    simp only [decide_eq_true_eq] at hstart hend
    omega

theorem rangeFor_of_lt (index : LazyChunkIndex) (h : chunkId < index.logicalChunks) :
    ∃ range ∈ index.ranges, index.rangeFor chunkId = .ok range ∧ range.firstChunk ≤ chunkId ∧
      chunkId < range.firstChunk + range.chunkCount := by
  obtain ⟨range, hrange, hfound, hbounds⟩ :=
    exists_coveringRange index.covers index.logicalChunks_lt (Nat.zero_le _) h
  refine ⟨range, hrange, ?_, hbounds⟩
  unfold LazyChunkIndex.rangeFor
  dsimp only
  rw [rejectIf_neg _ (by omega), ok_bind, hfound, okOr_some]

end Coverage

end EwfImage
