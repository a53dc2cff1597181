import EwfImage.Image.Index
import EwfImage.Lib.Search

/-!
# Which ranges an index is built of

An index is built of table ranges in any order. It is built exactly when they are not empty, do
not overlap and cover the chunks of the media, and it then finds the one range of every chunk.

The main result is `lazyChunkIndex_new_iff`, about any list of ranges with any 64-bit values: an
index is built exactly when the ranges in their order tile the chunks of the media. Then the sum
of no range overflows, and the binary search of the reader finds the only range around each
chunk. `rangeFor_eq_rangeIndexFor` connects the search by position with the one that the lookups
use.
-/

namespace EwfImage

open Fallible Word Tiling Search

/-- The number of the chunk is one of those that the range stands for. -/
def TableRange.contains (range : TableRange) (chunk : Nat) : Prop :=
  Within TableRange.firstChunk TableRange.chunkCount chunk range

/-- The ranges are not empty, do not overlap and cover the chunks, whatever their order. -/
structure TableRange.Partition (ranges : List TableRange) (chunks : Nat) : Prop where
  nonempty : ∀ range ∈ ranges, 0 < range.chunkCount
  disjoint : ranges.Pairwise fun range other =>
    ∀ chunk, ¬ (range.contains chunk ∧ other.contains chunk)
  covers : ∀ chunk, (∃ range ∈ ranges, range.contains chunk) ↔ chunk < chunks

/-- `range_index_for`. -/
def LazyChunkIndex.rangeIndexFor (index : LazyChunkIndex) (chunkId : Nat) :
    Result (Nat × TableRange) := do
  let logicalChunks := index.logicalChunks
  rejectIf (index.logicalChunks ≤ chunkId) (.malformed
    s!"chunk {chunkId} is outside logical chunk count {logicalChunks}")
  let place := partitionPoint
    (fun range => saturatingAdd range.firstChunk range.chunkCount ≤ chunkId) index.ranges
  let range ← okOr (.malformed s!"chunk {chunkId} is not covered")
    (index.ranges[place]?.filter (·.firstChunk ≤ chunkId))
  return (place, range)

variable {ranges : List TableRange} {first last chunks chunk : Nat}

/-! ## Construction -/

/-- The check of the coverage passes on ranges that tile. -/
theorem checkCoverage_of_tiles (h : TableRange.covers ranges first last) (hlast : last < u64Limit) :
    checkCoverage ranges first = .ok last := by
  induction ranges generalizing first with
  | nil => exact congrArg Except.ok h
  | cons range ranges ih =>
    obtain ⟨hstart, hcount, hrest⟩ := h
    have hend := Tiles.le hrest
    unfold checkCoverage
    rw [rejectIf_neg _ (by omega), ok_bind]
    dsimp only
    rw [rejectIf_neg _ (by omega), ok_bind, rejectIf_neg _ (by omega), ok_bind,
      checkedAdd_of_lt (by omega), okOr_some, ok_bind, hstart]
    exact ih hrest

theorem checkCoverage_iff (hlast : last < u64Limit) :
    checkCoverage ranges first = .ok last ↔ TableRange.covers ranges first last :=
  ⟨checkCoverage_tiles, fun h => checkCoverage_of_tiles h hlast⟩

/-- The order of the ranges does not matter. -/
theorem TableRange.Partition.perm {others : List TableRange} (h : Partition ranges chunks)
    (hperm : ranges.Perm others) : Partition others chunks where
  nonempty range hrange := h.nonempty range (hperm.mem_iff.mpr hrange)
  disjoint := (hperm.pairwise_iff fun hdisjoint chunk hboth => hdisjoint chunk hboth.symm).mp
    h.disjoint
  covers chunk := by
    rw [← h.covers chunk]
    exact exists_congr fun range => and_congr_left fun _ => hperm.mem_iff.symm

theorem TableRange.Partition.of_covers (h : TableRange.covers ranges 0 chunks) :
    Partition ranges chunks where
  nonempty := by
    have hpositive : ∀ {first : Nat}, TableRange.covers ranges first chunks →
        ∀ range ∈ ranges, 0 < range.chunkCount := by
      clear h
      induction ranges with
      | nil => exact fun _ _ hnil => (by cases hnil)
      | cons head rest ih =>
        intro first h range hrange
        rcases List.mem_cons.mp hrange with rfl | hlater
        · exact h.2.1
        · exact ih h.2.2 range hlater
    exact hpositive h
  disjoint := Tiles.disjoint h
  covers chunk := by
    rw [← and_iff_right (a := 0 ≤ chunk) (b := chunk < chunks) (Nat.zero_le _)]
    exact Tiles.exists_iff h

/-- The ranges in the order of their first chunks. -/
abbrev sortRanges (ranges : List TableRange) : List TableRange :=
  ranges.mergeSort fun left right => left.firstChunk ≤ right.firstChunk

theorem pairwise_sortRanges (ranges : List TableRange) :
    (sortRanges ranges).Pairwise fun range other => range.firstChunk ≤ other.firstChunk := by
  refine (List.pairwise_mergeSort (fun a b c hab hbc => ?_) (fun a b => ?_) ranges).imp
    fun hle => of_decide_eq_true hle
  · rw [decide_eq_true_eq] at hab hbc ⊢
    omega
  · rw [Bool.or_eq_true, decide_eq_true_eq, decide_eq_true_eq]
    omega

theorem covers_sortRanges_iff :
    TableRange.covers (sortRanges ranges) 0 chunks ↔ TableRange.Partition ranges chunks := by
  have hperm : (sortRanges ranges).Perm ranges := List.mergeSort_perm ranges _
  constructor
  · exact fun h => (TableRange.Partition.of_covers h).perm hperm
  · intro h
    have hsorted := h.perm hperm.symm
    refine tiles_of_sorted (pairwise_sortRanges ranges) hsorted.nonempty hsorted.disjoint
      (fun chunk => ?_) (Nat.zero_le _)
    rw [and_iff_right (Nat.zero_le _)]
    exact hsorted.covers chunk

theorem new_spec {logicalSize chunkSize : Nat} {index : LazyChunkIndex}
    (h : LazyChunkIndex.new ranges logicalSize chunkSize = .ok index) :
    logicalChunkCount logicalSize chunkSize = .ok index.logicalChunks ∧
      index.ranges = sortRanges ranges := by
  unfold LazyChunkIndex.new at h
  rw [bind_eq_ok] at h
  obtain ⟨chunks, hchunks, h⟩ := h
  dsimp only at h
  split at h
  · cases h
  · split at h
    · cases h
    · cases h
      exact ⟨hchunks, rfl⟩

theorem exists_new_iff {logicalSize chunkSize : Nat}
    (hchunks : logicalChunkCount logicalSize chunkSize = .ok chunks) (hlast : chunks < u64Limit) :
    (∃ index, LazyChunkIndex.new ranges logicalSize chunkSize = .ok index) ↔
      TableRange.Partition ranges chunks := by
  rw [← covers_sortRanges_iff, ← checkCoverage_iff hlast]
  constructor
  · rintro ⟨index, hindex⟩
    obtain ⟨hcount, hranges⟩ := new_spec hindex
    rw [hchunks, Except.ok.injEq] at hcount
    rw [← hranges, hcount]
    exact checkCoverage_of_tiles index.covers index.logicalChunks_lt
  · intro hcoverage
    unfold LazyChunkIndex.new
    rw [hchunks, ok_bind]
    dsimp only
    split
    · rename_i e herror
      rw [hcoverage] at herror
      cases herror
    · rename_i next hnext
      rw [hcoverage] at hnext
      cases hnext
      rw [dif_neg (not_not.mpr rfl)]
      exact ⟨_, rfl⟩

/-! ## Lookup -/

/-- The ranges that end in front of a chunk are the first ones. -/
theorem partitions_covers (h : TableRange.covers ranges first last) (hlast : last < u64Limit)
    (chunk : Nat) : Partitions
      (fun range => decide (saturatingAdd range.firstChunk range.chunkCount ≤ chunk)) ranges := by
  unfold Partitions
  induction ranges generalizing first with
  | nil => exact List.Pairwise.nil
  | cons range rest ih =>
    obtain ⟨hstart, _, hrest⟩ := h
    refine List.pairwise_cons.mpr ⟨fun other hother hend => ?_, ih hrest⟩
    have hle := Tiles.le hrest
    have hbounds := Tiles.bounds hrest hother
    rw [decide_eq_true_eq] at hend ⊢
    rw [saturatingAdd_of_lt (by omega)] at hend ⊢
    omega

/-- The place of a chunk's range is where the search ends. -/
theorem rangeIndexFor_eq_ok (index : LazyChunkIndex) {place : Nat} {range : TableRange}
    (hplace : index.ranges[place]? = some range) (hin : range.contains chunk) :
    index.rangeIndexFor chunk = .ok (place, range) := by
  have hmem : range ∈ index.ranges := List.mem_of_getElem? hplace
  have hbounds := Tiles.bounds index.covers hmem
  have hlast := index.logicalChunks_lt
  obtain ⟨hge, hlt⟩ := hin
  have hpoint : partitionPoint
      (fun range => decide (saturatingAdd range.firstChunk range.chunkCount ≤ chunk))
      index.ranges = place := by
    refine partitionPoint_eq (partitions_covers index.covers hlast chunk) hplace ?_ ?_
    · rw [saturatingAdd_of_lt (by omega), decide_eq_false_iff_not]
      omega
    · intro earlier other hother hbefore
      have hother' := List.getElem?_eq_some_iff.mp hother
      have hplace' := List.getElem?_eq_some_iff.mp hplace
      have hordered := List.pairwise_iff_getElem.mp (Tiles.ordered index.covers) earlier place
        hother'.1 hplace'.1 hbefore
      rw [hother'.2, hplace'.2] at hordered
      rw [saturatingAdd_of_lt (by omega), decide_eq_true_eq]
      omega
  unfold LazyChunkIndex.rangeIndexFor
  dsimp only
  rw [rejectIf_neg _ (by omega), ok_bind, hpoint, hplace, Option.filter_some,
    if_pos (decide_eq_true hge), okOr_some]
  rfl

/-- What `rangeFor` finds is the range at the place of the search. -/
theorem rangeFor_eq_rangeIndexFor (index : LazyChunkIndex) (chunk : Nat) :
    index.rangeFor chunk = (index.rangeIndexFor chunk >>= fun found => .ok found.2) := by
  by_cases hout : index.logicalChunks ≤ chunk
  · unfold LazyChunkIndex.rangeFor LazyChunkIndex.rangeIndexFor
    dsimp only
    rw [rejectIf_pos _ hout]
    rfl
  · obtain ⟨range, hrange, hfound, hin⟩ := rangeFor_of_lt index (Nat.lt_of_not_le hout)
    obtain ⟨place, hplace⟩ := List.mem_iff_getElem?.mp hrange
    rw [hfound, rangeIndexFor_eq_ok index hplace hin]
    rfl

/-- An index is built of exactly the ranges that partition the chunks of the media, in any order;
then no range of it overflows, and every chunk is found in its only range. -/
theorem lazyChunkIndex_new_iff (ranges : List TableRange) (logicalSize chunkSize : Nat)
    (hsize : logicalSize < u64Limit) :
    ((∃ index, LazyChunkIndex.new ranges logicalSize chunkSize = .ok index) ↔
      ∃ chunks, logicalChunkCount logicalSize chunkSize = .ok chunks ∧
        TableRange.Partition ranges chunks) ∧
    ∀ index, LazyChunkIndex.new ranges logicalSize chunkSize = .ok index →
      index.ranges.Perm ranges ∧
      (∀ range ∈ ranges, range.firstChunk + range.chunkCount < u64Limit) ∧
      ∀ chunk, chunk < index.logicalChunks → ∃ place range,
        index.rangeIndexFor chunk = .ok (place, range) ∧ index.ranges[place]? = some range ∧
          range.contains chunk ∧ ∀ other place', index.ranges[place']? = some other →
            other.contains chunk → place' = place := by
  constructor
  · cases hcount : logicalChunkCount logicalSize chunkSize with
    | error e =>
      refine ⟨fun ⟨index, hindex⟩ => ?_, fun ⟨_, hok, _⟩ => (by cases hok)⟩
      rw [(new_spec hindex).1] at hcount
      cases hcount
    | ok chunks =>
      have hle : chunks ≤ logicalSize := by
        simp only [logicalChunkCount, bind_eq_ok, rejectIf_eq_ok, pure_eq_ok] at hcount
        obtain ⟨_, hpositive, hchunks⟩ := hcount
        have hdiv := Nat.div_le_self (logicalSize - 1) chunkSize
        rw [← Except.ok.inj hchunks]
        by_cases hempty : logicalSize = 0
        · rw [if_pos hempty]
          omega
        · rw [if_neg hempty]
          omega
      rw [exists_new_iff hcount (by omega)]
      exact ⟨fun h => ⟨chunks, rfl, h⟩, fun ⟨_, hok, h⟩ => by cases hok; exact h⟩
  · intro index hindex
    have hperm : index.ranges.Perm ranges := by
      rw [(new_spec hindex).2]
      exact List.mergeSort_perm ranges _
    refine ⟨hperm, fun range hrange => ?_, fun chunk hchunk => ?_⟩
    · have hbounds := Tiles.bounds index.covers (hperm.mem_iff.mpr hrange)
      have hlast := index.logicalChunks_lt
      omega
    · obtain ⟨range, hrange, hin⟩ := Tiles.exists_mem index.covers (Nat.zero_le _) hchunk
      obtain ⟨place, hplace⟩ := List.mem_iff_getElem?.mp hrange
      have hfound := rangeIndexFor_eq_ok index hplace hin
      refine ⟨place, range, hfound, hplace, hin, fun other place' hother hcontains => ?_⟩
      rw [rangeIndexFor_eq_ok index hother hcontains, Except.ok.injEq, Prod.mk.injEq] at hfound
      exact hfound.1

/-- A range of an EWF1 table. -/
def TableRange.ewf1 (firstChunk chunkCount : Nat) : TableRange where
  kind := .ewf1
  segmentIndex := 0
  firstChunk
  chunkCount
  entriesOffset := 128
  baseOffset := 1024
  dataEnd := some 2048
  ewf1AllowLargeCompressedChunks := false
  ewf1CompressionMethod := some .zlib
  ewf2CompressionMethod := none

theorem lazyChunkIndex_new_iff_reversed :
    (∃ index, LazyChunkIndex.new [.ewf1 2 3, .ewf1 0 2] 5 1 = .ok index) ↔
      ∃ chunks, logicalChunkCount 5 1 = .ok chunks ∧
        TableRange.Partition [.ewf1 2 3, .ewf1 0 2] chunks :=
  (lazyChunkIndex_new_iff [.ewf1 2 3, .ewf1 0 2] 5 1 (by decide)).1

end EwfImage
