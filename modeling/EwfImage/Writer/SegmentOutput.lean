import EwfImage.Writer.Encode

/-!
# The output of a segment writer

The bytes written so far, with a record of what was written where: the section
descriptors in order and the chunks in order. The record is not part of the segment;
it is what the reader has to find again.

`copyChunks_spec` is the main result: copied chunks stand one behind the other, and the record
has the place of each. The spool is any list of bytes; a chunk outside of it is an error of the
copy.
-/

namespace EwfImage

open Fallible Slice

/-- How a segment ends: it is the last one, or another one follows. -/
inductive TerminalSection
  | done
  | next
  deriving DecidableEq

structure SegmentOutput (Kind : Type) where
  bytes : Bytes
  /-- The kind and the offset of each descriptor. -/
  descriptors : List (Kind × Nat)
  /-- The offset of each chunk. -/
  placements : List Nat

variable {Kind : Type}

namespace SegmentOutput

def empty : SegmentOutput Kind := ⟨[], [], []⟩

def writeAll (out : SegmentOutput Kind) (data : Bytes) : SegmentOutput Kind :=
  { out with bytes := out.bytes ++ data }

def writeDescriptor (out : SegmentOutput Kind) (kind : Kind) (desc : Bytes) : SegmentOutput Kind :=
  { out with
    bytes := out.bytes ++ desc
    descriptors := out.descriptors ++ [(kind, out.bytes.length)] }

def writeChunk (out : SegmentOutput Kind) (data : Bytes) : SegmentOutput Kind :=
  { out with
    bytes := out.bytes ++ data
    placements := out.placements ++ [out.bytes.length] }

@[simp] theorem bytes_writeAll (out : SegmentOutput Kind) (data : Bytes) :
    (out.writeAll data).bytes = out.bytes ++ data := rfl

@[simp] theorem descriptors_writeAll (out : SegmentOutput Kind) (data : Bytes) :
    (out.writeAll data).descriptors = out.descriptors := rfl

@[simp] theorem placements_writeAll (out : SegmentOutput Kind) (data : Bytes) :
    (out.writeAll data).placements = out.placements := rfl

@[simp] theorem bytes_writeDescriptor (out : SegmentOutput Kind) (kind : Kind) (desc : Bytes) :
    (out.writeDescriptor kind desc).bytes = out.bytes ++ desc := rfl

@[simp] theorem descriptors_writeDescriptor (out : SegmentOutput Kind) (kind : Kind)
    (desc : Bytes) :
    (out.writeDescriptor kind desc).descriptors =
      out.descriptors ++ [(kind, out.bytes.length)] := rfl

@[simp] theorem placements_writeDescriptor (out : SegmentOutput Kind) (kind : Kind)
    (desc : Bytes) : (out.writeDescriptor kind desc).placements = out.placements := rfl

end SegmentOutput

/-! ## Chunks -/

/-- `ChunkSpool::copy_chunk_to`: the stored bytes of a chunk. -/
def copyChunkTo (spool : Bytes) (chunk : ChunkDescriptor) : Result Bytes :=
  if chunk.dataSize = 0 ∨ chunk.dataOffset + chunk.dataSize ≤ spool.length then
    .ok (slice spool chunk.dataOffset chunk.dataSize)
  else .error (.io .unexpectedEof)

def copyChunks (spool : Bytes) : List ChunkDescriptor → SegmentOutput Kind →
    Result (SegmentOutput Kind)
  | [], out => .ok out
  | chunk :: chunks, out => do
    let data ← copyChunkTo spool chunk
    copyChunks spool chunks (out.writeChunk data)

/-- The bytes that `chunks` take up. -/
def storedSize (chunks : List ChunkDescriptor) : Nat := (chunks.map (·.dataSize)).sum

/-- The offsets of `chunks` laid out from `start`. -/
def consecutive (start : Nat) : List ChunkDescriptor → List Nat
  | [] => []
  | chunk :: chunks => start :: consecutive (start + chunk.dataSize) chunks

@[simp] theorem storedSize_nil : storedSize [] = 0 := rfl

@[simp] theorem storedSize_cons (chunk : ChunkDescriptor) (chunks : List ChunkDescriptor) :
    storedSize (chunk :: chunks) = chunk.dataSize + storedSize chunks := by
  simp [storedSize]

theorem storedSize_append (xs ys : List ChunkDescriptor) :
    storedSize (xs ++ ys) = storedSize xs + storedSize ys := by
  simp [storedSize]

@[simp] theorem length_consecutive (start : Nat) (chunks : List ChunkDescriptor) :
    (consecutive start chunks).length = chunks.length := by
  induction chunks generalizing start with
  | nil => rfl
  | cons chunk chunks ih => simp [consecutive, ih]

theorem consecutive_getElem? {start i : Nat} {chunks : List ChunkDescriptor}
    (h : i < chunks.length) :
    (consecutive start chunks)[i]? = some (start + storedSize (chunks.take i)) := by
  induction chunks generalizing start i with
  | nil => cases h
  | cons chunk chunks ih =>
    cases i with
    | zero => simp [consecutive]
    | succ i =>
      have hi : i < chunks.length := by simpa using h
      simp only [consecutive, List.getElem?_cons_succ, ih hi, List.take_succ_cons, storedSize_cons]
      congr 1
      omega

theorem length_of_copyChunkTo {spool data : Bytes} {chunk : ChunkDescriptor}
    (h : copyChunkTo spool chunk = .ok data) : data.length = chunk.dataSize := by
  unfold copyChunkTo at h
  split at h
  · rename_i hfits
    cases h
    rcases hfits with hzero | hle
    · simp [hzero]
    · rw [length_slice]
      omega
  · cases h

/-- `data` holds the spooled bytes of `chunks`, one behind the other. -/
structure Holds (spool : Bytes) (chunks : List ChunkDescriptor) (data : Bytes) : Prop where
  length : data.length = storedSize chunks
  stored : ∀ i chunk, chunks[i]? = some chunk →
    slice data (storedSize (chunks.take i)) chunk.dataSize =
      slice spool chunk.dataOffset chunk.dataSize

theorem Holds.nil (spool : Bytes) : Holds spool [] [] := by
  constructor
  · rfl
  · intro i chunk hi
    cases hi

theorem Holds.cons {spool data rest : Bytes} {chunk : ChunkDescriptor}
    {chunks : List ChunkDescriptor} (hcopy : copyChunkTo spool chunk = .ok data)
    (h : Holds spool chunks rest) : Holds spool (chunk :: chunks) (data ++ rest) := by
  have hlen := length_of_copyChunkTo hcopy
  constructor
  · rw [List.length_append, hlen, h.length, storedSize_cons]
  · intro i found hi
    cases i with
    | zero =>
      have hfirst : chunk = found := by simpa using hi
      subst hfirst
      have hdata : data = slice spool chunk.dataOffset chunk.dataSize := by
        unfold copyChunkTo at hcopy
        split at hcopy
        · exact (Except.ok.inj hcopy).symm
        · cases hcopy
      have hslice : slice (data ++ rest) 0 chunk.dataSize = slice data 0 chunk.dataSize :=
        slice_append_left (by omega)
      rw [List.take_zero, storedSize_nil, hslice, ← hlen, slice_all, hlen, hdata]
    | succ i =>
      have hi' : chunks[i]? = some found := by simpa using hi
      rw [List.take_succ_cons, storedSize_cons, slice_append_right (by omega), hlen,
        Nat.add_sub_cancel_left]
      exact h.stored i found hi'

/-- The chunks are written one behind the other. -/
theorem copyChunks_spec {spool : Bytes} {chunks : List ChunkDescriptor}
    {out out' : SegmentOutput Kind} (h : copyChunks spool chunks out = .ok out') :
    ∃ data, Holds spool chunks data ∧ out'.bytes = out.bytes ++ data ∧
      out'.descriptors = out.descriptors ∧
      out'.placements = out.placements ++ consecutive out.bytes.length chunks := by
  induction chunks generalizing out with
  | nil =>
    cases h
    exact ⟨[], .nil spool, by simp [consecutive]⟩
  | cons chunk chunks ih =>
    obtain ⟨data, hcopy, hrest⟩ := bind_eq_ok.mp h
    have hlen := length_of_copyChunkTo hcopy
    obtain ⟨rest, hholds, hbytes, hdescriptors, hplacements⟩ := ih hrest
    refine ⟨data ++ rest, hholds.cons hcopy, ?_, hdescriptors, ?_⟩
    · rw [hbytes, SegmentOutput.writeChunk, List.append_assoc]
    · rw [hplacements]
      simp [SegmentOutput.writeChunk, consecutive, hlen]

end EwfImage
