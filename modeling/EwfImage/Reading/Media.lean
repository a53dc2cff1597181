import EwfImage.Reading.Strict

/-!
# The media of an image

The media is the concatenation of the strictly decoded chunks, cut to the media size.
A chunk that cannot be decoded takes its place in it with zeros, so that the chunks
behind it keep theirs; no read returns them unless the chunk decodes.

`slice_mediaChunk` is what the readers use: a range inside of one chunk is the range of the
decoded bytes. The media of an image is defined without any cache and without the policy of
zeros, so it does not depend on what was read before.
-/

namespace EwfImage.Reading

open Fallible Slice Word

namespace Image

variable (codec : Codec) (image : Image)

/-- The bytes of a chunk of the media. -/
def chunkLength (chunkId : Nat) : Nat :=
  min (image.logicalSize - chunkId * image.chunkSize) image.chunkSize

def Decodes (chunkId : Nat) : Prop := ∃ decoded, image.strictChunk codec chunkId = .ok decoded

def mediaChunk (chunkId : Nat) : Bytes :=
  match image.strictChunk codec chunkId with
  | .ok decoded => decoded
  | .error _ => List.replicate (image.chunkLength chunkId) 0

def media : Bytes :=
  ((List.range image.index.logicalChunks).flatMap (image.mediaChunk codec)).take image.logicalSize

/-- A read of `length` bytes at `offset` needs the chunk. -/
def Touches (length offset chunkId : Nat) : Prop :=
  ∃ position, offset ≤ position ∧ position < offset + length ∧ position < image.logicalSize ∧
    position / image.chunkSize = chunkId

variable {codec : Codec} {image : Image} {chunkId : Nat}

theorem chunkSize_pos (image : Image) : 0 < image.chunkSize := by
  have hchunks := image.chunks
  simp only [logicalChunkCount, bind_eq_ok, rejectIf_eq_ok] at hchunks
  obtain ⟨_, hpos, -⟩ := hchunks
  omega

theorem logicalChunks_eq (image : Image) : image.index.logicalChunks =
    if image.logicalSize = 0 then 0 else (image.logicalSize - 1) / image.chunkSize + 1 := by
  have hchunks := image.chunks
  simp only [logicalChunkCount, bind_eq_ok, rejectIf_eq_ok, pure_eq_ok, Except.ok.injEq] at hchunks
  obtain ⟨_, -, hcount⟩ := hchunks
  exact hcount.symm

/-- Every position of the media lies in a chunk. -/
theorem lt_logicalChunks {position : Nat} (h : position < image.logicalSize) :
    position / image.chunkSize < image.index.logicalChunks := by
  rw [image.logicalChunks_eq, if_neg (by omega)]
  have hle : position / image.chunkSize ≤ (image.logicalSize - 1) / image.chunkSize :=
    Nat.div_le_div_right (by omega)
  omega

theorem logicalSize_le (image : Image) :
    image.logicalSize ≤ image.index.logicalChunks * image.chunkSize := by
  rw [image.logicalChunks_eq]
  by_cases hempty : image.logicalSize = 0
  · omega
  · rw [if_neg hempty]
    have hlt := Nat.lt_div_mul_add (a := image.logicalSize - 1) image.chunkSize_pos
    rw [Nat.add_mul]
    omega

theorem strictLookup_logicalSize {chunk : Chunk} (h : image.strictLookup chunkId = .ok chunk) :
    chunk.logicalSize = image.chunkLength chunkId := by
  simp only [strictLookup, bind_eq_ok] at h
  obtain ⟨range, -, localIndex, -, logicalSize, hsize, h⟩ := h
  have hlogical : logicalSize = image.chunkLength chunkId := by
    simp only [logicalChunkSize, bind_eq_ok, okOr_eq_ok, checkedMul_eq_some, pure_eq_ok,
      Except.ok.injEq] at hsize
    obtain ⟨_, ⟨-, rfl⟩, rfl⟩ := hsize
    rfl
  cases hkind : range.kind with
  | ewf1 =>
    simp only [hkind, lookupEwf1Chunk, ewf1Chunk, bind_eq_ok, pure_eq_ok, Except.ok.injEq] at h
    obtain ⟨_, -, _, -, _, -, _, -, _, -, _, -, _, -, _, -, _, -, rfl⟩ := h
    exact hlogical
  | ewf2 =>
    simp only [hkind, lookupEwf2Chunk, bind_eq_ok, pure_eq_ok, Except.ok.injEq] at h
    obtain ⟨_, -, _, -, _, -, rfl⟩ := h
    exact hlogical

theorem length_of_decodeChunk {chunk : Chunk} {decoded : Bytes}
    (h : image.decodeChunk codec chunkId chunk = .ok decoded) : decoded.length = chunk.logicalSize := by
  simp only [decodeChunk, bind_eq_ok] at h
  obtain ⟨_, -, _, -, hdecoded⟩ := h
  exact length_of_decodeChunkWithPadding hdecoded

theorem length_of_strictChunk {decoded : Bytes} (h : image.strictChunk codec chunkId = .ok decoded) :
    decoded.length = image.chunkLength chunkId := by
  obtain ⟨chunk, hlookup, hdecode⟩ := bind_eq_ok.mp h
  rw [length_of_decodeChunk hdecode, strictLookup_logicalSize hlookup]

theorem length_mediaChunk (codec : Codec) (image : Image) (chunkId : Nat) :
    (image.mediaChunk codec chunkId).length = image.chunkLength chunkId := by
  unfold mediaChunk
  cases hchunk : image.strictChunk codec chunkId with
  | ok decoded => exact length_of_strictChunk hchunk
  | error e => exact List.length_replicate

theorem length_mediaChunk_le (codec : Codec) (image : Image) (chunkId : Nat) :
    (image.mediaChunk codec chunkId).length ≤ image.chunkSize :=
  length_mediaChunk codec image chunkId ▸ Nat.min_le_right _ _

theorem mediaChunk_of_ok {decoded : Bytes} (h : image.strictChunk codec chunkId = .ok decoded) :
    image.mediaChunk codec chunkId = decoded := by
  rw [mediaChunk, h]

/-- The chunks are as long as the media, so that nothing is cut. -/
theorem media_eq (codec : Codec) (image : Image) : image.media codec =
    (List.range image.index.logicalChunks).flatMap (image.mediaChunk codec) := by
  refine List.take_of_length_le ?_
  rw [length_flatMap_range fun id _ => length_mediaChunk codec image id]
  exact Nat.min_le_left _ _

theorem length_media (codec : Codec) (image : Image) :
    (image.media codec).length = image.logicalSize := by
  rw [media_eq, length_flatMap_range fun id _ => length_mediaChunk codec image id]
  exact Nat.min_eq_left image.logicalSize_le

/-- A part of a chunk is a part of the media. -/
theorem slice_mediaChunk {offset size : Nat} (hid : chunkId < image.index.logicalChunks)
    (hfits : offset + size ≤ image.chunkSize) :
    slice (image.mediaChunk codec chunkId) offset size =
      slice (image.media codec) (chunkId * image.chunkSize + offset) size := by
  rw [media_eq, ← slice_slice hfits,
    slice_flatMap_range (fun id _ => length_mediaChunk codec image id) hid]

theorem touches_of_position {length offset position : Nat} (hge : offset ≤ position)
    (hlt : position < offset + min (image.logicalSize - offset) length)
    (hoffset : offset < image.logicalSize) :
    image.Touches length offset (position / image.chunkSize) :=
  ⟨position, hge, by omega, by omega, rfl⟩

end Image

end EwfImage.Reading
