import EwfImage.Decode
import EwfImage.Format.Ewf1
import EwfImage.Format.Ewf2

/-!
# How a stored chunk is encoded

The reader derives a chunk's encoding from its table entry, its stored size and
the compression method the image declares. It bounds the stored size by the encoding,
and where it expects a checksum behind a raw chunk it compares it with the chunk.

The functions are shared by the reader of images, by recovery and by the statements about
writers, so that "the reader accepts" always means these checks. A stored size outside of the
bound is an error with the text of the source, and not a wrong decoding.
-/

namespace EwfImage

open Fallible Slice Word

def methodName : CompressionMethod → String
  | .none => "None"
  | .zlib => "Zlib"
  | .zstd => "Zstd"
  | .bzip2 => "Bzip2"
  | .unknown value =>
    let value := value.toNat
    s!"Unknown({value})"

/-- The encoding of an EWF1 chunk. A raw entry whose stored size only a zlib stream can have is
read as zlib. -/
def ewf1ChunkEncoding (entryCompressed : Bool) (encodedSize chunkSize : Nat)
    (compressionMethod : CompressionMethod) : Result ChunkEncoding :=
  if entryCompressed then
    match compressionMethod with
    | .zlib => .ok .zlib
    | .zstd => .ok .zstd
    | method =>
      let method := methodName method
      .error (.unsupported s!"unsupported EWF1 compression method {method}")
  else if compressionMethod = .zlib then do
    let rawCap ← rawChunkSizeCap chunkSize
    if rawCap < encodedSize then do
      let zlibCap ← zlibCompressedChunkSizeCap chunkSize
      return if encodedSize ≤ zlibCap then .zlib else .raw
    else return .raw
  else .ok .raw

/-- The encoding of an EWF2 chunk; the offset field of a pattern entry is the pattern. -/
def ewf2ChunkEncoding (kind : Ewf2.ChunkKind) (chunkDataOffset : UInt64) : Result ChunkEncoding :=
  match kind with
  | .raw | .compressed .none => .ok .raw
  | .compressed .zlib => .ok .zlib
  | .compressed .bzip2 => .ok .bzip2
  | .compressed (.unknown method) =>
    let method := method.toNat
    .error (.unsupported s!"unknown EWF2 compression method {method}")
  | .patternFill => .ok (.patternFill chunkDataOffset)

def validateEwf1EncodedSize (encodedSize chunkSize : Nat) (encoding : ChunkEncoding)
    (allowLargeCompressedChunks : Bool) : Result Unit :=
  if encoding = .zlib then do
    let standardMaximum ← zlibCompressedChunkSizeCap chunkSize
    if ¬ allowLargeCompressedChunks ∧ encodedSize ≤ standardMaximum then
      validateEncodedSize encodedSize chunkSize encoding
    else do
      rejectIf (encodedSize = 0) (.malformed "chunk data size is zero")
      let maximum ← okOr (.malformed "EWF1 chunk size cap overflow") (checkedMul chunkSize 2)
      rejectIf (maximum < encodedSize)
        (.malformed s!"EWF1 compressed chunk size {encodedSize} exceeds maximum {maximum}")
  else validateEncodedSize encodedSize chunkSize encoding

def validateRawChunkChecksum (encoded : Bytes) (logicalSize : Nat) : Result Unit := do
  rejectIf (encoded.length < logicalSize + 4) (.malformed "raw chunk checksum trailer is missing")
  Ewf1.validateAdler32ChecksumValue (leAt encoded logicalSize 4) (encoded.take logicalSize)
    "raw chunk"

/-- The bytes of the media that chunk `chunkId` holds. -/
def logicalChunkSize (logicalSize chunkSize chunkId : Nat) : Result Nat := do
  let logicalOffset ← okOr (.malformed "logical chunk offset overflow")
    (checkedMul chunkId chunkSize)
  return min (logicalSize - logicalOffset) chunkSize

theorem validateEncodedSize_pos {encodedSize chunkSize : Nat} {encoding : ChunkEncoding}
    (hpattern : ∀ pattern, encoding ≠ .patternFill pattern)
    (h : validateEncodedSize encodedSize chunkSize encoding = .ok ()) : 0 < encodedSize := by
  unfold validateEncodedSize at h
  cases encoding with
  | patternFill pattern => exact absurd rfl (hpattern pattern)
  | _ =>
    simp only [encodedSizeCap, bind_eq_ok, rejectIf_eq_ok] at h
    obtain ⟨_, hne, _⟩ := h
    exact Nat.pos_of_ne_zero hne

theorem validateEwf1EncodedSize_pos {encodedSize chunkSize : Nat} {encoding : ChunkEncoding}
    {allowLarge : Bool} (hpattern : ∀ pattern, encoding ≠ .patternFill pattern)
    (h : validateEwf1EncodedSize encodedSize chunkSize encoding allowLarge = .ok ()) :
    0 < encodedSize := by
  unfold validateEwf1EncodedSize at h
  split at h
  · obtain ⟨_, _, h⟩ := bind_eq_ok.mp h
    split at h
    · exact validateEncodedSize_pos hpattern h
    · simp only [bind_eq_ok, rejectIf_eq_ok] at h
      obtain ⟨_, hne, _⟩ := h
      exact Nat.pos_of_ne_zero hne
  · exact validateEncodedSize_pos hpattern h

theorem ewf1ChunkEncoding_raw {chunkSize encodedSize : Nat} (hcap : chunkSize + 4 < u64Limit)
    (h : encodedSize ≤ chunkSize + 4) :
    ewf1ChunkEncoding false encodedSize chunkSize .zlib = .ok .raw := by
  have hnot : ¬ chunkSize + 4 < encodedSize := by omega
  simp [ewf1ChunkEncoding, rawChunkSizeCap, checkedAdd_of_lt hcap, hnot]

end EwfImage
