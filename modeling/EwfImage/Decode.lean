import EwfImage.Error
import EwfImage.Types
import EwfImage.Lib.LittleEndian
import EwfImage.Lib.Word
import Mathlib.Tactic.Ring

/-!
# Chunk decoding

The compression libraries are a parameter. A decoder is the stream it delivers:
the bytes it produces and the failure, if any, that follows them; reading at most
`limit` bytes from it fails only when the failure comes before the limit.

The main results say that a chunk which decodes to its size decodes to the same bytes with more
room (`decodeChunkWithPadding_larger`), and never to another size. `Codec.Lawful` is the
assumption that the decoders invert the encoders; it is named wherever it is used.
-/

namespace EwfImage

open Fallible LittleEndian Word

/-- What a streaming decompressor delivers on one input. -/
structure DecoderStream where
  output : Bytes
  failure : Option String

/-- Reading at most `limit` bytes of the stream to its end. -/
def DecoderStream.readToEnd (stream : DecoderStream) (limit : Nat) : Result Bytes :=
  if limit ≤ stream.output.length then .ok (stream.output.take limit)
  else match stream.failure with
    | none => .ok stream.output
    | some err => .error (.malformed s!"chunk decompression failed: {err}")

inductive WriteCompressionLevel
  | default
  | none
  | fast
  | best
  deriving DecidableEq, Repr

/-- The compression libraries: two encoders with a level, and three decoders, each of which turns
its input into a stream that delivers bytes and may end with a fault. -/
structure Codec where
  zlibEncode : WriteCompressionLevel → Bytes → Bytes
  bzip2Encode : WriteCompressionLevel → Bytes → Bytes
  zlibDecoder : Bytes → DecoderStream
  bzip2Decoder : Bytes → DecoderStream
  /-- The Zstandard decoder for a window limit, which can fail to start. -/
  zstdDecoder : Nat → Bytes → Except String DecoderStream

/-- What is relied on of the compression libraries: what an encoder writes at any level, its decoder
delivers as it was, without a fault behind it. -/
structure Codec.Lawful (codec : Codec) : Prop where
  zlib : ∀ level data, codec.zlibDecoder (codec.zlibEncode level data) = ⟨data, .none⟩
  bzip2 : ∀ level data, codec.bzip2Decoder (codec.bzip2Encode level data) = ⟨data, .none⟩

inductive ChunkEncoding
  | raw
  | zlib
  | zstd
  | bzip2
  | patternFill (pattern : UInt64)
  deriving DecidableEq

def minZstdWindowLimit : Nat := 128 * 1024

def decodeCompressed (reader : DecoderStream) (logicalSize maximumDecodedSize : Nat) :
    Result Bytes := do
  let limit ← okOr (.malformed "logical chunk size overflow") (checkedAdd maximumDecodedSize 1)
  let decoded ← reader.readToEnd limit
  let actual := decoded.length
  let expected := if logicalSize = maximumDecodedSize then s!"{logicalSize}"
    else s!"between {logicalSize} and {maximumDecodedSize}"
  rejectIf (decoded.length < logicalSize ∨ maximumDecodedSize < decoded.length)
    (.malformed s!"decoded chunk has {actual} bytes, expected {expected}")
  return decoded.take logicalSize

def decodeXwaysZstd (codec : Codec) (encoded : Bytes) (logicalSize maximumDecodedSize : Nat) :
    Result Bytes :=
  if encoded = [0] then .ok (List.replicate logicalSize 0)
  else match encoded with
    | [marker] =>
      let digits := hexByte marker
      .error (.malformed s!"invalid X-Ways zero chunk marker 0x{digits}")
    | _ => do
      let framed := [0x28, 0xb5, 0x2f, 0xfd] ++ encoded
      let reader ← (codec.zstdDecoder (max maximumDecodedSize minZstdWindowLimit) framed).mapError
        fun err => .malformed s!"chunk Zstandard decoder initialization failed: {err}"
      decodeCompressed reader logicalSize maximumDecodedSize
where
  hexByte (value : UInt8) : String :=
    String.ofList [Nat.digitChar (value.toNat / 16), Nat.digitChar (value.toNat % 16)]

/-- The little-endian bytes of `pattern`, repeated over `logicalSize` bytes. -/
def patternFill (pattern : UInt64) (logicalSize : Nat) : Bytes :=
  (List.range logicalSize).map fun i => (toLE 8 pattern.toNat).getD (i % 8) 0

def decodeChunkWithPadding (codec : Codec) (encoded : Bytes) (encoding : ChunkEncoding)
    (logicalSize maximumDecodedSize : Nat) : Result Bytes := do
  rejectIf (maximumDecodedSize < logicalSize) (.malformed "decoded chunk size bound is too small")
  match encoding with
  | .raw =>
    let actual := encoded.length
    rejectIf (encoded.length < logicalSize)
      (.malformed s!"raw chunk has {actual} bytes, expected at least {logicalSize}")
    return encoded.take logicalSize
  | .zlib => decodeCompressed (codec.zlibDecoder encoded) logicalSize maximumDecodedSize
  | .zstd => decodeXwaysZstd codec encoded logicalSize maximumDecodedSize
  | .bzip2 => decodeCompressed (codec.bzip2Decoder encoded) logicalSize maximumDecodedSize
  | .patternFill pattern => return patternFill pattern logicalSize

def decodeChunk (codec : Codec) (encoded : Bytes) (encoding : ChunkEncoding) (logicalSize : Nat) :
    Result Bytes :=
  decodeChunkWithPadding codec encoded encoding logicalSize logicalSize

/-! ## Stored sizes -/

def zlibCompressedChunkSizeCap (chunkSize : Nat) : Result Nat := do
  let overflow : EwfError := .malformed "zlib compressed chunk size cap overflow"
  let bound ← okOr overflow (checkedAdd chunkSize (chunkSize >>> 12))
  let bound ← okOr overflow (checkedAdd bound (chunkSize >>> 14))
  let bound ← okOr overflow (checkedAdd bound (chunkSize >>> 25))
  let compressBound ← okOr overflow (checkedAdd bound 13)
  let rounded ← okOr (.malformed "zlib stored block count overflow") (checkedAdd chunkSize 511)
  let storedOverflow : EwfError := .malformed "zlib stored block cap overflow"
  let headers ← okOr storedOverflow (checkedMul (rounded / 512) 5)
  let stored ← okOr storedOverflow (checkedAdd chunkSize headers)
  let storedBound ← okOr storedOverflow (checkedAdd stored 6)
  return max compressBound storedBound

def zstdCompressedChunkSizeCap (chunkSize : Nat) : Result Nat :=
  okOr (.malformed "Zstandard compressed chunk size cap overflow") (checkedMul chunkSize 2)

def bzip2CompressedChunkSizeCap (chunkSize : Nat) : Result Nat := do
  let overflow : EwfError := .malformed "BZip2 compressed chunk size cap overflow"
  let bound ← okOr overflow (checkedAdd chunkSize (chunkSize / 100))
  okOr overflow (checkedAdd bound 4096)

def rawChunkSizeCap (chunkSize : Nat) : Result Nat :=
  okOr (.malformed "raw chunk size cap overflow") (checkedAdd chunkSize 4)

/-- The largest stored size of a chunk, absent for a pattern fill, which stores nothing. -/
def encodedSizeCap (chunkSize : Nat) : ChunkEncoding → Option (Result Nat)
  | .raw => some (rawChunkSizeCap chunkSize)
  | .zlib => some (zlibCompressedChunkSizeCap chunkSize)
  | .zstd => some (zstdCompressedChunkSizeCap chunkSize)
  | .bzip2 => some (bzip2CompressedChunkSizeCap chunkSize)
  | .patternFill _ => none

def validateEncodedSize (encodedSize chunkSize : Nat) (encoding : ChunkEncoding) : Result Unit :=
  match encodedSizeCap chunkSize encoding with
  | none => .ok ()
  | some computeCap => do
    rejectIf (encodedSize = 0) (.malformed "chunk data size is zero")
    let cap ← computeCap
    rejectIf (cap < encodedSize)
      (.malformed s!"encoded chunk size {encodedSize} exceeds maximum {cap}")

/-! ## Decoding by cases -/

@[simp] theorem length_patternFill (pattern : UInt64) (size : Nat) :
    (patternFill pattern size).length = size := by
  simp [patternFill]

theorem rawChunkSizeCap_eq_ok {chunkSize cap : Nat} :
    rawChunkSizeCap chunkSize = .ok cap ↔ chunkSize + 4 < u64Limit ∧ chunkSize + 4 = cap := by
  simp [rawChunkSizeCap]

theorem decodeChunk_patternFill (codec : Codec) (encoded : Bytes) (pattern : UInt64) (size : Nat) :
    decodeChunk codec encoded (.patternFill pattern) size = .ok (patternFill pattern size) := by
  simp [decodeChunk, decodeChunkWithPadding]

/-- A complete stream decodes to its whole output. -/
theorem decodeCompressed_complete {data : Bytes} {maximum : Nat} (hmax : maximum + 1 < u64Limit)
    (hlen : data.length ≤ maximum) :
    decodeCompressed ⟨data, none⟩ data.length maximum = .ok data := by
  have hread : DecoderStream.readToEnd ⟨data, none⟩ (maximum + 1) = .ok data := by
    simp only [DecoderStream.readToEnd]
    rw [if_neg (by omega)]
  simp [decodeCompressed, checkedAdd_of_lt hmax, hread, hlen]

theorem length_of_decodeCompressed {reader : DecoderStream} {size maximum : Nat} {data : Bytes}
    (h : decodeCompressed reader size maximum = .ok data) : data.length = size := by
  simp only [decodeCompressed, bind_eq_ok, okOr_eq_ok, checkedAdd_eq_some, rejectIf_eq_ok,
    pure_eq_ok, Except.ok.injEq] at h
  obtain ⟨_, _, decoded, _, _, hsize, rfl⟩ := h
  rw [List.length_take]
  omega

/-- What decodes into a buffer of its size decodes into a larger one. -/
theorem decodeCompressed_larger {reader : DecoderStream} {size maximum : Nat} {data : Bytes}
    (h : decodeCompressed reader size size = .ok data) (hsize : size ≤ maximum)
    (hmax : maximum + 1 < u64Limit) : decodeCompressed reader size maximum = .ok data := by
  simp only [decodeCompressed, bind_eq_ok, okOr_eq_ok, checkedAdd_eq_some, rejectIf_eq_ok,
    pure_eq_ok, Except.ok.injEq] at h
  obtain ⟨_, ⟨_, rfl⟩, decoded, hread, _, hlength, rfl⟩ := h
  unfold DecoderStream.readToEnd at hread
  by_cases hlong : size + 1 ≤ reader.output.length
  · rw [if_pos hlong] at hread
    cases hread
    rw [List.length_take] at hlength
    omega
  · rw [if_neg hlong] at hread
    cases hfailure : reader.failure with
    | some err =>
      rw [hfailure] at hread
      cases hread
    | none =>
      rw [hfailure] at hread
      cases hread
      have hcomplete : reader = ⟨reader.output, none⟩ := by rw [← hfailure]
      have hexact : reader.output.length = size := by omega
      rw [hcomplete, ← hexact, decodeCompressed_complete hmax (by omega), List.take_length]

theorem decodeChunkWithPadding_larger {codec : Codec} {encoded data : Bytes}
    {encoding : ChunkEncoding} {size maximum : Nat} (hzstd : encoding ≠ .zstd)
    (h : decodeChunk codec encoded encoding size = .ok data) (hsize : size ≤ maximum)
    (hmax : maximum + 1 < u64Limit) :
    decodeChunkWithPadding codec encoded encoding size maximum = .ok data := by
  obtain ⟨_, _, h⟩ := bind_eq_ok.mp h
  unfold decodeChunkWithPadding
  rw [rejectIf_neg _ (Nat.not_lt_of_le hsize), ok_bind]
  cases encoding with
  | raw => exact h
  | zlib => exact decodeCompressed_larger h hsize hmax
  | zstd => exact absurd rfl hzstd
  | bzip2 => exact decodeCompressed_larger h hsize hmax
  | patternFill pattern => exact h

/-- A decoded chunk has the logical size it was decoded for. -/
theorem length_of_decodeChunkWithPadding {codec : Codec} {encoded data : Bytes}
    {encoding : ChunkEncoding} {size maximum : Nat}
    (h : decodeChunkWithPadding codec encoded encoding size maximum = .ok data) :
    data.length = size := by
  obtain ⟨_, _, h⟩ := bind_eq_ok.mp h
  cases encoding with
  | raw =>
    obtain ⟨_, hsize, h⟩ := bind_eq_ok.mp h
    rw [rejectIf_eq_ok] at hsize
    cases h
    rw [List.length_take]
    omega
  | zlib => exact length_of_decodeCompressed h
  | zstd =>
    have hz : decodeXwaysZstd codec encoded size maximum = .ok data := h
    unfold decodeXwaysZstd at hz
    split at hz
    · cases hz
      simp
    · split at hz
      · cases hz
      · obtain ⟨reader, _, hdecode⟩ := bind_eq_ok.mp hz
        exact length_of_decodeCompressed hdecode
  | bzip2 => exact length_of_decodeCompressed h
  | patternFill pattern =>
    cases h
    simp

theorem length_of_decodeChunk {codec : Codec} {encoded data : Bytes} {encoding : ChunkEncoding}
    {size : Nat} (h : decodeChunk codec encoded encoding size = .ok data) : data.length = size :=
  length_of_decodeChunkWithPadding h

end EwfImage
