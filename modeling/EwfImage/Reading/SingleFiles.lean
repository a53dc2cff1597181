import EwfImage.Reading.Reader

/-!
# Reading files of logical images

A file of a logical image is a list of extents in the media. An entry without extents may refer
to the data of another one; an EWF1 logical image marks entries that repeat one stored byte.

The entries come from the parsed catalog; only the fields that reading looks at are kept. The
reader of the media is a parameter, so that the statements hold for every reader that serves
chunks of the media.
-/

namespace EwfImage.Reading

open Fallible LruCache Word

structure SingleFileExtent where
  dataOffset : Nat
  dataSize : Nat
  /-- Whether the extent reads as zeros. -/
  sparse : Bool
  deriving DecidableEq, Repr

/-- The fields of an entry of the catalog that say where its data is. -/
structure SingleFileEntry where
  flags : Option UInt32
  size : Option Nat
  duplicateDataOffset : Option Int
  extents : List SingleFileExtent
  deriving DecidableEq, Repr

def ewf1LogicalSparseFlag : UInt32 := 0x04000000

def singleFileSize (entry : SingleFileEntry) : Result Nat :=
  match entry.size with
  | some size => .ok size
  | none => entry.extents.foldlM (fun total extent =>
      okOr (.malformed "single file size overflow") (checkedAdd total extent.dataSize)) 0

/-- The buffer with bytes copied to an offset. -/
def overwrite (buf : Bytes) (offset : Nat) (bytes : Bytes) : Bytes :=
  buf.take offset ++ bytes ++ buf.drop (offset + bytes.length)

namespace Image

variable (image : Image)

/-- The entry repeats one stored byte. -/
def ewf1LogicalSparse (entry : SingleFileEntry) : Bool :=
  image.format = .ewf1 ∧ (image.formatProfile = .logicalEnCase5 ∨
    image.formatProfile = .logicalEnCase6 ∨ image.formatProfile = .logicalEnCase7) ∧
    entry.flags.any (· &&& ewf1LogicalSparseFlag ≠ 0)

/-- The place of the data that the entry refers to. -/
def duplicateData (entry : SingleFileEntry) : Option Nat :=
  if entry.extents = [] ∨ image.ewf1LogicalSparse entry then
    (entry.duplicateDataOffset.filter (0 ≤ ·)).map Int.toNat
  else none

end Image

variable {lru : Interface}

section Reads

-- `read_at_impl` of the image, strict or not
variable (readAt : Nat → Nat → Read lru Bytes)

/-- A read of the media that must not be cut short. -/
def readWhole (length offset : Nat) (truncated : String) : Read lru Bytes := do
  let read ← readAt length offset
  if read.length ≠ length then fail (.malformed truncated) else return read

/-- The loop over the extents; the result is the number of copied bytes and the buffer. -/
def readExtents (offset toRead : Nat) :
    List SingleFileExtent → Nat → Nat → Bytes → Read lru (Nat × Bytes)
  | [], _, copied, buf => return (copied, buf)
  | extent :: extents, extentStart, copied, buf => do
    let extentEnd ← fromResult (okOr (.malformed "single file extent range overflow")
      (checkedAdd extentStart extent.dataSize))
    let readStart := max offset extentStart
    let readEnd := min (offset + toRead) extentEnd
    if readEnd ≤ readStart then readExtents offset toRead extents extentEnd copied buf
    else do
      let extentRelativeOffset := readStart - extentStart
      let outputOffset := readStart - offset
      let readSize := readEnd - readStart
      if extent.sparse then
        readExtents offset toRead extents extentEnd (copied + readSize)
          (overwrite buf outputOffset (List.replicate readSize 0))
      else do
        let imageOffset ← fromResult (okOr (.malformed "single file extent data offset overflow")
          (checkedAdd extent.dataOffset extentRelativeOffset))
        let read ← readWhole readAt readSize imageOffset "single file extent read was truncated"
        readExtents offset toRead extents extentEnd (copied + readSize)
          (overwrite buf outputOffset read)

/-- The data of another entry. -/
def readDuplicateData (duplicateDataOffset toRead : Nat) (buf : Bytes) (offset : Nat) :
    Read lru (Nat × Bytes) := do
  let imageOffset ← fromResult (okOr (.malformed "single file duplicate data offset overflow")
    (checkedAdd duplicateDataOffset offset))
  let read ← readWhole readAt toRead imageOffset "single file duplicate data read was truncated"
  return (toRead, overwrite buf 0 read)

/-- The stored byte of an entry that repeats one. -/
def storedByte (entry : SingleFileEntry) : Option SingleFileExtent :=
  entry.extents.head?.filter fun extent => !extent.sparse ∧ 1 ≤ extent.dataSize

def readRepeatedByte (entry : SingleFileEntry) (toRead : Nat) (buf : Bytes) :
    Read lru (Nat × Bytes) := do
  let extent ← fromResult (okOr (.malformed "single file sparse entry has no stored byte")
    (storedByte entry))
  let byte ← readWhole readAt 1 extent.dataOffset
    "single file sparse entry stored byte was truncated"
  return (toRead, overwrite buf 0 (List.replicate toRead (byte.getD 0 0)))

def readCoveringExtents (entry : SingleFileEntry) (toRead : Nat) (buf : Bytes) (offset : Nat) :
    Read lru (Nat × Bytes) := do
  let (copied, buf) ← readExtents readAt offset toRead entry.extents 0 0 buf
  if copied ≠ toRead then fail (.malformed "single file extents do not cover requested range")
  else return (copied, buf)

variable (image : Image)

def readSingleFileAtImpl (entry : SingleFileEntry) (buf : Bytes) (offset : Nat) :
    Read lru (Nat × Bytes) := do
  ensureNotAborted
  if buf = [] then return (0, buf)
  else do
    let fileSize ← fromResult (singleFileSize entry)
    if fileSize ≤ offset then return (0, buf)
    else do
      let toRead := min buf.length (fileSize - offset)
      match image.duplicateData entry with
      | some duplicateDataOffset => readDuplicateData readAt duplicateDataOffset toRead buf offset
      | none =>
        if image.ewf1LogicalSparse entry then readRepeatedByte readAt entry toRead buf
        else readCoveringExtents readAt entry toRead buf offset

end Reads

/-- `read_single_file_at`: the number of copied bytes and the buffer behind it. -/
def readSingleFileAt (codec : Codec) (image : Image) (entry : SingleFileEntry) (buf : Bytes)
    (offset : Nat) : Read lru (Nat × Bytes) :=
  readSingleFileAtImpl (readAt codec image) image entry buf offset

end EwfImage.Reading
