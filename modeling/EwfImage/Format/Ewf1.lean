import EwfImage.Checksum
import EwfImage.Error
import EwfImage.Lib.Slice
import EwfImage.Lib.Word
import Mathlib.Data.Nat.Bitwise

/-!
# EWF1 structures

The fixed-size records of the first format generation. A section type and a
compression marker are kept as their bytes up to the first zero: the source compares
the decoded texts with ASCII names only.

Writing a record and parsing it again is stated beside each record (`parse_sectionDesc`,
`ofRaw_entry`). A field that is absent in the sense of the format, a checksum of zero, passes
its check, as in the source.
-/

namespace EwfImage.Ewf1

open Fallible LittleEndian Slice Word

def evfSignature : Bytes := [0x45, 0x56, 0x46, 0x09, 0x0d, 0x0a, 0xff, 0x00]

def lvfSignature : Bytes := [0x4c, 0x56, 0x46, 0x09, 0x0d, 0x0a, 0xff, 0x00]

def fileHeaderSize : Nat := 13

def sectionDescriptorSize : Nat := 76

def volumeDataSize : Nat := 1052

def smartVolumeSize : Nat := 94

/-- The bytes of an ASCII name. -/
def ascii (name : String) : Bytes := name.toList.map fun c => UInt8.ofNat c.toNat

/-! ## Checksums -/

def validateAdler32ChecksumValue (stored : Nat) (data : Bytes) (label : String) : Result Unit :=
  rejectIf (stored ≠ adler32 data) (.malformed s!"{label} checksum mismatch")

/-- A stored checksum of zero is not checked. -/
def validatePresentAdler32Checksum (data : Bytes) (checksumOffset checksumDataSize : Nat)
    (label : String) : Result Unit :=
  let stored := leAt data checksumOffset 4
  if stored = 0 then .ok ()
  else validateAdler32ChecksumValue stored (data.take checksumDataSize) label

/-- Data followed by its own checksum passes. -/
theorem validatePresentAdler32Checksum_of_bytes (data rest : Bytes) (label : String) {size : Nat}
    (hsize : data.length = size) :
    validatePresentAdler32Checksum (data ++ toLE 4 (adler32 data) ++ rest) size size label =
      .ok () := by
  have hstored : leAt (data ++ toLE 4 (adler32 data) ++ rest) size 4 = adler32 data := by
    have hslice := slice_append_middle data (toLE 4 (adler32 data)) rest
    rw [hsize, length_toLE] at hslice
    rw [leAt, hslice, fromLE_toLE_of_lt]
    exact adler32_lt data
  have htake : (data ++ toLE 4 (adler32 data) ++ rest).take size = data := by
    rw [← hsize, List.append_assoc, List.take_left]
  unfold validatePresentAdler32Checksum
  rw [hstored, htake]
  simp [validateAdler32ChecksumValue]

theorem validatePresentAdler32Checksum_append (data : Bytes) (label : String) {size : Nat}
    (hsize : data.length = size) :
    validatePresentAdler32Checksum (data ++ toLE 4 (adler32 data)) size size label = .ok () := by
  have hpresent := validatePresentAdler32Checksum_of_bytes data [] label hsize
  rw [List.append_nil] at hpresent
  exact hpresent

/-! ## The file header -/

structure FileHeader where
  segmentNumber : Nat
  logical : Bool
  formatMarker : UInt8
  deriving DecidableEq

def FileHeader.parse (buf : Bytes) : Result FileHeader := do
  rejectIf (buf.length < fileHeaderSize) (.bufferTooShort fileHeaderSize buf.length)
  let signature := slice buf 0 8
  rejectIf (signature ≠ evfSignature ∧ signature ≠ lvfSignature) .invalidSignature
  return {
    segmentNumber := leAt buf 9 2
    logical := signature = lvfSignature
    formatMarker := buf.getD 8 0 }

/-! ## Section descriptors -/

structure SectionDescriptor where
  sectionType : Bytes
  next : Nat
  size : Nat
  offset : Nat
  compressionMethod : Option Bytes
  deriving DecidableEq

/-- The bytes up to the first zero. -/
def untilZero (bytes : Bytes) : Bytes := bytes.takeWhile (· ≠ 0)

def SectionDescriptor.parse (buf : Bytes) (offset : Nat) : Result SectionDescriptor := do
  rejectIf (buf.length < sectionDescriptorSize) (.bufferTooShort sectionDescriptorSize buf.length)
  let marker := untilZero (slice buf 32 40)
  return {
    sectionType := untilZero (buf.take 16)
    next := leAt buf 16 8
    size := leAt buf 24 8
    offset
    compressionMethod := if marker = [] then none else some marker }

/-- A section of this type ends the segment. -/
def SectionDescriptor.isTerminal (desc : SectionDescriptor) : Bool :=
  desc.sectionType = ascii "done" || desc.sectionType = ascii "next"

def SectionDescriptor.dataSize (desc : SectionDescriptor) : Result Nat :=
  if desc.size = 0 ∧ desc.isTerminal then .ok 0
  else okOr (.malformed "section is smaller than descriptor")
    (checkedSub desc.size sectionDescriptorSize)

/-- The first 72 bytes of a descriptor. -/
def sectionDescBody (sectionType : Bytes) (next size : Nat) : Bytes :=
  sectionType ++ List.replicate (16 - sectionType.length) 0 ++ toLE 8 next ++ toLE 8 size ++
    List.replicate 40 0

/-- `section_desc`. -/
def sectionDesc (sectionType : Bytes) (next size : Nat) : Bytes :=
  sectionDescBody sectionType next size ++ toLE 4 (adler32 (sectionDescBody sectionType next size))

theorem length_sectionDescBody {sectionType : Bytes} (next size : Nat)
    (h : sectionType.length ≤ 16) : (sectionDescBody sectionType next size).length = 72 := by
  simp only [sectionDescBody, List.length_append, List.length_replicate, length_toLE]
  omega

theorem length_sectionDesc {sectionType : Bytes} (next size : Nat)
    (h : sectionType.length ≤ 16) :
    (sectionDesc sectionType next size).length = sectionDescriptorSize := by
  rw [sectionDesc, List.length_append, length_sectionDescBody next size h, length_toLE]
  rfl

theorem untilZero_append_replicate {name : Bytes} (count : Nat) (h : 0 ∉ name) :
    untilZero (name ++ List.replicate count 0) = name := by
  have hname : ∀ byte ∈ name, byte ≠ 0 := fun byte hbyte heq => h (heq ▸ hbyte)
  rw [untilZero, List.takeWhile_append_of_pos (by simpa using hname)]
  cases count with
  | zero => simp
  | succ count => simp [List.replicate_succ]

/-- The reader finds in a written descriptor what was put into it. -/
theorem parse_sectionDesc {sectionType : Bytes} {next size : Nat} (offset : Nat)
    (hlen : sectionType.length ≤ 16) (hname : 0 ∉ sectionType) (hnext : next < u64Limit)
    (hsize : size < u64Limit) :
    SectionDescriptor.parse (sectionDesc sectionType next size) offset =
      .ok ⟨sectionType, next, size, offset, none⟩ := by
  have hfit : ∀ value, value < u64Limit → fromLE (toLE 8 value) = value :=
    fun value hvalue => fromLE_toLE_of_lt (by simpa [u64Limit] using hvalue)
  have hpadded : (sectionType ++ List.replicate (16 - sectionType.length) (0 : UInt8)).length = 16 := by
    rw [List.length_append, List.length_replicate]
    omega
  generalize hp : sectionType ++ List.replicate (16 - sectionType.length) (0 : UInt8) = padded
    at hpadded
  generalize hc : toLE 4 (adler32 (sectionDescBody sectionType next size)) = checksum
  have hbytes : sectionDesc sectionType next size =
      padded ++ (toLE 8 next ++ (toLE 8 size ++ (List.replicate 40 0 ++ checksum))) := by
    rw [sectionDesc, hc, sectionDescBody, hp]
    simp [List.append_assoc]
  have htype : (sectionDesc sectionType next size).take 16 = padded := by
    rw [hbytes, ← hpadded, List.take_left]
  have hnext' : leAt (sectionDesc sectionType next size) 16 8 = next := by
    have hslice := slice_append_middle padded (toLE 8 next)
      (toLE 8 size ++ (List.replicate 40 0 ++ checksum))
    rw [hpadded, length_toLE, List.append_assoc, ← hbytes] at hslice
    rw [leAt, hslice, hfit next hnext]
  have hsize' : leAt (sectionDesc sectionType next size) 24 8 = size := by
    have hslice := slice_append_middle (padded ++ toLE 8 next) (toLE 8 size)
      (List.replicate 40 0 ++ checksum)
    rw [List.length_append, hpadded, length_toLE, length_toLE, List.append_assoc,
      List.append_assoc, ← hbytes] at hslice
    rw [leAt, hslice, hfit size hsize]
  have hmarker : slice (sectionDesc sectionType next size) 32 40 = List.replicate 40 0 := by
    have hslice := slice_append_middle (padded ++ toLE 8 next ++ toLE 8 size)
      (List.replicate 40 (0 : UInt8)) checksum
    simp only [List.length_append, hpadded, length_toLE, List.length_replicate,
      List.append_assoc] at hslice
    rw [hbytes]
    exact hslice
  have hnone : untilZero (List.replicate 40 0) = [] := by decide
  have hfront : untilZero padded = sectionType := by
    rw [← hp]
    exact untilZero_append_replicate _ hname
  simp only [SectionDescriptor.parse]
  rw [rejectIf_neg _ (by rw [length_sectionDesc next size hlen]; omega), ok_bind, htype, hnext',
    hsize', hmarker, hnone, hfront]
  rfl

/-! ## Table entries -/

structure TableEntry where
  compressed : Bool
  offset : Nat
  raw : Nat
  deriving DecidableEq

def compressedBit : Nat := 0x80000000

/-- `TableEntry::parse` of the four bytes of `raw`. -/
def TableEntry.ofRaw (raw : Nat) : TableEntry where
  compressed := raw &&& compressedBit ≠ 0
  offset := raw &&& 0x7fffffff
  raw

theorem and_compressedBit_of_lt {value : Nat} (h : value < compressedBit) :
    value &&& compressedBit = 0 := by
  have hbit : value.testBit 31 = false := Nat.testBit_lt_two_pow h
  have hand := Nat.and_two_pow value 31
  rw [hbit] at hand
  simpa [compressedBit] using hand

theorem or_compressedBit {value : Nat} (h : value < compressedBit) :
    value ||| compressedBit = value + compressedBit := by
  have hor := Nat.two_pow_add_eq_or_of_lt (i := 31) h 1
  rw [Nat.mul_one] at hor
  rw [Nat.or_comm, Nat.add_comm]
  exact hor.symm

theorem ofRaw_offset {raw : Nat} : (TableEntry.ofRaw raw).offset = raw % compressedBit :=
  Nat.and_two_pow_sub_one_eq_mod raw 31

theorem add_and_compressedBit {value : Nat} (h : value < compressedBit) :
    (value + compressedBit) &&& compressedBit = compressedBit := by
  have hbit : (value + compressedBit).testBit 31 = true := by
    have hflip := Nat.testBit_two_pow_add_eq value 31
    have hlow : value.testBit 31 = false := Nat.testBit_lt_two_pow h
    rw [hlow] at hflip
    rw [Nat.add_comm]
    exact hflip
  have hand := Nat.and_two_pow (value + compressedBit) 31
  rw [hbit] at hand
  simpa [compressedBit] using hand

/-- What the reader makes of the entry of a chunk at `offset`. -/
theorem ofRaw_entry {offset : Nat} (compressed : Bool) (h : offset < compressedBit) :
    (TableEntry.ofRaw (offset + if compressed then compressedBit else 0)).compressed = compressed ∧
      (TableEntry.ofRaw (offset + if compressed then compressedBit else 0)).offset = offset := by
  rw [ofRaw_offset]
  cases compressed with
  | false =>
    constructor
    · simp [TableEntry.ofRaw, and_compressedBit_of_lt h]
    · simpa using Nat.mod_eq_of_lt h
  | true =>
    constructor
    · have hne : compressedBit ≠ 0 := by decide
      simp [TableEntry.ofRaw, add_and_compressedBit h, hne]
    · simpa using Nat.mod_eq_of_lt h

end EwfImage.Ewf1
