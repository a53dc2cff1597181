import EwfImage.Checksum
import EwfImage.Error
import EwfImage.Types
import EwfImage.Lib.Slice
import EwfImage.Lib.Word

/-!
# EWF2 structures

The fixed-size records of the second format generation: the file header, section
descriptors, the header of a chunk table, its entries and the flags that select how
a chunk is stored. What the writer puts into a record is next to what the reader
takes out of it.

A section type and a compression method that the source does not know keep their numbers, so
that a value is written as it was read. The checksum of a record is checked on parsing, and an
absent one is no error only where the source says so.
-/

namespace EwfImage.Ewf2

open Fallible LittleEndian Slice Word

def ex01Signature : Bytes := [0x45, 0x56, 0x46, 0x32, 0x0d, 0x0a, 0x81, 0x00]

def lef2Signature : Bytes := [0x4c, 0x45, 0x46, 0x32, 0x0d, 0x0a, 0x81, 0x00]

def fileHeaderSize : Nat := 32

def sectionDescriptorSize : Nat := 64

def tableHeaderSize : Nat := 20

def tableHeaderV2Size : Nat := 32

def tableFooterSize : Nat := 16

inductive CompressionMethod
  | none
  | zlib
  | bzip2
  | unknown (value : UInt16)
  deriving DecidableEq

def CompressionMethod.ofU16 (value : UInt16) : CompressionMethod :=
  if value = 0 then .none
  else if value = 1 then .zlib
  else if value = 2 then .bzip2
  else .unknown value

/-- `compression_method_code`. -/
def CompressionMethod.toU16 : CompressionMethod → UInt16
  | .none => 0
  | .zlib => 1
  | .bzip2 => 2
  | .unknown value => value

/-! ## The file header -/

structure FileHeader where
  majorVersion : UInt8
  minorVersion : UInt8
  compressionMethod : CompressionMethod
  segmentNumber : Nat
  setIdentifier : Bytes
  logical : Bool
  deriving DecidableEq

def FileHeader.parse (buf : Bytes) : Result FileHeader := do
  rejectIf (buf.length < fileHeaderSize) (.bufferTooShort fileHeaderSize buf.length)
  let signature := slice buf 0 8
  rejectIf (signature ≠ ex01Signature ∧ signature ≠ lef2Signature) .invalidSignature
  return {
    majorVersion := buf.getD 8 0
    minorVersion := buf.getD 9 0
    compressionMethod := .ofU16 (UInt16.ofNat (leAt buf 10 2))
    segmentNumber := leAt buf 12 4
    setIdentifier := slice buf 16 16
    logical := signature = lef2Signature }

/-! ## Section descriptors -/

inductive SectionType
  | deviceInformation
  | caseData
  | sectorData
  | sectorTable
  | errorTable
  | sessionTable
  | incrementData
  | md5Hash
  | sha1Hash
  | restartData
  | encryptionKeys
  | memoryExtentsTable
  | next
  | finalInformation
  | done
  | analyticalData
  | singleFilesData
  | singleFilesTable
  | singleFilesMd5HashTable
  | singleFilesUnknownTable
  | unknown (value : Nat)
  deriving DecidableEq

namespace SectionType

def code : SectionType → Nat
  | deviceInformation => 0x01
  | caseData => 0x02
  | sectorData => 0x03
  | sectorTable => 0x04
  | errorTable => 0x05
  | sessionTable => 0x06
  | incrementData => 0x07
  | md5Hash => 0x08
  | sha1Hash => 0x09
  | restartData => 0x0a
  | encryptionKeys => 0x0b
  | memoryExtentsTable => 0x0c
  | next => 0x0d
  | finalInformation => 0x0e
  | done => 0x0f
  | analyticalData => 0x10
  | singleFilesData => 0x20
  | singleFilesTable => 0x21
  | singleFilesMd5HashTable => 0x22
  | singleFilesUnknownTable => 0x23
  | unknown value => value

/-- The types that have a name. -/
def named : List SectionType :=
  [deviceInformation, caseData, sectorData, sectorTable, errorTable, sessionTable, incrementData,
    md5Hash, sha1Hash, restartData, encryptionKeys, memoryExtentsTable, next, finalInformation,
    done, analyticalData, singleFilesData, singleFilesTable, singleFilesMd5HashTable,
    singleFilesUnknownTable]

def ofNat (value : Nat) : SectionType :=
  (named.find? (·.code = value)).getD (unknown value)

def isUnknown : SectionType → Bool
  | unknown _ => true
  | _ => false

def isTerminal : SectionType → Bool
  | done | next => true
  | _ => false

theorem ofNat_code {sectionType : SectionType} (h : sectionType.isUnknown = false) :
    ofNat sectionType.code = sectionType := by
  cases sectionType with
  | unknown _ => cases h
  | _ => rfl

theorem code_lt {sectionType : SectionType} (h : sectionType.isUnknown = false) :
    sectionType.code < 0x24 := by
  cases sectionType with
  | unknown _ => cases h
  | _ => decide

/-- A value beyond the codes of the named types is unknown. -/
theorem isUnknown_ofNat {value : Nat} (h : ∀ named : SectionType, named.isUnknown = false →
    named.code ≠ value) : (ofNat value).isUnknown = true := by
  have hnone : named.find? (·.code = value) = none := by
    rw [List.find?_eq_none]
    intro sectionType hmem
    have hknown : sectionType.isUnknown = false := by
      revert sectionType
      decide
    simpa using h sectionType hknown
  rw [ofNat, hnone]
  rfl

end SectionType

def dataFlagIntegrityHash : Nat := 0x1

def dataFlagEncrypted : Nat := 0x2

structure SectionDescriptor where
  sectionType : SectionType
  dataFlags : Nat
  previousOffset : Nat
  dataSize : Nat
  descriptorSize : Nat
  paddingSize : Nat
  dataIntegrityHash : Bytes
  offset : Nat
  hasIntegrityHash : Bool
  encrypted : Bool
  deriving DecidableEq

def SectionDescriptor.parse (buf : Bytes) (offset : Nat) : Result SectionDescriptor := do
  rejectIf (buf.length < sectionDescriptorSize) (.bufferTooShort sectionDescriptorSize buf.length)
  let dataFlags := leAt buf 4 4
  return {
    sectionType := .ofNat (leAt buf 0 4)
    dataFlags
    previousOffset := leAt buf 8 8
    dataSize := leAt buf 16 8
    descriptorSize := leAt buf 24 4
    paddingSize := leAt buf 28 4
    dataIntegrityHash := slice buf 32 16
    offset
    hasIntegrityHash := dataFlags &&& dataFlagIntegrityHash ≠ 0
    encrypted := dataFlags &&& dataFlagEncrypted ≠ 0 }

/-- The first 60 bytes of a descriptor. -/
def sectionDescBody (sectionType : SectionType) (dataSize previousOffset : Nat) : Bytes :=
  toLE 4 sectionType.code ++ (toLE 4 0 ++ (toLE 8 previousOffset ++ (toLE 8 dataSize ++
    (toLE 4 sectionDescriptorSize ++ (toLE 4 0 ++ List.replicate 28 0)))))

/-- `ewf2_section_desc`. -/
def sectionDesc (sectionType : SectionType) (dataSize previousOffset : Nat) : Bytes :=
  sectionDescBody sectionType dataSize previousOffset ++
    toLE 4 (adler32 (sectionDescBody sectionType dataSize previousOffset))

/-- The descriptor of a section without flags and padding. -/
def plainDescriptor (sectionType : SectionType) (dataSize previousOffset offset : Nat) :
    SectionDescriptor where
  sectionType
  dataFlags := 0
  previousOffset
  dataSize
  descriptorSize := sectionDescriptorSize
  paddingSize := 0
  dataIntegrityHash := List.replicate 16 0
  offset
  hasIntegrityHash := false
  encrypted := false

@[simp] theorem length_sectionDescBody (sectionType : SectionType) (dataSize previousOffset : Nat) :
    (sectionDescBody sectionType dataSize previousOffset).length = 60 := by
  simp [sectionDescBody]

@[simp] theorem length_sectionDesc (sectionType : SectionType) (dataSize previousOffset : Nat) :
    (sectionDesc sectionType dataSize previousOffset).length = sectionDescriptorSize := by
  simp [sectionDesc, sectionDescriptorSize]

/-- The reader finds in a written descriptor what was put into it. -/
theorem parse_sectionDesc {sectionType : SectionType} {dataSize previousOffset : Nat}
    (offset : Nat) (htype : sectionType.isUnknown = false) (hsize : dataSize < u64Limit)
    (hprevious : previousOffset < u64Limit) :
    SectionDescriptor.parse (sectionDesc sectionType dataSize previousOffset) offset =
      .ok (plainDescriptor sectionType dataSize previousOffset offset) := by
  have hcode : sectionType.code < 256 ^ 4 := Nat.lt_trans (SectionType.code_lt htype) (by decide)
  have hsize' : dataSize < 256 ^ 8 := by simpa [u64Limit] using hsize
  have hprevious' : previousOffset < 256 ^ 8 := by simpa [u64Limit] using hprevious
  have hlength := length_sectionDesc sectionType dataSize previousOffset
  generalize hbytes : sectionDesc sectionType dataSize previousOffset = bytes at hlength ⊢
  generalize hchecksum : toLE 4 (adler32 (sectionDescBody sectionType dataSize previousOffset)) =
    checksum
  have hparts : bytes = toLE 4 sectionType.code ++ (toLE 4 0 ++ (toLE 8 previousOffset ++
      (toLE 8 dataSize ++ (toLE 4 sectionDescriptorSize ++ (toLE 4 0 ++
        (List.replicate 28 0 ++ checksum)))))) := by
    rw [← hbytes, sectionDesc, hchecksum, sectionDescBody]
    simp only [List.append_assoc]
  have htypeField : leAt bytes 0 4 = sectionType.code := by
    rw [hparts]
    exact leAt_toLE _ hcode
  have hflagsField : leAt bytes 4 4 = 0 := by
    simp (disch := omega) only [hparts, leAt_toLE_skip, Nat.reduceSub]
    exact leAt_toLE _ (by decide)
  have hpreviousField : leAt bytes 8 8 = previousOffset := by
    simp (disch := omega) only [hparts, leAt_toLE_skip, Nat.reduceSub]
    exact leAt_toLE _ hprevious'
  have hsizeField : leAt bytes 16 8 = dataSize := by
    simp (disch := omega) only [hparts, leAt_toLE_skip, Nat.reduceSub]
    exact leAt_toLE _ hsize'
  have hdescriptorField : leAt bytes 24 4 = sectionDescriptorSize := by
    simp (disch := omega) only [hparts, leAt_toLE_skip, Nat.reduceSub]
    exact leAt_toLE _ (by decide)
  have hpaddingField : leAt bytes 28 4 = 0 := by
    simp (disch := omega) only [hparts, leAt_toLE_skip, Nat.reduceSub]
    exact leAt_toLE _ (by decide)
  have hhash : slice bytes 32 16 = List.replicate 16 0 := by
    have hmiddle := slice_append_middle (toLE 4 sectionType.code ++ toLE 4 0 ++
      toLE 8 previousOffset ++ toLE 8 dataSize ++ toLE 4 sectionDescriptorSize ++ toLE 4 0)
      (List.replicate 16 (0 : UInt8)) (List.replicate 12 0 ++ checksum)
    have hzeros : List.replicate 28 (0 : UInt8) = List.replicate 16 0 ++ List.replicate 12 0 := by
      decide
    rw [hparts, hzeros]
    simpa using hmiddle
  unfold SectionDescriptor.parse
  rw [rejectIf_neg _ (by omega), ok_bind]
  simp only [htypeField, hflagsField, hpreviousField, hsizeField, hdescriptorField, hpaddingField,
    hhash, SectionType.ofNat_code htype]
  rfl

/-! ## Chunk tables -/

structure TableHeader where
  firstChunk : Nat
  entryCount : Nat
  deriving DecidableEq

def TableHeader.parse (buf : Bytes) : Result TableHeader := do
  rejectIf (buf.length < tableHeaderSize) (.bufferTooShort tableHeaderSize buf.length)
  return { firstChunk := leAt buf 0 8, entryCount := leAt buf 8 4 }

/-- The first 16 bytes of a table header. -/
def tableHeaderBody (firstChunk chunkCount : Nat) : Bytes :=
  toLE 8 firstChunk ++ (toLE 4 chunkCount ++ List.replicate 4 0)

/-- `ewf2_table_header`. -/
def tableHeader (firstChunk chunkCount : Nat) : Bytes :=
  tableHeaderBody firstChunk chunkCount ++ toLE 4 (adler32 (tableHeaderBody firstChunk chunkCount)) ++
    List.replicate 12 0

@[simp] theorem length_tableHeaderBody (firstChunk chunkCount : Nat) :
    (tableHeaderBody firstChunk chunkCount).length = 16 := by
  simp [tableHeaderBody]

@[simp] theorem length_tableHeader (firstChunk chunkCount : Nat) :
    (tableHeader firstChunk chunkCount).length = tableHeaderV2Size := by
  simp [tableHeader, tableHeaderV2Size]

theorem parse_tableHeader {firstChunk chunkCount : Nat} (hfirst : firstChunk < u64Limit)
    (hcount : chunkCount < u32Limit) :
    TableHeader.parse ((tableHeader firstChunk chunkCount).take tableHeaderSize) =
      .ok ⟨firstChunk, chunkCount⟩ := by
  have hfirst' : firstChunk < 256 ^ 8 := by simpa [u64Limit] using hfirst
  have hcount' : chunkCount < 256 ^ 4 := by simpa [u32Limit] using hcount
  have hparts : (tableHeader firstChunk chunkCount).take tableHeaderSize = toLE 8 firstChunk ++
      (toLE 4 chunkCount ++ (List.replicate 4 0 ++
        toLE 4 (adler32 (tableHeaderBody firstChunk chunkCount)))) := by
    rw [tableHeader, List.take_append_of_le_length (by simp [tableHeaderSize]),
      List.take_of_length_le (by simp [tableHeaderSize]), tableHeaderBody]
    simp only [List.append_assoc]
  have hlength : ((tableHeader firstChunk chunkCount).take tableHeaderSize).length =
      tableHeaderSize := by
    simp [tableHeaderSize, tableHeaderV2Size]
  have hfirstField : leAt ((tableHeader firstChunk chunkCount).take tableHeaderSize) 0 8 =
      firstChunk := by
    rw [hparts]
    exact leAt_toLE _ hfirst'
  have hcountField : leAt ((tableHeader firstChunk chunkCount).take tableHeaderSize) 8 4 =
      chunkCount := by
    simp (disch := omega) only [hparts, leAt_toLE_skip, Nat.reduceSub]
    exact leAt_toLE _ hcount'
  unfold TableHeader.parse
  rw [rejectIf_neg _ (by omega), ok_bind, hfirstField, hcountField]
  rfl

inductive ChunkKind
  | raw
  | compressed (method : CompressionMethod)
  | patternFill
  deriving DecidableEq

def chunkFlagCompressed : Nat := 0x1

def chunkFlagHasChecksum : Nat := 0x2

def chunkFlagPatternFill : Nat := 0x4

def tableEntrySize : Nat := 16

/-- The kind that the flags of a table entry select. -/
def chunkKind (flags : Nat) (method : CompressionMethod) : ChunkKind :=
  if flags &&& chunkFlagPatternFill ≠ 0 ∧ flags &&& chunkFlagCompressed ≠ 0 then .patternFill
  else if flags &&& chunkFlagCompressed ≠ 0 then .compressed method
  else .raw

structure TableEntry where
  chunkDataOffset : UInt64
  chunkDataSize : UInt32
  flags : Nat
  kind : ChunkKind
  deriving DecidableEq

def TableEntry.parse (buf : Bytes) (method : CompressionMethod) : Result TableEntry := do
  rejectIf (buf.length < tableEntrySize) (.bufferTooShort tableEntrySize buf.length)
  let flags := leAt buf 12 4
  return {
    chunkDataOffset := UInt64.ofNat (leAt buf 0 8)
    chunkDataSize := UInt32.ofNat (leAt buf 8 4)
    flags
    kind := chunkKind flags method }

/-- The flags of an entry. -/
def entryFlags (compressed hasChecksum patternFill : Bool) : Nat :=
  (if compressed then chunkFlagCompressed else 0) ||| (if hasChecksum then chunkFlagHasChecksum else 0)
    ||| if patternFill then chunkFlagPatternFill else 0

/-- `ewf2_table_entry`. -/
def tableEntry (chunkOffset : UInt64) (chunkSize : Nat) (compressed hasChecksum patternFill : Bool) :
    Bytes :=
  toLE 8 chunkOffset.toNat ++ (toLE 4 chunkSize ++
    toLE 4 (entryFlags compressed hasChecksum patternFill))

@[simp] theorem length_tableEntry (chunkOffset : UInt64) (chunkSize : Nat)
    (compressed hasChecksum patternFill : Bool) :
    (tableEntry chunkOffset chunkSize compressed hasChecksum patternFill).length =
      tableEntrySize := by
  simp [tableEntry, tableEntrySize]

/-- The kind of a chunk with these properties; a pattern needs the compressed flag as well. -/
def flagKind (method : CompressionMethod) (compressed patternFill : Bool) : ChunkKind :=
  if compressed then (if patternFill then .patternFill else .compressed method) else .raw

theorem entryFlags_spec (method : CompressionMethod) (compressed hasChecksum patternFill : Bool) :
    entryFlags compressed hasChecksum patternFill < 8 ∧
      (entryFlags compressed hasChecksum patternFill &&& chunkFlagHasChecksum ≠ 0 ↔
        hasChecksum = true) ∧
      chunkKind (entryFlags compressed hasChecksum patternFill) method =
        flagKind method compressed patternFill := by
  cases compressed <;> cases hasChecksum <;> cases patternFill <;>
    simp [entryFlags, chunkKind, flagKind, chunkFlagCompressed, chunkFlagHasChecksum,
      chunkFlagPatternFill]

theorem parse_tableEntry {chunkOffset : UInt64} {chunkSize : Nat} (method : CompressionMethod)
    (compressed hasChecksum patternFill : Bool) (hsize : chunkSize < u32Limit) :
    TableEntry.parse (tableEntry chunkOffset chunkSize compressed hasChecksum patternFill) method =
      .ok {
        chunkDataOffset := chunkOffset
        chunkDataSize := UInt32.ofNat chunkSize
        flags := entryFlags compressed hasChecksum patternFill
        kind := flagKind method compressed patternFill } := by
  obtain ⟨hflags, -, hkind⟩ := entryFlags_spec method compressed hasChecksum patternFill
  have hlength := length_tableEntry chunkOffset chunkSize compressed hasChecksum patternFill
  have hoffset' : chunkOffset.toNat < 256 ^ 8 := chunkOffset.toNat_lt
  have hsize' : chunkSize < 256 ^ 4 := by simpa [u32Limit] using hsize
  generalize hentry : tableEntry chunkOffset chunkSize compressed hasChecksum patternFill = bytes
    at hlength ⊢
  have hparts : bytes = toLE 8 chunkOffset.toNat ++ (toLE 4 chunkSize ++
      (toLE 4 (entryFlags compressed hasChecksum patternFill) ++ [])) := by
    rw [← hentry, tableEntry, List.append_nil]
  generalize entryFlags compressed hasChecksum patternFill = flags at *
  have hoffsetField : leAt bytes 0 8 = chunkOffset.toNat := by
    rw [hparts]
    exact leAt_toLE _ hoffset'
  have hsizeField : leAt bytes 8 4 = chunkSize := by
    simp (disch := omega) only [hparts, leAt_toLE_skip, Nat.reduceSub]
    exact leAt_toLE _ hsize'
  have hflagsField : leAt bytes 12 4 = flags := by
    simp (disch := omega) only [hparts, leAt_toLE_skip, Nat.reduceSub]
    exact leAt_toLE _ (Nat.lt_trans hflags (by decide))
  unfold TableEntry.parse
  rw [rejectIf_neg _ (by omega), ok_bind]
  simp only [hoffsetField, hsizeField, hflagsField, hkind]
  simp

end EwfImage.Ewf2
