import EwfImage.Hashes
import EwfImage.Image.Sections

/-!
# The section chain and the probe for encryption

Before a segment is read, its encryption is probed with a walk of its own over the section
chain. In every chain that `scan_ewf1_sections` accepts the sections are in order and apart,
and the probe of an encrypted segment meets the same sections up to the one with the
encryption (`scanEwf1Sections_probe`).

The result is about every file whose chain is accepted. `scan_of_chain` goes the other way and
gives the scan of a chain whose links are known. The probe only looks at the sections of a
segment that carries the marker of an encrypting writer in its first section; of other segments
it has read one descriptor. The checksum of a descriptor is checked by both walks, and an absent
one by neither.
-/

namespace EwfImage

open Fallible Ewf1 LittleEndian Slice Word

/-! ## Encryption metadata -/

inductive EncryptionMethod
  | xWaysAes128Ctr
  | xWaysAes256Ctr
  deriving DecidableEq

def xwaysEncryptionDataSize : Nat := 84

structure XWaysEncryptionMetadata where
  method : EncryptionMethod
  flags : Nat
  salt : Bytes
  initialCounter : Bytes
  passwordVerifier : Option Bytes
  deriving DecidableEq

/-- The four hexadecimal digits of a 16-bit number. -/
def hexU16 (value : Nat) : String :=
  hexString [UInt8.ofNat (value / 256), UInt8.ofNat (value % 256)]

def encryptionSizeError (size : Nat) : EwfError :=
  .malformed s!"X-Ways EWF1 encryption section has size {size}, expected {xwaysEncryptionDataSize}"

def XWaysEncryptionMetadata.parse (data : Bytes) : Result XWaysEncryptionMetadata := do
  rejectIf (data.length ≠ xwaysEncryptionDataSize) (encryptionSizeError data.length)
  let rawMethod := leAt data 0 2
  let flags := leAt data 2 2
  rejectIf (3 ≤ rawMethod) (.malformed s!"invalid X-Ways EWF1 encryption method {rawMethod}")
  rejectIf (8 ≤ flags % 0x1000)
    (.malformed s!"invalid X-Ways EWF1 encryption flags 0x{hexU16 flags}")
  rejectIf ((rawMethod = 0 ∧ flags % 2 = 0) ∨ (rawMethod = 1 ∧ flags % 2 ≠ 0)) (.malformed
    s!"X-Ways EWF1 encryption method {rawMethod} conflicts with flags 0x{hexU16 flags}")
  rejectIf (rawMethod = 2) (.unsupported "X-Ways EWF1 encryption method 2")
  return {
    method := if rawMethod = 0 then .xWaysAes128Ctr else .xWaysAes256Ctr
    flags
    salt := slice data 4 32
    initialCounter := slice data 36 16
    passwordVerifier := if flags / 2 % 2 = 0 then some (slice data 52 32) else none }

/-! ## The probe -/

def xwaysEncryptedZlibMarker : UInt8 := 0x81

def xwaysEncryptedZstdMarker : UInt8 := 0xa1

/-- How a turn of the probe ends. -/
inductive ProbeTurn
  | found (metadata : XWaysEncryptionMetadata)
  | next (offset : Nat)
  deriving DecidableEq

/-- The turn of the probe at the descriptor at `offset`. -/
def probeSection (file : SegmentFile) (offset : Nat) : Result ProbeTurn := do
  let descriptorEnd ← okOr (.malformed "EWF1 section descriptor overflow")
    (checkedAdd offset sectionDescriptorSize)
  rejectIf (file.bytes.length < descriptorEnd)
    (.malformed "X-Ways EWF1 section descriptor exceeds file")
  let bytes ← file.readExactAt offset sectionDescriptorSize
  let descriptor ← SectionDescriptor.parse bytes offset
  let dataSize ← descriptor.dataSize
  let sectionEnd ← okOr (.malformed "X-Ways EWF1 section overflow")
    (checkedAdd descriptorEnd dataSize)
  rejectIf (file.bytes.length < sectionEnd) (.malformed "X-Ways EWF1 section exceeds file")
  (if descriptor.sectionType = ascii "x_encryption" then do
    rejectIf (dataSize ≠ xwaysEncryptionDataSize) (encryptionSizeError dataSize)
    let data ← file.readExactAt descriptorEnd xwaysEncryptionDataSize
    let metadata ← XWaysEncryptionMetadata.parse data
    return .found metadata
  else do
    rejectIf descriptor.isTerminal
      (.malformed "X-Ways EWF1 encrypted marker has no encryption section")
    rejectIf (descriptor.next < sectionEnd ∨ descriptor.next ≤ offset)
      (.malformed "X-Ways EWF1 section chain does not advance")
    return .next descriptor.next)

/-- At most so many turns of the probe, from the descriptor at `offset`. -/
def probeSections (file : SegmentFile) : Nat → Nat → Result (Option XWaysEncryptionMetadata)
  | 0, _ => .error (.malformed "X-Ways EWF1 section chain is too long")
  | turns + 1, offset => do
    let turn ← probeSection file offset
    match turn with
    | .found metadata => .ok (some metadata)
    | .next next => probeSections file turns next

def maxProbedSections (file : SegmentFile) : Nat :=
  saturatingAdd ((file.bytes.length - fileHeaderSize) / sectionDescriptorSize) 1

/-- Whether the probe walks the sections of the file at all. -/
def hasXwaysMarker (file : SegmentFile) : Bool :=
  let header := slice file.bytes 0 fileHeaderSize
  fileHeaderSize ≤ file.bytes.length &&
    (slice header 0 8 = evfSignature || slice header 0 8 = lvfSignature) &&
    (header.getD 8 0 = xwaysEncryptedZlibMarker || header.getD 8 0 = xwaysEncryptedZstdMarker)

/-- `read_xways_encryption`. -/
def readXwaysEncryption (file : SegmentFile) : Result (Option XWaysEncryptionMetadata) :=
  if file.bytes.length < fileHeaderSize then .ok none
  else do
    let header ← file.readExactAt 0 fileHeaderSize
    (if slice header 0 8 ≠ evfSignature ∧ slice header 0 8 ≠ lvfSignature then .ok none
    else do
      let header ← FileHeader.parse header
      (if header.formatMarker ≠ xwaysEncryptedZlibMarker ∧
          header.formatMarker ≠ xwaysEncryptedZstdMarker then .ok none
      else probeSections file (maxProbedSections file) fileHeaderSize))

/-- The offsets at which the probe reads a descriptor. -/
def probedOffsets (file : SegmentFile) : Nat → Nat → List Nat
  | 0, _ => []
  | turns + 1, offset => offset :: match probeSection file offset with
    | .ok (.next next) => probedOffsets file turns next
    | _ => []

/-! ## Chains -/

/-- A section ends the chain. -/
def Ewf1Section.isLast (found : Ewf1Section) : Bool :=
  found.desc.isTerminal || found.desc.next = 0

/-- The sections that are linked from an offset on. -/
inductive Ewf1Chain (file : SegmentFile) : Nat → List Ewf1Section → Prop
  | last {offset : Nat} {found : Ewf1Section} (hread : readEwf1Section file offset = .ok found)
      (hlast : found.isLast = true) : Ewf1Chain file offset [found]
  | link {offset : Nat} {found : Ewf1Section} {sections : List Ewf1Section}
      (hread : readEwf1Section file offset = .ok found) (hlast : found.isLast = false)
      (hnext : found.dataOffset + found.dataSize ≤ found.desc.next)
      (hrest : Ewf1Chain file found.desc.next sections) : Ewf1Chain file offset (found :: sections)

/-- A section that was read lies inside the file. -/
structure Ewf1Section.Lies (file : SegmentFile) (offset : Nat) (found : Ewf1Section) : Prop where
  offset_eq : found.desc.offset = offset
  dataOffset_eq : found.dataOffset = offset + sectionDescriptorSize
  dataSize_eq : found.desc.dataSize = .ok found.dataSize
  fits : found.dataOffset + found.dataSize ≤ file.bytes.length
  parses : SectionDescriptor.parse (slice file.bytes offset sectionDescriptorSize) offset =
    .ok found.desc

theorem parse_offset {buf : Bytes} {offset : Nat} {desc : SectionDescriptor}
    (h : SectionDescriptor.parse buf offset = .ok desc) : desc.offset = offset := by
  simp only [SectionDescriptor.parse, bind_eq_ok, pure_eq_ok, Except.ok.injEq] at h
  obtain ⟨_, _, rfl⟩ := h
  rfl

theorem readEwf1Section_lies {file : SegmentFile} {offset : Nat} {found : Ewf1Section}
    (h : readEwf1Section file offset = .ok found) : found.Lies file offset := by
  simp only [readEwf1Section, bind_eq_ok, okOr_eq_ok, checkedAdd_eq_some, rejectIf_eq_ok,
    pure_eq_ok, Except.ok.injEq] at h
  obtain ⟨_, ⟨_, rfl⟩, _, hdescriptor, buf, hbuf, _, _, desc, hdesc, dataSize, hsize, _,
    ⟨_, rfl⟩, _, hdata, rfl⟩ := h
  rw [readExactAt_of_le (by omega)] at hbuf
  cases hbuf
  exact ⟨parse_offset hdesc, rfl, hsize, Nat.le_of_not_lt hdata, hdesc⟩

theorem chain_of_scan {file : SegmentFile} {offset : Nat} {sections : List Ewf1Section}
    (h : scanEwf1SectionsFrom file offset = .ok sections) : Ewf1Chain file offset sections := by
  fun_induction scanEwf1SectionsFrom file offset generalizing sections with
  | case1 offset e hread => cases h
  | case2 offset found hread next =>
    rename_i hlast
    cases h
    refine .last hread ?_
    rw [Ewf1Section.isLast, Bool.or_eq_true, decide_eq_true_eq]
    exact hlast
  | case3 => cases h
  | case4 => cases h
  | case5 offset found hread next =>
    rename_i hlast hnext hoverlap ih
    cases hrest : scanEwf1SectionsFrom file found.desc.next with
    | error e =>
      rw [hrest] at h
      cases h
    | ok rest =>
      rw [hrest] at h
      cases h
      refine .link hread ?_ (Nat.le_of_not_lt hoverlap) (ih hrest)
      rw [Ewf1Section.isLast, Bool.or_eq_false_iff, decide_eq_false_iff_not, ← Bool.not_eq_true]
      exact not_or.mp hlast

/-! ## What every chain has -/

theorem Ewf1Chain.head {file : SegmentFile} {offset : Nat} {sections : List Ewf1Section}
    (h : Ewf1Chain file offset sections) :
    ∃ found rest, sections = found :: rest ∧ readEwf1Section file offset = .ok found := by
  cases h with
  | last hread hlast => exact ⟨_, _, rfl, hread⟩
  | link hread hlast hnext hrest => exact ⟨_, _, rfl, hread⟩

/-- Every section of a chain was read at its own offset, which is not in front of the chain. -/
theorem Ewf1Chain.lies {file : SegmentFile} {offset : Nat} {sections : List Ewf1Section}
    (h : Ewf1Chain file offset sections) :
    ∀ found ∈ sections, offset ≤ found.desc.offset ∧ found.Lies file found.desc.offset := by
  induction h with
  | last hread hlast =>
    intro found hmem
    rw [List.mem_singleton.mp hmem]
    have hlies := readEwf1Section_lies hread
    rw [hlies.offset_eq]
    exact ⟨Nat.le_refl _, hlies⟩
  | link hread hlast hnext hrest ih =>
    have hlies := readEwf1Section_lies hread
    intro found hmem
    rcases List.mem_cons.mp hmem with rfl | hmem
    · rw [hlies.offset_eq]
      exact ⟨Nat.le_refl _, hlies⟩
    · obtain ⟨hle, hfound⟩ := ih found hmem
      have hdata := hlies.dataOffset_eq
      exact ⟨by omega, hfound⟩

/-- Each section ends before the sections behind it start. -/
theorem Ewf1Chain.apart {file : SegmentFile} {offset : Nat} {sections : List Ewf1Section}
    (h : Ewf1Chain file offset sections) :
    sections.Pairwise fun a b => a.dataOffset + a.dataSize ≤ b.desc.offset := by
  induction h with
  | last hread hlast => exact List.pairwise_singleton _ _
  | link hread hlast hnext hrest ih =>
    refine List.Pairwise.cons ?_ ih
    intro found hmem
    exact Nat.le_trans hnext (hrest.lies found hmem).1

/-- Only the last section ends the chain. -/
theorem Ewf1Chain.ends {file : SegmentFile} {offset : Nat} {sections : List Ewf1Section}
    (h : Ewf1Chain file offset sections) :
    ∃ front last, sections = front ++ [last] ∧ last.isLast = true ∧
      ∀ found ∈ front, found.isLast = false := by
  induction h with
  | last hread hlast => exact ⟨[], _, rfl, hlast, fun _ hmem => absurd hmem List.not_mem_nil⟩
  | @link _ found _ hread hlast hnext hrest ih =>
    obtain ⟨front, last, rfl, hend, hfront⟩ := ih
    refine ⟨found :: front, last, rfl, hend, ?_⟩
    intro other hmem
    rcases List.mem_cons.mp hmem with rfl | hmem
    · exact hlast
    · exact hfront other hmem

/-- There are no more sections than descriptors fit into the file. -/
theorem Ewf1Chain.length_le {file : SegmentFile} {offset : Nat} {sections : List Ewf1Section}
    (h : Ewf1Chain file offset sections) :
    offset + sectionDescriptorSize * sections.length ≤ file.bytes.length := by
  induction h with
  | last hread hlast =>
    have hlies := readEwf1Section_lies hread
    have hfits := hlies.fits
    rw [hlies.dataOffset_eq] at hfits
    rw [List.length_singleton]
    omega
  | link hread hlast hnext hrest ih =>
    have hdata := (readEwf1Section_lies hread).dataOffset_eq
    rw [List.length_cons, Nat.mul_succ]
    omega

/-! ## The probe on a chain -/

def isXEncryption (found : Ewf1Section) : Bool := found.desc.sectionType = ascii "x_encryption"

/-- The encryption metadata in a section. -/
def encryptionOf (file : SegmentFile) (found : Ewf1Section) : Result XWaysEncryptionMetadata := do
  rejectIf (found.dataSize ≠ xwaysEncryptionDataSize) (encryptionSizeError found.dataSize)
  XWaysEncryptionMetadata.parse (slice file.bytes found.dataOffset xwaysEncryptionDataSize)

/-- The encryption of a segment with these sections: that of the first encryption section. -/
def encryptionOfSections (file : SegmentFile) (sections : List Ewf1Section) :
    Result (Option XWaysEncryptionMetadata) :=
  match sections.find? isXEncryption with
  | some found => (encryptionOf file found).map some
  | none => .error (.malformed (
    if sections.any (·.desc.isTerminal) then "X-Ways EWF1 encrypted marker has no encryption section"
    else "X-Ways EWF1 section chain does not advance"))

/-- The sections up to the first encryption section. -/
def throughEncryption (sections : List Ewf1Section) : List Ewf1Section :=
  sections.takeWhile (fun found => !isXEncryption found) ++ (sections.find? isXEncryption).toList

/-- The turn of the probe at a section that the reader accepts. -/
theorem probeSection_of_read {file : SegmentFile} {offset : Nat} {found : Ewf1Section}
    (h : readEwf1Section file offset = .ok found) :
    probeSection file offset =
      if isXEncryption found then (encryptionOf file found).map .found
      else if found.desc.isTerminal then
        .error (.malformed "X-Ways EWF1 encrypted marker has no encryption section")
      else if found.desc.next < found.dataOffset + found.dataSize ∨ found.desc.next ≤ offset then
        .error (.malformed "X-Ways EWF1 section chain does not advance")
      else .ok (.next found.desc.next) := by
  obtain ⟨_, hdata, hsize, hfits, hparses⟩ := readEwf1Section_lies h
  have hlength := file.length_lt
  rw [probeSection, checkedAdd_of_lt (by omega), okOr_some, ok_bind,
    rejectIf_neg _ (by omega), ok_bind, readExactAt_of_le (by omega), ok_bind, hparses, ok_bind,
    hsize, ok_bind, checkedAdd_of_lt (by omega), okOr_some, ok_bind, rejectIf_neg _ (by omega),
    ok_bind, ← hdata]
  by_cases hencryption : found.desc.sectionType = ascii "x_encryption"
  · rw [if_pos hencryption, if_pos (by rw [isXEncryption, decide_eq_true_eq]; exact hencryption),
      encryptionOf]
    by_cases hexpected : found.dataSize = xwaysEncryptionDataSize
    · rw [rejectIf_neg _ (not_not.mpr hexpected), ok_bind, ok_bind,
        readExactAt_of_le (by omega), ok_bind]
      cases XWaysEncryptionMetadata.parse
        (slice file.bytes found.dataOffset xwaysEncryptionDataSize) with
      | error e => rfl
      | ok metadata => rfl
    · rw [rejectIf_pos _ hexpected, error_bind, error_bind]
      rfl
  · rw [if_neg hencryption, if_neg (by rw [isXEncryption, decide_eq_true_eq]; exact hencryption)]
    by_cases hterminal : found.desc.isTerminal = true
    · rw [if_pos hterminal, rejectIf_pos _ hterminal, error_bind]
    · rw [if_neg hterminal, rejectIf_neg _ hterminal, ok_bind]
      by_cases hnext : found.desc.next < found.dataOffset + found.dataSize ∨
          found.desc.next ≤ offset
      · rw [if_pos hnext, rejectIf_pos _ hnext, error_bind]
      · rw [if_neg hnext, rejectIf_neg _ hnext, ok_bind]
        rfl

theorem throughEncryption_cons (found : Ewf1Section) (sections : List Ewf1Section) :
    throughEncryption (found :: sections) =
      found :: if isXEncryption found then [] else throughEncryption sections := by
  rw [throughEncryption, throughEncryption, List.takeWhile_cons, List.find?_cons]
  cases isXEncryption found with
  | true => rfl
  | false => rfl

theorem encryptionOfSections_cons {file : SegmentFile} {found : Ewf1Section}
    (sections : List Ewf1Section) (h : found.desc.isTerminal = false) :
    encryptionOfSections file (found :: sections) =
      if isXEncryption found then (encryptionOf file found).map some
      else encryptionOfSections file sections := by
  rw [encryptionOfSections, encryptionOfSections, List.find?_cons, List.any_cons, h, Bool.false_or]
  cases isXEncryption found with
  | true => rfl
  | false => rfl

/-- An encryption section is the last that the probe reads. -/
theorem probeSections_stop {file : SegmentFile} {offset : Nat} {found : Ewf1Section}
    (hread : readEwf1Section file offset = .ok found) (hencryption : isXEncryption found = true)
    (sections : List Ewf1Section) (turns : Nat) :
    probeSections file (turns + 1) offset = encryptionOfSections file (found :: sections) ∧
      probedOffsets file (turns + 1) offset =
        (throughEncryption (found :: sections)).map (·.desc.offset) := by
  rw [throughEncryption_cons, if_pos hencryption, List.map_singleton,
    (readEwf1Section_lies hread).offset_eq, encryptionOfSections, List.find?_cons, hencryption,
    probeSections, probedOffsets, probeSection_of_read hread, if_pos hencryption]
  cases hmetadata : encryptionOf file found with
  | error e =>
    refine ⟨?_, rfl⟩
    simp only [hmetadata]
    rfl
  | ok metadata =>
    refine ⟨?_, rfl⟩
    simp only [hmetadata]
    rfl

/-- With turns for all sections of a chain, the probe finds what is in its sections. -/
theorem probeSections_chain {file : SegmentFile} {offset : Nat} {sections : List Ewf1Section}
    (h : Ewf1Chain file offset sections) {turns : Nat} (hturns : sections.length ≤ turns) :
    probeSections file turns offset = encryptionOfSections file sections ∧
      probedOffsets file turns offset =
        (throughEncryption sections).map (·.desc.offset) := by
  induction h generalizing turns with
  | @last offset found hread hlast =>
    obtain ⟨turns, rfl⟩ := Nat.exists_eq_add_of_le' hturns
    by_cases hencryption : isXEncryption found = true
    · exact probeSections_stop hread hencryption [] turns
    have hoffset := (readEwf1Section_lies hread).offset_eq
    rw [List.length_singleton, throughEncryption_cons, if_neg hencryption, probeSections,
      probedOffsets, probeSection_of_read hread, if_neg hencryption]
    have hnone : [found].find? isXEncryption = none := by
      rw [List.find?_singleton, if_neg hencryption]
    rw [encryptionOfSections, hnone]
    by_cases hterminal : found.desc.isTerminal = true
    · rw [if_pos hterminal, List.any_cons, hterminal]
      exact ⟨rfl, by rw [← hoffset]; rfl⟩
    · have hzero : found.desc.next = 0 := by
        rw [Ewf1Section.isLast, Bool.or_eq_true, decide_eq_true_eq] at hlast
        exact hlast.resolve_left hterminal
      rw [if_neg hterminal, if_pos (.inr (by omega)), List.any_cons,
        Bool.not_eq_true _ |>.mp hterminal]
      exact ⟨rfl, by rw [← hoffset]; rfl⟩
  | @link offset found sections hread hlast hnext hrest ih =>
    obtain ⟨turns, rfl⟩ := Nat.exists_eq_add_of_le' (Nat.le_trans (Nat.le_add_left 1 _) hturns)
    by_cases hencryption : isXEncryption found = true
    · exact probeSections_stop hread hencryption sections turns
    have hlies := readEwf1Section_lies hread
    obtain ⟨hterminal, _⟩ := Bool.or_eq_false_iff.mp hlast
    have hdata := hlies.dataOffset_eq
    have hsize : 0 < sectionDescriptorSize := by decide
    rw [List.length_cons] at hturns
    obtain ⟨hresult, hoffsets⟩ := ih (Nat.le_of_succ_le_succ hturns)
    rw [throughEncryption_cons, if_neg hencryption, encryptionOfSections_cons _ hterminal,
      if_neg hencryption, probeSections, probedOffsets, probeSection_of_read hread,
      if_neg hencryption, if_neg (by rw [hterminal]; decide), if_neg (by omega), List.map_cons,
      hlies.offset_eq]
    exact ⟨hresult, congrArg _ hoffsets⟩

/-! ## The reader and the probe -/

theorem readXwaysEncryption_eq {file : SegmentFile} (hlength : fileHeaderSize ≤ file.bytes.length) :
    readXwaysEncryption file =
      if hasXwaysMarker file then probeSections file (maxProbedSections file) fileHeaderSize
      else .ok none := by
  have hbuf : (slice file.bytes 0 fileHeaderSize).length = fileHeaderSize := by
    rw [length_slice]
    omega
  rw [readXwaysEncryption, if_neg (Nat.not_lt.mpr hlength), readExactAt_of_le (by omega), ok_bind,
    hasXwaysMarker]
  by_cases hsignature : slice (slice file.bytes 0 fileHeaderSize) 0 8 ≠ evfSignature ∧
      slice (slice file.bytes 0 fileHeaderSize) 0 8 ≠ lvfSignature
  · rw [if_pos hsignature]
    simp [hsignature.1, hsignature.2]
  · have hparse : ∃ number logical, FileHeader.parse (slice file.bytes 0 fileHeaderSize) =
        .ok ⟨number, logical, (slice file.bytes 0 fileHeaderSize).getD 8 0⟩ := by
      rw [FileHeader.parse, rejectIf_neg _ (by omega), ok_bind]
      simp only [rejectIf_neg _ hsignature, ok_bind, pure_eq_ok]
      exact ⟨_, _, rfl⟩
    obtain ⟨number, logical, hparse⟩ := hparse
    rw [if_neg hsignature, hparse, ok_bind]
    have hknown : slice (slice file.bytes 0 fileHeaderSize) 0 8 = evfSignature ∨
        slice (slice file.bytes 0 fileHeaderSize) 0 8 = lvfSignature := by
      rw [not_and_or, not_not, not_not] at hsignature
      exact hsignature
    simp only [Bool.and_eq_true, Bool.or_eq_true, decide_eq_true_eq, hlength, hknown, true_and]
    by_cases hmarker : (slice file.bytes 0 fileHeaderSize).getD 8 0 = xwaysEncryptedZlibMarker ∨
        (slice file.bytes 0 fileHeaderSize).getD 8 0 = xwaysEncryptedZstdMarker
    · rw [if_neg (by tauto), if_pos (by tauto)]
    · rw [if_pos (by tauto), if_neg (by tauto)]

/-- The sections of an accepted chain are in order, apart and inside the file, and the last of them
alone ends the chain: it is terminal or has no next section. The probe of a segment that is marked
as encrypted reads the same sections up to the first encryption section, and its answer is what
that section contains; without the mark it reads none. -/
theorem scanEwf1Sections_probe {file : SegmentFile} {sections : List Ewf1Section}
    (h : scanEwf1Sections file = .ok sections) :
    (sections.Pairwise fun a b => a.desc.offset < b.desc.offset ∧
      a.dataOffset + a.dataSize ≤ b.desc.offset) ∧
    (∀ found ∈ sections, fileHeaderSize ≤ found.desc.offset ∧
      found.dataOffset = found.desc.offset + sectionDescriptorSize ∧
      found.dataOffset + found.dataSize ≤ file.bytes.length) ∧
    (∃ front last, sections = front ++ [last] ∧ last.isLast = true ∧
      ∀ found ∈ front, found.isLast = false) ∧
    (hasXwaysMarker file = false → readXwaysEncryption file = .ok none) ∧
    (hasXwaysMarker file = true →
      readXwaysEncryption file = encryptionOfSections file sections ∧
      probedOffsets file (maxProbedSections file) fileHeaderSize =
        (throughEncryption sections).map (·.desc.offset)) := by
  have hchain := chain_of_scan h
  have hbound := hchain.length_le
  have hlength := file.length_lt
  have hsize : sectionDescriptorSize = 76 := rfl
  rw [hsize] at hbound
  refine ⟨?_, ?_, hchain.ends, ?_, ?_⟩
  · refine hchain.apart.imp_of_mem ?_
    intro a b ha _ hapart
    have hdata := (hchain.lies a ha).2.dataOffset_eq
    exact ⟨by omega, hapart⟩
  · intro found hmem
    obtain ⟨hle, hlies⟩ := hchain.lies found hmem
    exact ⟨hle, hlies.dataOffset_eq, hlies.fits⟩
  · intro hmarker
    rw [readXwaysEncryption_eq (by omega), hmarker]
    rfl
  · intro hmarker
    have hturns : sections.length ≤ maxProbedSections file := by
      have hfit : sections.length ≤ (file.bytes.length - fileHeaderSize) / 76 := by
        rw [Nat.le_div_iff_mul_le (by decide)]
        omega
      rw [maxProbedSections, hsize, saturatingAdd, Nat.le_min]
      exact ⟨by omega, by omega⟩
    rw [readXwaysEncryption_eq (by omega), hmarker, if_pos rfl]
    exact probeSections_chain hchain hturns

/-- A chain that ends with its only last section is scanned. -/
theorem scan_of_chain {file : SegmentFile} {offset : Nat} {sections : List Ewf1Section}
    (h : Ewf1Chain file offset sections) : scanEwf1SectionsFrom file offset = .ok sections := by
  induction h with
  | last hread hlast =>
    rw [scanEwf1SectionsFrom, hread]
    rw [Ewf1Section.isLast, Bool.or_eq_true, decide_eq_true_eq] at hlast
    exact if_pos hlast
  | link hread hlast hnext _ ih =>
    have hlies := readEwf1Section_lies hread
    have hoffset := hlies.dataOffset_eq
    have hpos : 0 < sectionDescriptorSize := by decide
    rw [Ewf1Section.isLast, Bool.or_eq_false_iff, decide_eq_false_iff_not,
      ← Bool.not_eq_true] at hlast
    rw [scanEwf1SectionsFrom, hread]
    dsimp only
    rw [if_neg (not_or.mpr hlast), dif_neg (by omega), if_neg (by omega), ih]
    rfl

/-- The data of an encryption section without a verifier of the password. -/
def encryptionData : Bytes := [0, 0, 3, 0] ++ List.replicate 32 7 ++ List.replicate 48 0

/-- A segment whose encryption section stands between two others. -/
def encryptedFile : SegmentFile :=
  ⟨evfSignature ++ [0x81, 1, 0, 0, 0] ++ sectionDesc (ascii "header") 89 76 ++
    sectionDesc (ascii "x_encryption") 249 160 ++ encryptionData ++
    sectionDesc (ascii "done") 249 76, by decide +kernel⟩

def encryptedSections : List Ewf1Section := [
  ⟨⟨ascii "header", 89, 76, 13, none⟩, 89, 0⟩,
  ⟨⟨ascii "x_encryption", 249, 160, 89, none⟩, 165, 84⟩,
  ⟨⟨ascii "done", 249, 76, 249, none⟩, 325, 0⟩]

/-- Of its three sections the probe reads two. -/
theorem scanEwf1Sections_probe_encrypted :
    scanEwf1Sections encryptedFile = .ok encryptedSections ∧
      readXwaysEncryption encryptedFile = encryptionOfSections encryptedFile encryptedSections ∧
      probedOffsets encryptedFile (maxProbedSections encryptedFile) fileHeaderSize = [13, 89] := by
  have hreads : readEwf1Section encryptedFile fileHeaderSize = .ok encryptedSections[0] ∧
      readEwf1Section encryptedFile 89 = .ok encryptedSections[1] ∧
      readEwf1Section encryptedFile 249 = .ok encryptedSections[2] := by
    decide +kernel
  obtain ⟨hheader, hencryption, hdone⟩ := hreads
  have hchain : Ewf1Chain encryptedFile fileHeaderSize encryptedSections :=
    .link hheader (by decide) (by decide)
      (.link hencryption (by decide) (by decide) (.last hdone (by decide)))
  have hscan : scanEwf1Sections encryptedFile = .ok encryptedSections := scan_of_chain hchain
  obtain ⟨hread, hprobed⟩ := (scanEwf1Sections_probe hscan).2.2.2.2 (by decide +kernel)
  exact ⟨hscan, hread, hprobed⟩

/-- A segment with one section that links to none. -/
def unlinkedFile : SegmentFile :=
  ⟨evfSignature ++ [0x81, 1, 0, 0, 0] ++ sectionDesc (ascii "disk") 0 76, by decide⟩

/-- The reader accepts a chain that ends with an ordinary section, and the probe rejects it. -/
theorem scanEwf1Sections_unlinked :
    scanEwf1Sections unlinkedFile = .ok [⟨⟨ascii "disk", 0, 76, 13, none⟩, 89, 0⟩] ∧
      (⟨ascii "disk", 0, 76, 13, none⟩ : SectionDescriptor).isTerminal = false ∧
      readXwaysEncryption unlinkedFile =
        .error (.malformed "X-Ways EWF1 section chain does not advance") := by
  have hread : readEwf1Section unlinkedFile fileHeaderSize =
      .ok ⟨⟨ascii "disk", 0, 76, 13, none⟩, 89, 0⟩ := by decide +kernel
  refine ⟨?_, by decide, by decide⟩
  rw [scanEwf1Sections, scanEwf1SectionsFrom, hread]
  rfl

end EwfImage
