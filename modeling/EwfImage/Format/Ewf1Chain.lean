import EwfImage.Image.Sections
import EwfImage.Writer.Ewf1Segment

/-!
# Section chains

A well-formed EWF1 segment is a file header and a chain of named sections, each
linked to the one behind it, up to a terminal section. The writer appends such chains
to its output; the scanner of the reader finds exactly the sections of one.

The main results are `Appends.trans`, which puts chains together, and
`scanEwf1SectionsFrom_chain`. The payloads are any bytes; a next-offset has to fit its field,
which the bound on the length of a file gives.
-/

namespace EwfImage.Ewf1

open Fallible LittleEndian Slice Word

/-- The sections of a chain before its end. -/
inductive SectionName
  | header
  | header2
  | xheader
  | volume
  | session
  | sectors
  | table
  | table2
  | ltree
  | error2
  | digest
  | xhash
  deriving DecidableEq

def SectionName.type : SectionName → Bytes
  | .header => ascii "header"
  | .header2 => ascii "header2"
  | .xheader => ascii "xheader"
  | .volume => ascii "volume"
  | .session => ascii "session"
  | .sectors => ascii "sectors"
  | .table => ascii "table"
  | .table2 => ascii "table2"
  | .ltree => ascii "ltree"
  | .error2 => ascii "error2"
  | .digest => ascii "digest"
  | .xhash => ascii "xhash"

theorem SectionName.length_type (name : SectionName) : name.type.length ≤ 16 := by
  cases name <;> decide

theorem SectionName.zero_not_mem (name : SectionName) : 0 ∉ name.type := by
  cases name <;> decide

theorem SectionName.type_not_terminal (name : SectionName) :
    name.type ≠ ascii "done" ∧ name.type ≠ ascii "next" := by
  cases name <;> decide

theorem SectionName.type_eq_table (name : SectionName) :
    name.type = ascii "table" ↔ name = .table := by
  cases name <;> decide

theorem SectionName.type_eq_table2 (name : SectionName) :
    name.type = ascii "table2" ↔ name = .table2 := by
  cases name <;> decide

theorem length_terminalType (terminal : TerminalSection) : terminal.ewf1Type.length ≤ 16 := by
  cases terminal <;> decide

theorem zero_not_mem_terminalType (terminal : TerminalSection) : 0 ∉ terminal.ewf1Type := by
  cases terminal <;> decide

structure ChainSection where
  name : SectionName
  payload : Bytes

namespace ChainSection

def size (entry : ChainSection) : Nat := sectionDescriptorSize + entry.payload.length

end ChainSection

def chainSize (sections : List ChainSection) : Nat := (sections.map ChainSection.size).sum

/-- The bytes of a chain that starts at `offset`. -/
def chainBytes : Nat → List ChainSection → Bytes
  | _, [] => []
  | offset, entry :: sections =>
    sectionDesc entry.name.type (offset + entry.size) entry.size ++ entry.payload ++
      chainBytes (offset + entry.size) sections

def chainDescriptors : Nat → List ChainSection → List (Bytes × Nat)
  | _, [] => []
  | offset, entry :: sections =>
    (entry.name.type, offset) :: chainDescriptors (offset + entry.size) sections

/-- The section of the reader at `offset`. -/
def ChainSection.located (entry : ChainSection) (offset : Nat) : Ewf1Section where
  desc := ⟨entry.name.type, offset + entry.size, entry.size, offset, none⟩
  dataOffset := offset + sectionDescriptorSize
  dataSize := entry.payload.length

/-- The sections of the reader for a chain that starts at `offset`. -/
def locate : Nat → List ChainSection → List Ewf1Section
  | _, [] => []
  | offset, entry :: sections => entry.located offset :: locate (offset + entry.size) sections

def terminalAt (terminal : TerminalSection) (offset : Nat) : Ewf1Section where
  desc := ⟨terminal.ewf1Type, offset, sectionDescriptorSize, offset, none⟩
  dataOffset := offset + sectionDescriptorSize
  dataSize := 0

@[simp] theorem chainSize_nil : chainSize [] = 0 := rfl

@[simp] theorem chainSize_cons (entry : ChainSection) (sections : List ChainSection) :
    chainSize (entry :: sections) = entry.size + chainSize sections := by
  simp [chainSize]

@[simp] theorem chainSize_append (xs ys : List ChainSection) :
    chainSize (xs ++ ys) = chainSize xs + chainSize ys := by
  simp [chainSize]

theorem length_chainSection (entry : ChainSection) (next size : Nat) :
    (sectionDesc entry.name.type next size ++ entry.payload).length = entry.size := by
  rw [List.length_append, length_sectionDesc _ _ entry.name.length_type, ChainSection.size]

@[simp] theorem length_chainBytes (offset : Nat) (sections : List ChainSection) :
    (chainBytes offset sections).length = chainSize sections := by
  induction sections generalizing offset with
  | nil => rfl
  | cons entry sections ih =>
    rw [chainBytes, List.length_append, length_chainSection, ih, chainSize_cons]

theorem chainBytes_append (offset : Nat) (xs ys : List ChainSection) :
    chainBytes offset (xs ++ ys) = chainBytes offset xs ++ chainBytes (offset + chainSize xs) ys := by
  induction xs generalizing offset with
  | nil => simp [chainBytes]
  | cons entry xs ih =>
    simp only [List.cons_append, chainBytes, ih, chainSize_cons, List.append_assoc]
    rw [Nat.add_assoc]

theorem chainDescriptors_append (offset : Nat) (xs ys : List ChainSection) :
    chainDescriptors offset (xs ++ ys) =
      chainDescriptors offset xs ++ chainDescriptors (offset + chainSize xs) ys := by
  induction xs generalizing offset with
  | nil => simp [chainDescriptors]
  | cons entry xs ih =>
    simp only [List.cons_append, chainDescriptors, ih, chainSize_cons]
    rw [Nat.add_assoc]

theorem locate_append (offset : Nat) (xs ys : List ChainSection) :
    locate offset (xs ++ ys) = locate offset xs ++ locate (offset + chainSize xs) ys := by
  induction xs generalizing offset with
  | nil => simp [locate]
  | cons entry xs ih =>
    simp only [List.cons_append, locate, ih, chainSize_cons]
    rw [Nat.add_assoc]

theorem descriptors_locate (offset : Nat) (sections : List ChainSection) :
    (locate offset sections).map (fun found => (found.desc.sectionType, found.desc.offset)) =
      chainDescriptors offset sections := by
  induction sections generalizing offset with
  | nil => rfl
  | cons entry sections ih =>
    simp only [locate, List.map_cons, chainDescriptors, ih]
    rfl

/-- Every located section lies in the range of its chain. -/
theorem mem_locate {offset : Nat} {sections : List ChainSection} {found : Ewf1Section}
    (h : found ∈ locate offset sections) : ∃ entry ∈ sections, ∃ start,
      found = entry.located start ∧ offset ≤ start ∧
        start + entry.size ≤ offset + chainSize sections := by
  induction sections generalizing offset with
  | nil => cases h
  | cons entry sections ih =>
    rw [chainSize_cons]
    rcases List.mem_cons.mp h with rfl | h
    · exact ⟨entry, List.mem_cons_self, offset, rfl, Nat.le_refl _, by omega⟩
    · obtain ⟨other, hother, start, hfound, hge, hle⟩ := ih h
      exact ⟨other, List.mem_cons_of_mem _ hother, start, hfound, by omega, by omega⟩

/-! ## Writing a chain -/

/-- `out'` is `out` with a chain of sections appended and `placements` recorded. -/
structure Appends (out out' : SegmentOutput Bytes) (sections : List ChainSection)
    (placements : List Nat) : Prop where
  bytes : out'.bytes = out.bytes ++ chainBytes out.bytes.length sections
  descriptors : out'.descriptors = out.descriptors ++ chainDescriptors out.bytes.length sections
  placements : out'.placements = out.placements ++ placements

theorem Appends.refl (out : SegmentOutput Bytes) : Appends out out [] [] := by
  constructor <;> simp [chainBytes, chainDescriptors]

theorem Appends.length {out out' : SegmentOutput Bytes} {sections : List ChainSection}
    {placements : List Nat} (h : Appends out out' sections placements) :
    out'.bytes.length = out.bytes.length + chainSize sections := by
  rw [h.bytes, List.length_append, length_chainBytes]

theorem Appends.trans {out₁ out₂ out₃ : SegmentOutput Bytes} {xs ys : List ChainSection}
    {ps qs : List Nat} (h : Appends out₁ out₂ xs ps) (h' : Appends out₂ out₃ ys qs) :
    Appends out₁ out₃ (xs ++ ys) (ps ++ qs) := by
  constructor
  · rw [h'.bytes, h.length, h.bytes, chainBytes_append, List.append_assoc]
  · rw [h'.descriptors, h.length, h.descriptors, chainDescriptors_append, List.append_assoc]
  · rw [h'.placements, h.placements, List.append_assoc]

/-- A descriptor and a payload of its size are one section. -/
theorem Appends.single {out out' : SegmentOutput Bytes} (name : SectionName) {payload : Bytes}
    (next size : Nat) {placements : List Nat}
    (hbytes : out'.bytes = out.bytes ++ (sectionDesc name.type next size ++ payload))
    (hdescriptors : out'.descriptors = out.descriptors ++ [(name.type, out.bytes.length)])
    (hplacements : out'.placements = out.placements ++ placements)
    (hsize : size = sectionDescriptorSize + payload.length)
    (hnext : next = out.bytes.length + size) :
    Appends out out' [⟨name, payload⟩] placements := by
  subst hsize hnext
  refine ⟨?_, ?_, hplacements⟩
  · simp [hbytes, chainBytes, ChainSection.size]
  · simp [hdescriptors, chainDescriptors]

theorem writeDescriptor_writeAll_appends (name : SectionName) {next size : Nat} {payload : Bytes}
    {out : SegmentOutput Bytes} (hsize : size = sectionDescriptorSize + payload.length)
    (hnext : next = out.bytes.length + size) :
    Appends out ((out.writeDescriptor name.type (sectionDesc name.type next size)).writeAll payload)
      [⟨name, payload⟩] [] := by
  refine Appends.single name next size ?_ rfl ?_ hsize hnext
  · simp
  · simp

/-- What an optional section adds to a chain. -/
def optionalSection (name : SectionName) (payload : Option Bytes) : List ChainSection :=
  payload.toList.map (⟨name, ·⟩)

theorem writeOptionalSection_appends (name : SectionName) {next : Nat} {payload : Option Bytes}
    {out : SegmentOutput Bytes}
    (hnext : next = out.bytes.length + chainSize (optionalSection name payload)) :
    Appends out (writeOptionalSection name.type next payload out) (optionalSection name payload)
      [] := by
  cases payload with
  | none => exact .refl out
  | some payload =>
    refine writeDescriptor_writeAll_appends name rfl ?_
    simpa [optionalSection, ChainSection.size] using hnext

/-! ## Scanning a chain -/

theorem readEwf1Section_of_bytes {file : SegmentFile} (pre payload post : Bytes)
    {sectionType : Bytes} {next : Nat} (hlen : sectionType.length ≤ 16) (hname : 0 ∉ sectionType)
    (hnext : next < u64Limit)
    (hfile : file.bytes = pre ++ (sectionDesc sectionType next
      (sectionDescriptorSize + payload.length) ++ payload) ++ post) :
    readEwf1Section file pre.length = .ok
      ⟨⟨sectionType, next, sectionDescriptorSize + payload.length, pre.length, none⟩,
        pre.length + sectionDescriptorSize, payload.length⟩ := by
  have hdesc := length_sectionDesc next (sectionDescriptorSize + payload.length) hlen
  have hbound := file.length_lt
  have htotal : pre.length + sectionDescriptorSize + payload.length ≤ file.bytes.length := by
    rw [hfile]
    simp only [List.length_append, hdesc]
    omega
  have hslice : slice file.bytes pre.length sectionDescriptorSize =
      sectionDesc sectionType next (sectionDescriptorSize + payload.length) := by
    have hmiddle := slice_append_middle pre
      (sectionDesc sectionType next (sectionDescriptorSize + payload.length)) (payload ++ post)
    rw [hdesc] at hmiddle
    rw [hfile]
    simpa [List.append_assoc] using hmiddle
  have hchecksum : validatePresentAdler32Checksum
      (sectionDesc sectionType next (sectionDescriptorSize + payload.length)) 72 72
      "EWF1 section descriptor" = .ok () :=
    validatePresentAdler32Checksum_append _ _ (length_sectionDescBody _ _ hlen)
  have hparse : SectionDescriptor.parse
      (sectionDesc sectionType next (sectionDescriptorSize + payload.length)) pre.length =
      .ok ⟨sectionType, next, sectionDescriptorSize + payload.length, pre.length, none⟩ :=
    parse_sectionDesc pre.length hlen hname hnext (by omega)
  have hsize : SectionDescriptor.dataSize ⟨sectionType, next,
      sectionDescriptorSize + payload.length, pre.length, none⟩ = .ok payload.length := by
    have hne : ¬ (sectionDescriptorSize + payload.length = 0) := by simp [sectionDescriptorSize]
    simp only [SectionDescriptor.dataSize, hne, false_and, if_false]
    simp [checkedSub]
  simp only [readEwf1Section]
  rw [checkedAdd_of_lt (by omega), okOr_some, ok_bind, rejectIf_neg _ (by omega), ok_bind,
    readExactAt_of_le (by omega), ok_bind, hslice, hchecksum, ok_bind, hparse, ok_bind, hsize,
    ok_bind, checkedAdd_of_lt (by omega), okOr_some, ok_bind, rejectIf_neg _ (by omega), ok_bind]
  rfl

/-- The scanner finds the sections of a chain and its terminal section. -/
theorem scanEwf1SectionsFrom_chain {file : SegmentFile} (pre : Bytes)
    {sections : List ChainSection} {terminal : TerminalSection}
    (hfile : file.bytes = pre ++ chainBytes pre.length sections ++
      sectionDesc terminal.ewf1Type (pre.length + chainSize sections) sectionDescriptorSize) :
    scanEwf1SectionsFrom file pre.length = .ok (locate pre.length sections ++
      [terminalAt terminal (pre.length + chainSize sections)]) := by
  have hbound := file.length_lt
  have htotal : pre.length + chainSize sections ≤ file.bytes.length := by
    rw [hfile]
    simp only [List.length_append, length_chainBytes]
    omega
  induction sections generalizing pre with
  | nil =>
    rw [chainSize_nil, Nat.add_zero] at htotal hfile ⊢
    have hread : readEwf1Section file pre.length = .ok (terminalAt terminal pre.length) := by
      refine readEwf1Section_of_bytes pre [] [] (length_terminalType terminal)
        (zero_not_mem_terminalType terminal) (by omega) ?_
      simpa [chainBytes] using hfile
    have hterminal : (terminalAt terminal pre.length).desc.isTerminal = true := by
      cases terminal <;> rfl
    rw [scanEwf1SectionsFrom, hread]
    simp [hterminal, locate]
  | cons entry sections ih =>
    rw [chainSize_cons] at htotal hfile ⊢
    have hsize : entry.size = sectionDescriptorSize + entry.payload.length := rfl
    have hpos : 0 < sectionDescriptorSize := by decide
    -- The bytes up to the next section are the prefix of the induction.
    have hlen : (pre ++ (sectionDesc entry.name.type (pre.length + entry.size) entry.size ++
        entry.payload)).length = pre.length + entry.size := by
      rw [List.length_append, length_chainSection]
    have hrest := ih (pre ++ (sectionDesc entry.name.type (pre.length + entry.size)
      entry.size ++ entry.payload))
      (by rw [hfile, hlen, chainBytes]; simp [List.append_assoc, Nat.add_assoc])
      (by rw [hlen]; omega)
    rw [hlen] at hrest
    have hread : readEwf1Section file pre.length = .ok (entry.located pre.length) := by
      refine readEwf1Section_of_bytes pre entry.payload (chainBytes (pre.length + entry.size)
        sections ++ sectionDesc terminal.ewf1Type (pre.length + (entry.size + chainSize sections))
          sectionDescriptorSize) entry.name.length_type entry.name.zero_not_mem (by omega) ?_
      rw [hfile, chainBytes, hsize]
      simp [List.append_assoc]
    have hterminal : (entry.located pre.length).desc.isTerminal = false := by
      obtain ⟨hdone, hnext⟩ := entry.name.type_not_terminal
      simp [SectionDescriptor.isTerminal, ChainSection.located, hdone, hnext]
    have hnext : (entry.located pre.length).desc.next = pre.length + entry.size := rfl
    have hend : (entry.located pre.length).dataOffset + (entry.located pre.length).dataSize =
        pre.length + entry.size := by
      rw [hsize, ← Nat.add_assoc]
      rfl
    rw [scanEwf1SectionsFrom, hread]
    simp only [hterminal, hnext, hend]
    rw [if_neg (by simp; omega), dif_neg (by omega), if_neg (by omega), hrest]
    simp [locate, Except.map, Nat.add_assoc]

end EwfImage.Ewf1
