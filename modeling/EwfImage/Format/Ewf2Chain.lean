import EwfImage.Image.Ewf2Sections
import EwfImage.Lib.Tiling
import EwfImage.Writer.Ewf2Segment

/-!
# Section chains with trailing descriptors

A written EWF2 segment is a file header and a chain of sections. Each section is its
data with a descriptor behind it, and the descriptor names the place of the one
before. The writer appends such chains; walking back from the last descriptor, the
reader finds exactly their sections.

The main results are `writeEwf2Sections_appends` and `scanEwf2TrailingFrom_chain`. A chain may
begin anywhere in a file and its data is arbitrary; the padding of the data to whole blocks
belongs to the section.
-/

namespace EwfImage.Ewf2

open Fallible LittleEndian Slice Word Tiling

structure ChainEntry where
  sectionType : SectionType
  data : Bytes

namespace ChainEntry

def size (entry : ChainEntry) : Nat := entry.data.length + sectionDescriptorSize

/-- The reader knows the type and does not take the section for an encrypted one. -/
def Readable (entry : ChainEntry) : Prop :=
  entry.sectionType.isUnknown = false ∧ entry.sectionType ≠ .encryptionKeys

/-- The section of the reader for data at `offset`. -/
def located (entry : ChainEntry) (offset previous : Nat) : Ewf2Section where
  desc := plainDescriptor entry.sectionType entry.data.length previous (offset + entry.data.length)
  dataOffset := offset
  dataSize := entry.data.length
  layout := .trailingDescriptor

end ChainEntry

def chainSize (entries : List ChainEntry) : Nat := (entries.map ChainEntry.size).sum

/-- The bytes of a chain that starts at `offset` behind the descriptor at `previous`. -/
def chainBytes : Nat → Nat → List ChainEntry → Bytes
  | _, _, [] => []
  | offset, previous, entry :: entries =>
    entry.data ++ sectionDesc entry.sectionType entry.data.length previous ++
      chainBytes (offset + entry.size) (offset + entry.data.length) entries

/-- The last descriptor of a chain. -/
def lastDescriptor : Nat → Nat → List ChainEntry → Nat
  | _, previous, [] => previous
  | offset, _, entry :: entries =>
    lastDescriptor (offset + entry.size) (offset + entry.data.length) entries

def chainDescriptors : Nat → List ChainEntry → List (SectionType × Nat)
  | _, [] => []
  | offset, entry :: entries =>
    (entry.sectionType, offset + entry.data.length) :: chainDescriptors (offset + entry.size) entries

/-- The sections of the reader for a chain. -/
def locate : Nat → Nat → List ChainEntry → List Ewf2Section
  | _, _, [] => []
  | offset, previous, entry :: entries =>
    entry.located offset previous ::
      locate (offset + entry.size) (offset + entry.data.length) entries

@[simp] theorem chainSize_nil : chainSize [] = 0 := rfl

@[simp] theorem chainSize_cons (entry : ChainEntry) (entries : List ChainEntry) :
    chainSize (entry :: entries) = entry.size + chainSize entries := by
  simp [chainSize]

@[simp] theorem chainSize_append (xs ys : List ChainEntry) :
    chainSize (xs ++ ys) = chainSize xs + chainSize ys := by
  simp [chainSize]

@[simp] theorem length_chainBytes (offset previous : Nat) (entries : List ChainEntry) :
    (chainBytes offset previous entries).length = chainSize entries := by
  induction entries generalizing offset previous with
  | nil => rfl
  | cons entry entries ih =>
    rw [chainBytes, List.length_append, List.length_append, length_sectionDesc, ih, chainSize_cons,
      ChainEntry.size]

theorem chainBytes_append (offset previous : Nat) (xs ys : List ChainEntry) :
    chainBytes offset previous (xs ++ ys) = chainBytes offset previous xs ++
      chainBytes (offset + chainSize xs) (lastDescriptor offset previous xs) ys := by
  induction xs generalizing offset previous with
  | nil => simp [chainBytes, lastDescriptor]
  | cons entry xs ih =>
    simp only [List.cons_append, chainBytes, ih, chainSize_cons, lastDescriptor, List.append_assoc]
    rw [Nat.add_assoc]

theorem chainDescriptors_append (offset : Nat) (xs ys : List ChainEntry) :
    chainDescriptors offset (xs ++ ys) =
      chainDescriptors offset xs ++ chainDescriptors (offset + chainSize xs) ys := by
  induction xs generalizing offset with
  | nil => simp [chainDescriptors]
  | cons entry xs ih =>
    simp only [List.cons_append, chainDescriptors, ih, chainSize_cons]
    rw [Nat.add_assoc]

theorem lastDescriptor_append (offset previous : Nat) (xs ys : List ChainEntry) :
    lastDescriptor offset previous (xs ++ ys) =
      lastDescriptor (offset + chainSize xs) (lastDescriptor offset previous xs) ys := by
  induction xs generalizing offset previous with
  | nil => simp [lastDescriptor]
  | cons entry xs ih =>
    simp only [List.cons_append, lastDescriptor, ih, chainSize_cons]
    rw [Nat.add_assoc]

theorem locate_append (offset previous : Nat) (xs ys : List ChainEntry) :
    locate offset previous (xs ++ ys) = locate offset previous xs ++
      locate (offset + chainSize xs) (lastDescriptor offset previous xs) ys := by
  induction xs generalizing offset previous with
  | nil => simp [locate, lastDescriptor]
  | cons entry xs ih =>
    simp only [List.cons_append, locate, ih, chainSize_cons, lastDescriptor]
    rw [Nat.add_assoc]

theorem descriptors_locate (offset previous : Nat) (entries : List ChainEntry) :
    (locate offset previous entries).map (fun found => (found.desc.sectionType, found.desc.offset)) =
      chainDescriptors offset entries := by
  induction entries generalizing offset previous with
  | nil => rfl
  | cons entry entries ih =>
    simp only [locate, List.map_cons, chainDescriptors, ih]
    rfl

/-- The last descriptor of a chain that is not empty ends where the chain ends. -/
theorem lastDescriptor_eq (offset previous : Nat) {entries : List ChainEntry} (h : entries ≠ []) :
    lastDescriptor offset previous entries + sectionDescriptorSize = offset + chainSize entries := by
  induction entries generalizing offset previous with
  | nil => exact absurd rfl h
  | cons entry entries ih =>
    rw [lastDescriptor, chainSize_cons]
    by_cases hempty : entries = []
    · subst hempty
      simp only [lastDescriptor, chainSize_nil, ChainEntry.size]
      omega
    · rw [ih _ _ hempty]
      omega

theorem length_le_chainSize (entries : List ChainEntry) :
    sectionDescriptorSize * entries.length ≤ chainSize entries := by
  induction entries with
  | nil => simp
  | cons entry entries ih =>
    rw [chainSize_cons, List.length_cons, ChainEntry.size, Nat.mul_add]
    omega

/-- The range of a section in the file: its data and the descriptor behind. -/
def sectionSpan (found : Ewf2Section) : Nat := found.dataSize + sectionDescriptorSize

theorem locate_tiles (offset previous : Nat) (entries : List ChainEntry) :
    Tiles (·.dataOffset) sectionSpan offset (locate offset previous entries)
      (offset + chainSize entries) := by
  induction entries generalizing offset previous with
  | nil => rfl
  | cons entry entries ih =>
    have hpos : 0 < sectionDescriptorSize := by decide
    rw [locate, chainSize_cons, ← Nat.add_assoc]
    refine ⟨rfl, ?_, ih (offset + entry.size) _⟩
    simp only [sectionSpan]
    omega

theorem mem_locate {offset previous : Nat} {entries : List ChainEntry} {found : Ewf2Section}
    (h : found ∈ locate offset previous entries) :
    ∃ entry ∈ entries, ∃ start before, found = entry.located start before := by
  induction entries generalizing offset previous with
  | nil => cases h
  | cons entry entries ih =>
    rcases List.mem_cons.mp h with rfl | h
    · exact ⟨entry, List.mem_cons_self, offset, previous, rfl⟩
    · obtain ⟨other, hother, start, before, hfound⟩ := ih h
      exact ⟨other, List.mem_cons_of_mem _ hother, start, before, hfound⟩

/-! ## Writing a chain -/

/-- `out'` is `out` with a chain appended behind the descriptor at `previous`. -/
structure Appends (previous : Nat) (out out' : SegmentOutput SectionType)
    (entries : List ChainEntry) (placements : List Nat) : Prop where
  bytes : out'.bytes = out.bytes ++ chainBytes out.bytes.length previous entries
  descriptors : out'.descriptors = out.descriptors ++ chainDescriptors out.bytes.length entries
  placements : out'.placements = out.placements ++ placements

theorem Appends.refl (previous : Nat) (out : SegmentOutput SectionType) :
    Appends previous out out [] [] := by
  constructor <;> simp [chainBytes, chainDescriptors]

theorem Appends.length {previous : Nat} {out out' : SegmentOutput SectionType}
    {entries : List ChainEntry} {placements : List Nat}
    (h : Appends previous out out' entries placements) :
    out'.bytes.length = out.bytes.length + chainSize entries := by
  rw [h.bytes, List.length_append, length_chainBytes]

theorem Appends.trans {previous : Nat} {out₁ out₂ out₃ : SegmentOutput SectionType}
    {xs ys : List ChainEntry} {ps qs : List Nat} (h : Appends previous out₁ out₂ xs ps)
    (h' : Appends (lastDescriptor out₁.bytes.length previous xs) out₂ out₃ ys qs) :
    Appends previous out₁ out₃ (xs ++ ys) (ps ++ qs) := by
  constructor
  · rw [h'.bytes, h.length, h.bytes, chainBytes_append, List.append_assoc]
  · rw [h'.descriptors, h.length, h.descriptors, chainDescriptors_append, List.append_assoc]
  · rw [h'.placements, h.placements, List.append_assoc]

def chainEntry (payload : Ewf2Payload) : ChainEntry := ⟨payload.sectionType, payload.data⟩

theorem writeEwf2Section_appends (plan : Ewf2SectionPlan) (sectionType : SectionType)
    (payload : Bytes) (out : SegmentOutput SectionType) :
    Appends plan.previousDescOffset out (writeEwf2Section sectionType payload plan out)
      [⟨sectionType, payload⟩] [] := by
  constructor <;> simp [writeEwf2Section, chainBytes, chainDescriptors]

/-! ## Plans -/

/-- A plan continues a chain from its cursor. -/
def advance (state : Ewf2PlanState) (entries : List ChainEntry) : Ewf2PlanState where
  currentOffset := state.currentOffset + chainSize entries
  previousDescOffset := lastDescriptor state.currentOffset state.previousDescOffset entries

theorem advance_append (state : Ewf2PlanState) (xs ys : List ChainEntry) :
    advance state (xs ++ ys) = advance (advance state xs) ys := by
  simp [advance, lastDescriptor_append, Nat.add_assoc]

theorem planEwf2Section_eq {state next : Ewf2PlanState} {plan : Ewf2SectionPlan} {dataSize : Nat}
    {label : String} (sectionType : SectionType) {data : Bytes} (hdata : data.length = dataSize)
    (h : planEwf2Section state dataSize label = .ok (plan, next)) :
    plan = ⟨state.currentOffset, state.previousDescOffset⟩ ∧
      next = advance state [⟨sectionType, data⟩] := by
  simp only [planEwf2Section, writerCheckedAdd, bind_eq_ok, okOr_eq_ok, checkedAdd_eq_some,
    pure_eq_ok, Except.ok.injEq, Prod.mk.injEq] at h
  obtain ⟨_, ⟨_, rfl⟩, _, ⟨_, rfl⟩, rfl, rfl⟩ := h
  refine ⟨rfl, ?_⟩
  simp [advance, lastDescriptor, ChainEntry.size, hdata, Nat.add_assoc]

/-- Sections written as planned are appended as a chain. -/
theorem writeEwf2Sections_appends {entries : List Ewf2Payload} {state next : Ewf2PlanState}
    {plans : List Ewf2SectionPlan} {out : SegmentOutput SectionType}
    (hplan : planEwf2Sections entries state = .ok (plans, next))
    (hlength : out.bytes.length = state.currentOffset) :
    Appends state.previousDescOffset out (writeEwf2Sections out (entries.zip plans))
        (entries.map chainEntry) [] ∧
      next = advance state (entries.map chainEntry) := by
  induction entries generalizing state plans out with
  | nil =>
    cases hplan
    exact ⟨.refl _ _, rfl⟩
  | cons entry entries ih =>
    simp only [planEwf2Sections, bind_eq_ok, pure_eq_ok, Except.ok.injEq, Prod.mk.injEq] at hplan
    obtain ⟨⟨plan, middle⟩, hfirst, ⟨rest, last⟩, hrest, rfl, rfl⟩ := hplan
    obtain ⟨rfl, rfl⟩ := planEwf2Section_eq entry.sectionType rfl hfirst
    have happends : Appends state.previousDescOffset out (writeEwf2Section entry.sectionType
        entry.data ⟨state.currentOffset, state.previousDescOffset⟩ out) [chainEntry entry] [] :=
      writeEwf2Section_appends ⟨state.currentOffset, state.previousDescOffset⟩ entry.sectionType
        entry.data out
    have hmiddle := happends.length
    rw [hlength] at hmiddle
    obtain ⟨hothers, hnext⟩ := ih hrest hmiddle
    constructor
    · rw [List.zip_cons_cons, writeEwf2Sections, List.foldl_cons]
      have hall := happends.trans (by rw [hlength]; exact hothers)
      rw [List.append_nil] at hall
      exact hall
    · rw [hnext, List.map_cons]
      exact (advance_append state [chainEntry entry] _).symm

/-! ## Scanning a chain back -/

section Scan

variable (md5 : Bytes → Bytes) {file : SegmentFile} (strictness : OpenStrictness)

theorem readEwf2TrailingSection_of_bytes {entry : ChainEntry} {pre post : Bytes} {previous : Nat}
    (hreadable : entry.Readable)
    (hfile : file.bytes = pre ++ (entry.data ++ sectionDesc entry.sectionType entry.data.length
      previous) ++ post)
    (hprevious : previous = 0 ∧ pre.length = fileHeaderSize ∨
      0 < previous ∧ fileHeaderSize ≤ pre.length ∧ previous + sectionDescriptorSize = pre.length) :
    readEwf2TrailingSection md5 file strictness (pre.length + entry.data.length) =
      .ok (entry.located pre.length previous) := by
  have hbound := file.length_lt
  have htotal : pre.length + entry.data.length + sectionDescriptorSize ≤ file.bytes.length := by
    rw [hfile]
    simp only [List.length_append, length_sectionDesc]
    omega
  have hslice : slice file.bytes (pre.length + entry.data.length) sectionDescriptorSize =
      sectionDesc entry.sectionType entry.data.length previous := by
    have hmiddle := slice_append_middle (pre ++ entry.data)
      (sectionDesc entry.sectionType entry.data.length previous) post
    rw [length_sectionDesc, List.length_append] at hmiddle
    rw [hfile]
    simpa [List.append_assoc] using hmiddle
  have hparse := parse_sectionDesc (pre.length + entry.data.length) hreadable.1
    (show entry.data.length < u64Limit by omega) (show previous < u64Limit by omega)
  have hchecksum : Ewf1.validatePresentAdler32Checksum
      (sectionDesc entry.sectionType entry.data.length previous) 60 60 "EWF2 section descriptor" =
      .ok () :=
    Ewf1.validatePresentAdler32Checksum_append _ _ (length_sectionDescBody _ _ _)
  have hheader : fileHeaderSize ≤ pre.length := by
    rcases hprevious with ⟨_, hlen⟩ | ⟨_, hle, _⟩
    · omega
    · exact hle
  have hlocated : entry.located pre.length previous = ⟨plainDescriptor entry.sectionType
      entry.data.length previous (pre.length + entry.data.length), pre.length, entry.data.length,
      .trailingDescriptor⟩ := rfl
  rw [hlocated]
  generalize hdesc : plainDescriptor entry.sectionType entry.data.length previous
    (pre.length + entry.data.length) = desc at hparse ⊢
  have hlink : desc.previousOffset = previous := by rw [← hdesc]; rfl
  have hsize : desc.dataSize = entry.data.length := by rw [← hdesc]; rfl
  have hplace : desc.offset = pre.length + entry.data.length := by rw [← hdesc]; rfl
  have hvalid : isValidEwf2Descriptor desc strictness = true := by
    rw [← hdesc]
    simp [isValidEwf2Descriptor, plainDescriptor, hreadable.1]
  have hpadding : ewf2SectionPaddingSize desc = .ok 0 := by
    rw [← hdesc]
    simp [ewf2SectionPaddingSize, plainDescriptor]
  have hencrypted : rejectEncryptedEwf2Section desc = .ok () := by
    rw [← hdesc]
    simp [rejectEncryptedEwf2Section, plainDescriptor, hreadable.2]
  have hhash : validateEwf2SectionIntegrityHash md5 file desc pre.length = .ok () := by
    rw [← hdesc]
    rfl
  unfold readEwf2TrailingSection
  rw [readExactAt_of_le htotal, ok_bind, hslice, hparse, ok_bind, rejectIf_neg _ (by simp [hvalid]),
    ok_bind, hchecksum, ok_bind, hpadding, ok_bind, hlink, hsize, hplace]
  rcases hprevious with ⟨rfl, hlen⟩ | ⟨hpos, _, hlen⟩
  · rw [if_pos rfl, ok_bind, ← hlen, rejectIf_neg _ (by omega), ok_bind,
      checkedAdd_of_lt (by omega), okOr_some, ok_bind, rejectIf_neg _ (by omega), ok_bind,
      if_neg (by simp), ok_bind, hencrypted, ok_bind, hhash, ok_bind]
    rfl
  · have hdescriptor : 0 < sectionDescriptorSize := by decide
    rw [if_neg (by omega), checkedAdd_of_lt (by omega), okOr_some, ok_bind, hlen,
      rejectIf_neg _ (by omega), ok_bind, checkedAdd_of_lt (by omega), okOr_some, ok_bind,
      rejectIf_neg _ (by omega), ok_bind, if_pos (by omega), rejectIf_neg _ (by omega), ok_bind,
      ok_bind, rejectIf_neg _ (by omega), ok_bind, hencrypted, ok_bind, hhash, ok_bind]
    rfl

/-- The walk back from the last descriptor of a chain finds its sections. -/
theorem scanEwf2TrailingFrom_chain {header : Bytes} (post : Bytes) {entries : List ChainEntry}
    {left : Nat} (found : List Ewf2Section) (hheader : header.length = fileHeaderSize)
    (hreadable : ∀ entry ∈ entries, entry.Readable) (hne : entries ≠ [])
    (hfile : file.bytes = header ++ chainBytes fileHeaderSize 0 entries ++ post)
    (hleft : entries.length ≤ left) :
    scanEwf2TrailingFrom md5 file strictness left (lastDescriptor fileHeaderSize 0 entries) found =
      .ok (locate fileHeaderSize 0 entries ++ found) := by
  induction left generalizing entries post found with
  | zero =>
    have hpos := List.length_pos_iff.mpr hne
    omega
  | succ left ih =>
    -- The last section stands behind the chain of the others.
    obtain ⟨others, entry, rfl⟩ : ∃ others entry, entries = others ++ [entry] :=
      ⟨entries.dropLast, entries.getLast hne, (List.dropLast_append_getLast hne).symm⟩
    have hsplit : file.bytes = (header ++ chainBytes fileHeaderSize 0 others) ++
        (entry.data ++ sectionDesc entry.sectionType entry.data.length
          (lastDescriptor fileHeaderSize 0 others)) ++ post := by
      rw [hfile, chainBytes_append]
      simp [chainBytes, List.append_assoc]
    have hlen : (header ++ chainBytes fileHeaderSize 0 others).length =
        fileHeaderSize + chainSize others := by
      rw [List.length_append, length_chainBytes, hheader]
    have hprevious : lastDescriptor fileHeaderSize 0 others = 0 ∧
        (header ++ chainBytes fileHeaderSize 0 others).length = fileHeaderSize ∨
        0 < lastDescriptor fileHeaderSize 0 others ∧
          fileHeaderSize ≤ (header ++ chainBytes fileHeaderSize 0 others).length ∧
          lastDescriptor fileHeaderSize 0 others + sectionDescriptorSize =
            (header ++ chainBytes fileHeaderSize 0 others).length := by
      by_cases hothers : others = []
      · left
        subst hothers
        exact ⟨rfl, by simp [chainBytes, hheader]⟩
      · right
        have hend := lastDescriptor_eq fileHeaderSize 0 hothers
        have hsize := length_le_chainSize others
        have hcount := List.length_pos_iff.mpr hothers
        simp only [fileHeaderSize, sectionDescriptorSize] at *
        omega
    have hread := readEwf2TrailingSection_of_bytes md5 strictness
      (hreadable entry (by simp)) hsplit hprevious
    have hlast : lastDescriptor fileHeaderSize 0 (others ++ [entry]) =
        (header ++ chainBytes fileHeaderSize 0 others).length + entry.data.length := by
      rw [lastDescriptor_append, hlen]
      rfl
    rw [hlast, scanEwf2TrailingFrom, hread, ok_bind, locate_append, hlen]
    have hlink : (entry.located (fileHeaderSize + chainSize others)
        (lastDescriptor fileHeaderSize 0 others)).desc.previousOffset =
        lastDescriptor fileHeaderSize 0 others := rfl
    rw [hlink]
    by_cases hothers : others = []
    · subst hothers
      simp [lastDescriptor, locate]
    · have hpositive : lastDescriptor fileHeaderSize 0 others ≠ 0 := by
        rcases hprevious with ⟨hzero, hlength⟩ | ⟨hpos, _⟩
        · have hsize := length_le_chainSize others
          have hcount := List.length_pos_iff.mpr hothers
          simp only [fileHeaderSize, sectionDescriptorSize] at *
          omega
        · omega
      rw [if_neg hpositive]
      have hrest := ih (entry.data ++ sectionDesc entry.sectionType entry.data.length
          (lastDescriptor fileHeaderSize 0 others) ++ post)
        (entry.located (fileHeaderSize + chainSize others)
          (lastDescriptor fileHeaderSize 0 others) :: found)
        (fun other hother => hreadable other (List.mem_append_left _ hother)) hothers
        (by rw [hsplit]; simp only [List.append_assoc])
        (by simp only [List.length_append, List.length_singleton] at hleft; omega)
      rw [hrest]
      simp [locate]

theorem scanEwf2TrailingSections_chain {header : Bytes} {entries : List ChainEntry}
    (hheader : header.length = fileHeaderSize) (hreadable : ∀ entry ∈ entries, entry.Readable)
    (hne : entries ≠ []) (hfile : file.bytes = header ++ chainBytes fileHeaderSize 0 entries) :
    scanEwf2TrailingSections md5 file strictness = .ok (locate fileHeaderSize 0 entries) := by
  have hlength : file.bytes.length = fileHeaderSize + chainSize entries := by
    rw [hfile, List.length_append, length_chainBytes, hheader]
  have hend := lastDescriptor_eq fileHeaderSize 0 hne
  have hcount := length_le_chainSize entries
  have hoffset : checkedSub file.bytes.length sectionDescriptorSize =
      some (lastDescriptor fileHeaderSize 0 entries) := by
    rw [checkedSub_eq_some]
    omega
  have hleft : entries.length ≤
      (file.bytes.length - fileHeaderSize) / sectionDescriptorSize + 1 := by
    have hdiv : entries.length ≤ chainSize entries / sectionDescriptorSize := by
      rw [Nat.le_div_iff_mul_le (by decide), Nat.mul_comm]
      exact hcount
    rw [hlength, Nat.add_sub_cancel_left]
    omega
  unfold scanEwf2TrailingSections
  rw [hoffset, okOr_some, ok_bind]
  dsimp only
  rw [scanEwf2TrailingFrom_chain md5 strictness [] [] hheader hreadable hne (by rw [hfile]; simp) hleft,
    List.append_nil]

end Scan

end EwfImage.Ewf2
