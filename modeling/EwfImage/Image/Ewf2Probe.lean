import EwfImage.Image.Ewf2Sections

/-!
# The section chain of an EWF2 segment and the probe for encryption

In every chain that the reader accepts, with leading or with trailing descriptors, the
descriptors and the data lie behind the file header, inside the file and apart from each
other. The probe for encryption follows the descriptors with a walk of its own: it takes
whatever has the size of a descriptor behind the file header for a leading one, where the
reader goes back to the trailing descriptors when the data would exceed the file.

The main result is `scanEwf2Sections_probe_iff`, about the bytes of every file that the reader
accepts: the extents of its sections are disjoint and inside the file, and the answers agree
exactly when `LeadingProbeClear` holds of them. Both walks terminate: each turn leaves fewer
bytes in front of or behind it. `plainChain_of_leadingChain` says that what the reader takes for
a leading chain the probe follows too. The digest of a section is a parameter.
-/

namespace EwfImage

open Fallible Ewf2 LittleEndian Slice Word

/-! ## The probe -/

def readEwf2Descriptor (file : SegmentFile) (offset : Nat) : Result SectionDescriptor := do
  let buf ← file.readExactAt offset sectionDescriptorSize
  SectionDescriptor.parse buf offset

def isProbeEwf2Descriptor (desc : SectionDescriptor) : Bool :=
  desc.descriptorSize = sectionDescriptorSize

def ewf2DescriptorIsEncrypted (desc : SectionDescriptor) : Bool :=
  desc.encrypted || desc.sectionType = .encryptionKeys

/-- The sections that the probes read at most. -/
def maxProbedEwf2Sections (file : SegmentFile) : Nat :=
  (file.bytes.length - fileHeaderSize) / sectionDescriptorSize + 1

/-- Where the descriptor behind a leading descriptor is. -/
def probeLeadingNext (file : SegmentFile) (offset : Nat) (desc : SectionDescriptor) :
    Result Nat := do
  let dataOffset ← okOr (.malformed "EWF2 section data offset overflow")
    (checkedAdd offset desc.descriptorSize)
  let nextOffset ← okOr (.malformed "EWF2 section advance overflow")
    (checkedAdd dataOffset desc.dataSize)
  let paddingSize ← ewf2SectionPaddingSize desc
  let nextOffset ← okOr (.malformed "EWF2 section padding overflow")
    (checkedAdd nextOffset paddingSize)
  rejectIf (file.bytes.length < nextOffset) (.malformed "EWF2 section padding exceeds file")
  rejectIf (nextOffset ≤ offset) (.malformed "EWF2 leading section chain does not advance")
  return nextOffset

/-- The loop of `check_ewf2_leading_encryption`. -/
def checkEwf2LeadingFrom (file : SegmentFile) : Nat → Bool → Nat → Result (Option Bool)
  | 0, _, _ => .error (.malformed "EWF2 leading section descriptor chain is too long")
  | turns + 1, isFirst, offset =>
    if (checkedAdd offset sectionDescriptorSize).all (file.bytes.length < ·) then
      (if isFirst then .ok none
      else .error (.malformed "EWF2 leading section descriptor exceeds file"))
    else match readEwf2Descriptor file offset with
      | .error _ =>
        if isFirst then .ok none
        else .error (.malformed "EWF2 leading section descriptor is invalid")
      | .ok desc =>
        if isProbeEwf2Descriptor desc then
          (if ewf2DescriptorIsEncrypted desc then .ok (some true)
          else if desc.sectionType.isTerminal then .ok (some false)
          else do
            let nextOffset ← probeLeadingNext file offset desc
            checkEwf2LeadingFrom file turns false nextOffset)
        else if isFirst then .ok none
        else .error (.malformed "EWF2 leading section descriptor is invalid")

def checkEwf2LeadingEncryption (file : SegmentFile) : Result (Option Bool) :=
  checkEwf2LeadingFrom file (maxProbedEwf2Sections file) true fileHeaderSize

/-- The loop of `check_ewf2_trailing_encryption`. -/
def checkEwf2TrailingFrom (file : SegmentFile) : Nat → Nat → Result Bool
  | 0, _ => .error (.malformed "EWF2 trailing section descriptor chain is too long")
  | turns + 1, offset => do
    let desc ← readEwf2Descriptor file offset
    rejectIf (isProbeEwf2Descriptor desc = false)
      (.malformed "EWF2 trailing section descriptor is invalid")
    (if ewf2DescriptorIsEncrypted desc then return true
    else if desc.previousOffset = 0 then return false
    else do
      rejectIf (desc.offset ≤ desc.previousOffset)
        (.malformed "EWF2 previous section offset is not before current section")
      checkEwf2TrailingFrom file turns desc.previousOffset)

def checkEwf2TrailingEncryption (file : SegmentFile) : Result Bool := do
  let offset ← okOr (.malformed "EWF2 file is too short")
    (checkedSub file.bytes.length sectionDescriptorSize)
  checkEwf2TrailingFrom file (maxProbedEwf2Sections file) offset

def checkEwf2Encryption (file : SegmentFile) : Result Bool :=
  if file.bytes.length < fileHeaderSize + sectionDescriptorSize then .ok false
  else do
    match ← checkEwf2LeadingEncryption file with
    | some encrypted => return encrypted
    | none => checkEwf2TrailingEncryption file

/-! ## Descriptors -/

theorem parse_ok {buf : Bytes} {offset : Nat} (h : sectionDescriptorSize ≤ buf.length) :
    ∃ desc, SectionDescriptor.parse buf offset = .ok desc ∧ desc.offset = offset := by
  rw [SectionDescriptor.parse, rejectIf_neg _ (Nat.not_lt.mpr h), ok_bind]
  exact ⟨_, rfl, rfl⟩

/-- A descriptor can be read wherever it fits. -/
theorem exists_readEwf2Descriptor {file : SegmentFile} {offset : Nat}
    (h : offset + sectionDescriptorSize ≤ file.bytes.length) :
    ∃ desc, readEwf2Descriptor file offset = .ok desc ∧ desc.offset = offset := by
  rw [readEwf2Descriptor, readExactAt_of_le h, ok_bind]
  exact parse_ok (Nat.le_of_eq (length_slice_of_le h).symm)

theorem readEwf2Descriptor_fits {file : SegmentFile} {offset : Nat} {desc : SectionDescriptor}
    (h : readEwf2Descriptor file offset = .ok desc) :
    offset + sectionDescriptorSize ≤ file.bytes.length ∧ desc.offset = offset := by
  have hfits : offset + sectionDescriptorSize ≤ file.bytes.length := by
    by_contra hnot
    have hread : file.readExactAt offset sectionDescriptorSize = .error (.io .unexpectedEof) :=
      if_neg (by
        rw [not_or]
        exact ⟨by decide, hnot⟩)
    rw [readEwf2Descriptor, hread, error_bind] at h
    cases h
  obtain ⟨desc', hdesc', hoffset⟩ := exists_readEwf2Descriptor hfits
  rw [hdesc'] at h
  cases h
  exact ⟨hfits, hoffset⟩

theorem rejectEncrypted_eq_ok {desc : SectionDescriptor} {u : Unit}
    (h : rejectEncryptedEwf2Section desc = .ok u) : ewf2DescriptorIsEncrypted desc = false := by
  simp only [rejectEncryptedEwf2Section, bind_eq_ok, rejectIf_eq_ok] at h
  obtain ⟨_, hkeys, hencrypted⟩ := h
  rw [ewf2DescriptorIsEncrypted, Bool.or_eq_false_iff, decide_eq_false_iff_not]
  exact ⟨Bool.not_eq_true _ |>.mp hencrypted, hkeys⟩

theorem ewf2SectionPaddingSize_eq_ok {desc : SectionDescriptor} {size : Nat} :
    ewf2SectionPaddingSize desc = .ok size ↔
      desc.paddingSize ≤ desc.dataSize ∧ size = desc.paddingSize := by
  simp only [ewf2SectionPaddingSize, bind_eq_ok, rejectIf_eq_ok, pure_eq_ok, Except.ok.injEq,
    exists_const, Nat.not_lt]
  exact and_congr_right fun _ => eq_comm

theorem isProbe_of_isValid {desc : SectionDescriptor} {strictness : OpenStrictness}
    (h : isValidEwf2Descriptor desc strictness = true) : isProbeEwf2Descriptor desc = true := by
  rw [isValidEwf2Descriptor, Bool.and_eq_true] at h
  exact h.1

/-! ## Chains with leading descriptors -/

section Chains

variable (md5 : Bytes → Bytes) (file : SegmentFile) (strictness : OpenStrictness)

/-- A section with a leading descriptor that the reader accepts. -/
structure LeadingEntry (offset : Nat) (entry : Ewf2Section) (next : Nat) : Prop where
  reads : readEwf2Descriptor file offset = .ok entry.desc
  valid : isValidEwf2Descriptor entry.desc strictness = true
  plain : ewf2DescriptorIsEncrypted entry.desc = false
  dataOffset_eq : entry.dataOffset = offset + sectionDescriptorSize
  dataSize_eq : entry.dataSize = entry.desc.dataSize
  padding_le : entry.desc.paddingSize ≤ entry.desc.dataSize
  next_eq : next = offset + sectionDescriptorSize + entry.desc.dataSize + entry.desc.paddingSize
  next_le : next ≤ file.bytes.length

theorem leadingStep_fits {offset : Nat} (h : offset + sectionDescriptorSize ≤ file.bytes.length) :
    ¬ ((checkedAdd offset sectionDescriptorSize).all (file.bytes.length < ·)) = true := by
  rw [checkedAdd_of_lt (Nat.lt_of_le_of_lt h file.length_lt), Option.all_some, decide_eq_true_eq]
  exact Nat.not_lt.mpr h

theorem leadingEntry_of_step {offset next : Nat} {entry : Ewf2Section}
    (h : leadingStep md5 file strictness offset = .ok (.found entry next)) :
    LeadingEntry file strictness offset entry next := by
  unfold leadingStep at h
  split at h
  · cases h
  · obtain ⟨buf, hbuf, h⟩ := bind_eq_ok.mp h
    split at h
    · cases h
    · rename_i desc hdesc
      split at h
      · rename_i hvalid
        have hsize : desc.descriptorSize = sectionDescriptorSize :=
          of_decide_eq_true (isProbe_of_isValid hvalid)
        simp only [bind_eq_ok, okOr_eq_ok, checkedAdd_eq_some] at h
        obtain ⟨_, _, _, ⟨_, rfl⟩, _, ⟨_, rfl⟩, h⟩ := h
        split at h
        · cases h
        · simp only [bind_eq_ok, okOr_eq_ok, checkedAdd_eq_some, rejectIf_eq_ok, pure_eq_ok,
            Except.ok.injEq, LeadingStep.found.injEq, ewf2SectionPaddingSize_eq_ok] at h
          obtain ⟨_, ⟨hpadding, rfl⟩, _, ⟨_, rfl⟩, _, hnext, _, hplain, _, _, rfl, rfl⟩ := h
          rw [hsize] at hnext
          refine ⟨?_, hvalid, rejectEncrypted_eq_ok hplain, ?_, rfl, hpadding, ?_, ?_⟩
          · rw [readEwf2Descriptor, hbuf, ok_bind, hdesc]
          · simp only [hsize]
          · simp only [hsize]
          · rw [hsize]
            exact Nat.le_of_not_lt hnext
      · cases h

/-- The sections with leading descriptors from an offset on. -/
inductive LeadingChain : Nat → List Ewf2Section → Prop
  | last {offset next : Nat} {entry : Ewf2Section} (hentry : LeadingEntry file strictness offset
      entry next) (hterminal : entry.desc.sectionType.isTerminal = true) :
      LeadingChain offset [entry]
  | link {offset next : Nat} {entry : Ewf2Section} {sections : List Ewf2Section}
      (hentry : LeadingEntry file strictness offset entry next)
      (hterminal : entry.desc.sectionType.isTerminal = false)
      (hrest : LeadingChain next sections) : LeadingChain offset (entry :: sections)

theorem leadingChain_of_scan {offset : Nat} {isFirst : Bool} {sections : List Ewf2Section}
    (h : scanEwf2LeadingFrom md5 file strictness offset isFirst = .ok (some sections)) :
    LeadingChain file strictness offset sections := by
  fun_induction scanEwf2LeadingFrom md5 file strictness offset isFirst generalizing sections with
  | case1 => cases h
  | case2 => cases h
  | case3 => cases h
  | case4 offset isFirst entry next hstep =>
    rename_i hterminal
    cases h
    exact .last (leadingEntry_of_step md5 file strictness hstep) hterminal
  | case5 => cases h
  | case6 offset isFirst entry next hstep =>
    rename_i hterminal hnext ih
    cases hrest : scanEwf2LeadingFrom md5 file strictness next false with
    | error e =>
      rw [hrest] at h
      cases h
    | ok rest =>
      rw [hrest] at h
      cases rest with
      | none => cases h
      | some rest =>
        cases h
        exact .link (leadingEntry_of_step md5 file strictness hstep)
          (Bool.not_eq_true _ |>.mp hterminal) (ih hrest)

theorem LeadingChain.head {file : SegmentFile} {strictness : OpenStrictness} {offset : Nat}
    {sections : List Ewf2Section} (h : LeadingChain file strictness offset sections) :
    ∃ entry next, LeadingEntry file strictness offset entry next := by
  cases h with
  | last hentry hterminal => exact ⟨_, _, hentry⟩
  | link hentry hterminal hrest => exact ⟨_, _, hentry⟩

/-- Behind the first section the reader does not go back to the trailing descriptors. -/
theorem scanEwf2LeadingFrom_ne_none {offset : Nat} {isFirst : Bool} (hfirst : isFirst = false) :
    scanEwf2LeadingFrom md5 file strictness offset isFirst ≠ .ok none := by
  fun_induction scanEwf2LeadingFrom md5 file strictness offset isFirst with
  | case1 => exact fun h => (by cases h)
  | case2 => cases hfirst
  | case3 => exact fun h => (by cases h)
  | case4 => exact fun h => (by cases h)
  | case5 => exact fun h => (by cases h)
  | case6 offset isFirst entry next hstep =>
    rename_i ih
    intro h
    cases hrest : scanEwf2LeadingFrom md5 file strictness next false with
    | error e =>
      rw [hrest] at h
      cases h
    | ok rest =>
      rw [hrest] at h
      cases rest with
      | none => exact ih rfl hrest
      | some rest => cases h

/-! ## Chains with trailing descriptors -/

/-- A section with a trailing descriptor that the reader accepts. -/
structure TrailingEntry (offset : Nat) (entry : Ewf2Section) : Prop where
  reads : readEwf2Descriptor file offset = .ok entry.desc
  valid : isValidEwf2Descriptor entry.desc strictness = true
  plain : ewf2DescriptorIsEncrypted entry.desc = false
  header_le : fileHeaderSize ≤ entry.dataOffset
  data_le : entry.dataOffset + entry.dataSize ≤ offset
  previous_lt : entry.desc.previousOffset ≠ 0 → entry.desc.previousOffset < offset ∧
    entry.dataOffset = entry.desc.previousOffset + sectionDescriptorSize

theorem trailingEntry_of_read {offset : Nat} {entry : Ewf2Section}
    (h : readEwf2TrailingSection md5 file strictness offset = .ok entry) :
    TrailingEntry file strictness offset entry := by
  simp only [readEwf2TrailingSection, bind_eq_ok, rejectIf_eq_ok, okOr_eq_ok, checkedAdd_eq_some,
    pure_eq_ok, Except.ok.injEq, not_not] at h
  obtain ⟨buf, hbuf, desc, hdesc, _, hvalid, _, _, _, _, dataOffset, hdata, _, hheader, _,
    ⟨_, rfl⟩, _, hexceeds, _, hprevious, _, hplain, _, _, rfl⟩ := h
  have hread : readEwf2Descriptor file offset = .ok desc := by
    rw [readEwf2Descriptor, hbuf, ok_bind, hdesc]
  have hoffset := (readEwf2Descriptor_fits hread).2
  refine ⟨hread, hvalid, rejectEncrypted_eq_ok hplain, Nat.le_of_not_lt hheader,
    Nat.le_of_not_lt hexceeds, ?_⟩
  intro hne
  change desc.previousOffset ≠ 0 at hne
  rw [if_neg hne, okOr_eq_ok, checkedAdd_eq_some] at hdata
  rw [if_pos hne] at hprevious
  simp only [bind_eq_ok, rejectIf_eq_ok] at hprevious
  obtain ⟨_, hbefore, _⟩ := hprevious
  rw [hoffset] at hbefore
  exact ⟨Nat.lt_of_not_le hbefore, hdata.2.symm⟩

/-- The sections with trailing descriptors up to an offset, in the order of the file. -/
inductive TrailingChain : Nat → List Ewf2Section → Prop
  | first {offset : Nat} {entry : Ewf2Section} (hentry : TrailingEntry file strictness offset entry)
      (hprevious : entry.desc.previousOffset = 0) : TrailingChain offset [entry]
  | link {offset : Nat} {entry : Ewf2Section} {sections : List Ewf2Section}
      (hentry : TrailingEntry file strictness offset entry)
      (hprevious : entry.desc.previousOffset ≠ 0)
      (hrest : TrailingChain entry.desc.previousOffset sections) :
      TrailingChain offset (sections ++ [entry])

theorem trailingChain_of_scan {left offset : Nat} {found sections : List Ewf2Section}
    (h : scanEwf2TrailingFrom md5 file strictness left offset found = .ok sections) :
    ∃ chain, sections = chain ++ found ∧ TrailingChain file strictness offset chain ∧
      chain.length ≤ left := by
  induction left generalizing offset found with
  | zero => cases h
  | succ left ih =>
    rw [scanEwf2TrailingFrom, bind_eq_ok] at h
    obtain ⟨entry, hread, h⟩ := h
    have hentry := trailingEntry_of_read md5 file strictness hread
    by_cases hprevious : entry.desc.previousOffset = 0
    · rw [if_pos hprevious] at h
      cases h
      exact ⟨[entry], rfl, .first hentry hprevious, Nat.le_add_left 1 left⟩
    · rw [if_neg hprevious] at h
      obtain ⟨chain, rfl, hchain, hlength⟩ := ih h
      refine ⟨chain ++ [entry], by simp, .link hentry hprevious hchain, ?_⟩
      rw [List.length_append, List.length_singleton]
      omega

theorem leadingChain_plain {offset : Nat} {sections : List Ewf2Section}
    (h : LeadingChain file strictness offset sections) :
    sections.any (ewf2DescriptorIsEncrypted ·.desc) = false := by
  induction h with
  | last hentry hterminal => rw [List.any_cons, hentry.plain, List.any_nil, Bool.or_false]
  | link hentry hterminal hrest ih => rw [List.any_cons, hentry.plain, ih, Bool.or_false]

theorem trailingChain_plain {offset : Nat} {sections : List Ewf2Section}
    (h : TrailingChain file strictness offset sections) :
    sections.any (ewf2DescriptorIsEncrypted ·.desc) = false := by
  induction h with
  | first hentry hprevious => rw [List.any_cons, hentry.plain, List.any_nil, Bool.or_false]
  | link hentry hprevious hrest ih =>
    rw [List.any_append, ih, List.any_cons, hentry.plain, List.any_nil, Bool.or_false,
      Bool.or_false]

/-! ## Extents -/

/-- The start and the size of the descriptor and of the data of a section. -/
def Ewf2Section.extents (entry : Ewf2Section) : List (Nat × Nat) :=
  [(entry.desc.offset, sectionDescriptorSize), (entry.dataOffset, entry.dataSize)]

def ewf2Extents (sections : List Ewf2Section) : List (Nat × Nat) :=
  sections.flatMap Ewf2Section.extents

/-- Two extents have no byte in common. -/
def Apart (a b : Nat × Nat) : Prop := a.1 + a.2 ≤ b.1 ∨ b.1 + b.2 ≤ a.1

/-- The extents, each an offset and a length, lie between two offsets and have no byte in common. -/
structure LieApart (lo hi : Nat) (extents : List (Nat × Nat)) : Prop where
  within : ∀ extent ∈ extents, lo ≤ extent.1 ∧ extent.1 + extent.2 ≤ hi
  apart : extents.Pairwise Apart

theorem LieApart.append {lo middle middle' hi : Nat} {extents extents' : List (Nat × Nat)}
    (h : LieApart lo middle extents) (h' : LieApart middle' hi extents') (hlo : lo ≤ middle')
    (hmiddle : middle ≤ middle') (hhi : middle ≤ hi) : LieApart lo hi (extents ++ extents') where
  within extent hmem := by
    rcases List.mem_append.mp hmem with hmem | hmem
    · have hbounds := h.within extent hmem
      omega
    · have hbounds := h'.within extent hmem
      omega
  apart := by
    refine List.pairwise_append.mpr ⟨h.apart, h'.apart, ?_⟩
    intro extent hmem extent' hmem'
    have hbounds := h.within extent hmem
    have hbounds' := h'.within extent' hmem'
    exact .inl (by omega)

theorem lieApart_pair {lo hi : Nat} {a b : Nat × Nat} (ha : lo ≤ a.1 ∧ a.1 + a.2 ≤ hi)
    (hb : lo ≤ b.1 ∧ b.1 + b.2 ≤ hi) (hapart : Apart a b) : LieApart lo hi [a, b] where
  within extent hmem := by
    simp only [List.mem_cons, List.not_mem_nil, or_false] at hmem
    rcases hmem with rfl | rfl
    · exact ha
    · exact hb
  apart := by
    rw [List.pairwise_cons]
    refine ⟨?_, List.pairwise_singleton _ _⟩
    intro extent hmem
    rw [List.mem_singleton.mp hmem]
    exact hapart

theorem leadingEntry_lieApart {offset next : Nat} {entry : Ewf2Section}
    (h : LeadingEntry file strictness offset entry next) : LieApart offset next entry.extents := by
  have hoffset := (readEwf2Descriptor_fits h.reads).2
  have hdata := h.dataOffset_eq
  have hsize := h.dataSize_eq
  have hnext := h.next_eq
  refine lieApart_pair ?_ ?_ ?_
  · simp only
    omega
  · simp only
    omega
  · left
    simp only
    omega

theorem leadingChain_lieApart {offset : Nat} {sections : List Ewf2Section}
    (h : LeadingChain file strictness offset sections) :
    LieApart offset file.bytes.length (ewf2Extents sections) := by
  induction h with
  | @last offset next entry hentry hterminal =>
    have hentryApart := leadingEntry_lieApart file strictness hentry
    have hle := hentry.next_le
    rw [ewf2Extents, List.flatMap_singleton]
    exact ⟨fun extent hmem => ⟨(hentryApart.within extent hmem).1,
      Nat.le_trans (hentryApart.within extent hmem).2 hle⟩, hentryApart.apart⟩
  | @link offset next entry sections hentry hterminal hrest ih =>
    have hnext := hentry.next_eq
    rw [ewf2Extents, List.flatMap_cons]
    exact (leadingEntry_lieApart file strictness hentry).append ih (by omega) (Nat.le_refl _)
      hentry.next_le

theorem trailingEntry_lieApart {offset : Nat} {entry : Ewf2Section}
    (h : TrailingEntry file strictness offset entry) :
    LieApart entry.dataOffset (offset + sectionDescriptorSize) entry.extents := by
  have hoffset := (readEwf2Descriptor_fits h.reads).2
  have hdata := h.data_le
  refine lieApart_pair ?_ ?_ ?_
  · simp only
    omega
  · simp only
    omega
  · right
    simp only
    omega

theorem trailingChain_lieApart {offset : Nat} {sections : List Ewf2Section}
    (h : TrailingChain file strictness offset sections) :
    LieApart fileHeaderSize (offset + sectionDescriptorSize) (ewf2Extents sections) := by
  induction h with
  | @first offset entry hentry hprevious =>
    have hentryApart := trailingEntry_lieApart file strictness hentry
    have hheader := hentry.header_le
    rw [ewf2Extents, List.flatMap_singleton]
    exact ⟨fun extent hmem => ⟨Nat.le_trans hheader (hentryApart.within extent hmem).1,
      (hentryApart.within extent hmem).2⟩, hentryApart.apart⟩
  | @link offset entry sections hentry hprevious hrest ih =>
    obtain ⟨hlt, hdata⟩ := hentry.previous_lt hprevious
    have hheader := hentry.header_le
    rw [ewf2Extents, List.flatMap_append, List.flatMap_singleton]
    exact ih.append (trailingEntry_lieApart file strictness hentry) hheader (Nat.le_of_eq hdata.symm)
      (by omega)

/-! ## The probe on a chain -/

/-- Descriptors that the leading probe follows without meeting an encrypted one. -/
inductive PlainChain : Nat → Prop
  | terminal {offset : Nat} {desc : SectionDescriptor}
      (hread : readEwf2Descriptor file offset = .ok desc)
      (hprobe : isProbeEwf2Descriptor desc = true)
      (hplain : ewf2DescriptorIsEncrypted desc = false)
      (hterminal : desc.sectionType.isTerminal = true) : PlainChain offset
  | link {offset : Nat} {desc : SectionDescriptor}
      (hread : readEwf2Descriptor file offset = .ok desc)
      (hprobe : isProbeEwf2Descriptor desc = true)
      (hplain : ewf2DescriptorIsEncrypted desc = false)
      (hterminal : desc.sectionType.isTerminal = false)
      (hpadding : desc.paddingSize ≤ desc.dataSize)
      (hfits : offset + sectionDescriptorSize + desc.dataSize + desc.paddingSize ≤
        file.bytes.length)
      (hrest : PlainChain (offset + sectionDescriptorSize + desc.dataSize + desc.paddingSize)) :
      PlainChain offset

/-- A chain of the lenient scan is one that the probe follows. -/
theorem plainChain_of_leadingChain {offset : Nat} {sections : List Ewf2Section}
    (h : LeadingChain file strictness offset sections) : PlainChain file offset := by
  induction h with
  | last hentry hterminal =>
    exact .terminal hentry.reads (isProbe_of_isValid hentry.valid) hentry.plain hterminal
  | link hentry hterminal hrest ih =>
    have hnext := hentry.next_eq
    subst hnext
    exact .link hentry.reads (isProbe_of_isValid hentry.valid) hentry.plain hterminal
      hentry.padding_le hentry.next_le ih

/-- The next descriptor of the leading probe. -/
theorem probeLeadingNext_eq_ok {offset next : Nat} {desc : SectionDescriptor}
    (hprobe : isProbeEwf2Descriptor desc = true) :
    probeLeadingNext file offset desc = .ok next ↔
      next = offset + sectionDescriptorSize + desc.dataSize + desc.paddingSize ∧
        desc.paddingSize ≤ desc.dataSize ∧ next ≤ file.bytes.length := by
  have hsize : desc.descriptorSize = sectionDescriptorSize := of_decide_eq_true hprobe
  have hlength := file.length_lt
  have hpos : 0 < sectionDescriptorSize := by decide
  simp only [probeLeadingNext, bind_eq_ok, okOr_eq_ok, checkedAdd_eq_some, rejectIf_eq_ok,
    ewf2SectionPaddingSize_eq_ok, pure_eq_ok, Except.ok.injEq, hsize]
  constructor
  · rintro ⟨_, ⟨_, rfl⟩, _, ⟨_, rfl⟩, _, ⟨hpadding, rfl⟩, _, ⟨_, rfl⟩, _, hfits, _, _, rfl⟩
    exact ⟨rfl, hpadding, by omega⟩
  · rintro ⟨rfl, hpadding, hfits⟩
    exact ⟨_, ⟨by omega, rfl⟩, _, ⟨by omega, rfl⟩, _, ⟨hpadding, rfl⟩, _, ⟨by omega, rfl⟩, (),
      by omega, (), by omega, rfl⟩

/-- A turn of the leading probe at a descriptor of the right size. -/
theorem checkEwf2LeadingFrom_succ {offset : Nat} {desc : SectionDescriptor} (turns : Nat)
    (isFirst : Bool) (hread : readEwf2Descriptor file offset = .ok desc)
    (hprobe : isProbeEwf2Descriptor desc = true) :
    checkEwf2LeadingFrom file (turns + 1) isFirst offset =
      if ewf2DescriptorIsEncrypted desc then .ok (some true)
      else if desc.sectionType.isTerminal then .ok (some false)
      else probeLeadingNext file offset desc >>= checkEwf2LeadingFrom file turns false := by
  have hfits := (readEwf2Descriptor_fits hread).1
  rw [checkEwf2LeadingFrom, if_neg (leadingStep_fits file hfits), hread]
  simp only [hprobe, if_true]

/-- With enough turns, the leading probe finds no encryption exactly in a plain chain. -/
theorem checkEwf2LeadingFrom_eq_some_false {turns offset : Nat} {isFirst : Bool}
    (hturns : file.bytes.length < offset + sectionDescriptorSize * turns) :
    checkEwf2LeadingFrom file turns isFirst offset = .ok (some false) ↔ PlainChain file offset := by
  constructor
  · intro h
    clear hturns
    induction turns generalizing offset isFirst with
    | zero => cases h
    | succ turns ih =>
      by_cases hfits : offset + sectionDescriptorSize ≤ file.bytes.length
      · obtain ⟨desc, hread, _⟩ := exists_readEwf2Descriptor hfits
        by_cases hprobe : isProbeEwf2Descriptor desc = true
        · rw [checkEwf2LeadingFrom_succ file turns isFirst hread hprobe] at h
          split at h
          · cases h
          · rename_i hplain
            split at h
            · rename_i hterminal
              exact .terminal hread hprobe (Bool.not_eq_true _ |>.mp hplain) hterminal
            · rename_i hterminal
              obtain ⟨next, hnext, hrest⟩ := bind_eq_ok.mp h
              obtain ⟨rfl, hpadding, hle⟩ := (probeLeadingNext_eq_ok file hprobe).mp hnext
              exact .link hread hprobe (Bool.not_eq_true _ |>.mp hplain)
                (Bool.not_eq_true _ |>.mp hterminal) hpadding hle (ih hrest)
        · rw [checkEwf2LeadingFrom, if_neg (leadingStep_fits file hfits), hread] at h
          simp only [hprobe, Bool.false_eq_true, if_false] at h
          cases isFirst <;> cases h
      · have hexceeds : (checkedAdd offset sectionDescriptorSize).all
            (file.bytes.length < ·) = true := by
          rw [Option.all_eq_true]
          intro last hlast
          obtain ⟨_, rfl⟩ := checkedAdd_eq_some.mp hlast
          exact decide_eq_true (Nat.lt_of_not_le hfits)
        rw [checkEwf2LeadingFrom, if_pos hexceeds] at h
        cases isFirst <;> cases h
  · intro h
    induction h generalizing turns isFirst with
    | @terminal offset desc hread hprobe hplain hterminal =>
      have hfits := (readEwf2Descriptor_fits hread).1
      obtain ⟨turns, rfl⟩ : ∃ left, turns = left + 1 := Nat.exists_eq_succ_of_ne_zero fun hzero => by
        rw [hzero] at hturns
        omega
      rw [checkEwf2LeadingFrom_succ file turns isFirst hread hprobe, hplain, hterminal]
      rfl
    | @link offset desc hread hprobe hplain hterminal hpadding hfits hrest ih =>
      have hdescriptor := (readEwf2Descriptor_fits hread).1
      obtain ⟨turns, rfl⟩ : ∃ left, turns = left + 1 := Nat.exists_eq_succ_of_ne_zero fun hzero => by
        rw [hzero] at hturns
        omega
      have hnext := (probeLeadingNext_eq_ok file hprobe).mpr ⟨rfl, hpadding, hfits⟩
      rw [checkEwf2LeadingFrom_succ file turns isFirst hread hprobe, hplain, hterminal]
      simp only [Bool.false_eq_true, if_false]
      rw [hnext, ok_bind]
      exact ih (by rw [Nat.mul_succ] at hturns; omega)

/-- Behind the first section the leading probe does not give way. -/
theorem checkEwf2LeadingFrom_ne_none (turns offset : Nat) :
    checkEwf2LeadingFrom file turns false offset ≠ .ok none := by
  induction turns generalizing offset with
  | zero => exact fun h => (by cases h)
  | succ turns ih =>
    intro h
    rw [checkEwf2LeadingFrom] at h
    split at h
    · cases h
    · split at h
      · cases h
      · split at h
        · split at h
          · cases h
          · split at h
            · cases h
            · obtain ⟨next, _, hrest⟩ := bind_eq_ok.mp h
              exact ih next hrest
        · cases h

/-- A descriptor of the right size settles whether the segment has leading descriptors. -/
theorem checkEwf2LeadingFrom_ne_none_of_probe {turns offset : Nat} {desc : SectionDescriptor}
    (hread : readEwf2Descriptor file offset = .ok desc)
    (hprobe : isProbeEwf2Descriptor desc = true) :
    checkEwf2LeadingFrom file (turns + 1) true offset ≠ .ok none := by
  rw [checkEwf2LeadingFrom_succ file turns true hread hprobe]
  split
  · exact fun h => (by cases h)
  · split
    · exact fun h => (by cases h)
    · intro h
      obtain ⟨next, _, hrest⟩ := bind_eq_ok.mp h
      exact checkEwf2LeadingFrom_ne_none file turns next hrest

/-- With turns for all sections of a trailing chain, the probe finds no encryption. -/
theorem checkEwf2TrailingFrom_chain {offset : Nat} {sections : List Ewf2Section}
    (h : TrailingChain file strictness offset sections) {turns : Nat}
    (hturns : sections.length ≤ turns) : checkEwf2TrailingFrom file turns offset = .ok false := by
  induction h generalizing turns with
  | @first offset entry hentry hprevious =>
    obtain ⟨turns, rfl⟩ := Nat.exists_eq_add_of_le' hturns
    rw [List.length_singleton, checkEwf2TrailingFrom, hentry.reads, ok_bind,
      isProbe_of_isValid hentry.valid, rejectIf_neg _ (by decide), ok_bind, hentry.plain,
      if_neg (by decide), if_pos hprevious]
    rfl
  | @link offset entry sections hentry hprevious hrest ih =>
    rw [List.length_append, List.length_singleton] at hturns
    obtain ⟨turns, rfl⟩ := Nat.exists_eq_add_of_le' (Nat.le_trans (Nat.le_add_left 1 _) hturns)
    have hoffset := (readEwf2Descriptor_fits hentry.reads).2
    have hlt := (hentry.previous_lt hprevious).1
    rw [checkEwf2TrailingFrom, hentry.reads, ok_bind, isProbe_of_isValid hentry.valid,
      rejectIf_neg _ (by decide), ok_bind, hentry.plain, if_neg (by decide), if_neg hprevious,
      rejectIf_neg _ (by omega), ok_bind]
    exact ih (by omega)

/-- When the bytes behind the file header are no descriptor, the leading probe gives way. -/
theorem checkEwf2LeadingFrom_eq_none {turns offset : Nat} {desc : SectionDescriptor}
    (hread : readEwf2Descriptor file offset = .ok desc)
    (hprobe : isProbeEwf2Descriptor desc = false) :
    checkEwf2LeadingFrom file (turns + 1) true offset = .ok none := by
  have hfits := (readEwf2Descriptor_fits hread).1
  rw [checkEwf2LeadingFrom, if_neg (leadingStep_fits file hfits), hread]
  simp only [hprobe, Bool.false_eq_true, if_false, if_true]

/-! ## The reader and the probe -/

/-- How the reader came to the sections. -/
theorem chain_of_scanEwf2Sections {sections : List Ewf2Section}
    (h : scanEwf2Sections md5 file strictness = .ok sections) :
    fileHeaderSize + sectionDescriptorSize ≤ file.bytes.length ∧
      (LeadingChain file strictness fileHeaderSize sections ∨
        (∃ reason, leadingStep md5 file strictness fileHeaderSize = .ok (.reject reason)) ∧
          TrailingChain file strictness (file.bytes.length - sectionDescriptorSize) sections ∧
          sections.length ≤ maxProbedEwf2Sections file) := by
  simp only [scanEwf2Sections, bind_eq_ok, rejectIf_eq_ok, Nat.not_lt] at h
  obtain ⟨_, hlength, leading, hleading, h⟩ := h
  refine ⟨hlength, ?_⟩
  cases leading with
  | some found =>
    cases h
    exact .inl (leadingChain_of_scan md5 file strictness hleading)
  | none =>
    right
    constructor
    · rw [scanEwf2LeadingSections, scanEwf2LeadingFrom] at hleading
      split at hleading
      · cases hleading
      · rename_i reason hstep
        exact ⟨reason, hstep⟩
      · rename_i entry next hstep
        split at hleading
        · cases hleading
        · split at hleading
          · cases hleading
          · cases hrest : scanEwf2LeadingFrom md5 file strictness next false with
            | error e =>
              rw [hrest] at hleading
              cases hleading
            | ok rest =>
              cases rest with
              | none => exact absurd hrest (scanEwf2LeadingFrom_ne_none md5 file strictness rfl)
              | some rest =>
                rw [hrest] at hleading
                cases hleading
    · change scanEwf2TrailingSections md5 file strictness = .ok sections at h
      simp only [scanEwf2TrailingSections, bind_eq_ok, okOr_eq_ok, checkedSub_eq_some] at h
      obtain ⟨_, ⟨_, rfl⟩, hscan⟩ := h
      obtain ⟨chain, rfl, hchain, hbound⟩ := trailingChain_of_scan md5 file strictness hscan
      rw [List.append_nil]
      exact ⟨hchain, hbound⟩

/-- What behind the file header has the size of a descriptor starts a plain chain. -/
def LeadingProbeClear : Prop :=
  ∀ desc, readEwf2Descriptor file fileHeaderSize = .ok desc → isProbeEwf2Descriptor desc = true →
    PlainChain file fileHeaderSize

theorem checkEwf2Encryption_eq (hlength : fileHeaderSize + sectionDescriptorSize ≤
    file.bytes.length) :
    checkEwf2Encryption file = (checkEwf2LeadingEncryption file >>= fun
      | some encrypted => .ok encrypted
      | none => checkEwf2TrailingEncryption file) := by
  rw [checkEwf2Encryption, if_neg (Nat.not_lt.mpr hlength)]
  rfl

theorem checkEwf2LeadingEncryption_eq_some_false :
    checkEwf2LeadingEncryption file = .ok (some false) ↔ PlainChain file fileHeaderSize := by
  refine checkEwf2LeadingFrom_eq_some_false file ?_
  have hsize : sectionDescriptorSize = 64 := rfl
  rw [maxProbedEwf2Sections, hsize]
  omega

/-- The probe finds no encryption in a segment that the reader accepts exactly when the leading
probe is clear. -/
theorem checkEwf2Encryption_eq_false_iff {sections : List Ewf2Section}
    (h : scanEwf2Sections md5 file strictness = .ok sections) :
    checkEwf2Encryption file = .ok false ↔ LeadingProbeClear file := by
  obtain ⟨hlength, hchain⟩ := chain_of_scanEwf2Sections md5 file strictness h
  obtain ⟨desc, hread, _⟩ := exists_readEwf2Descriptor hlength
  rw [checkEwf2Encryption_eq file hlength]
  by_cases hprobe : isProbeEwf2Descriptor desc = true
  · -- The leading probe settles the answer.
    have hclear : LeadingProbeClear file ↔ PlainChain file fileHeaderSize := by
      constructor
      · intro hclear
        exact hclear desc hread hprobe
      · intro hplain _ _ _
        exact hplain
    rw [hclear, ← checkEwf2LeadingEncryption_eq_some_false]
    cases hleading : checkEwf2LeadingEncryption file with
    | error e =>
      rw [error_bind]
      constructor <;> exact fun hne => (by cases hne)
    | ok answer =>
      rw [ok_bind]
      cases answer with
      | some encrypted => simp
      | none =>
        exact absurd hleading (checkEwf2LeadingFrom_ne_none_of_probe file hread hprobe)
  · -- The reader found no leading descriptor either.
    have hnot : isProbeEwf2Descriptor desc = false := Bool.not_eq_true _ |>.mp hprobe
    have hnone : checkEwf2LeadingEncryption file = .ok none :=
      checkEwf2LeadingFrom_eq_none file hread hnot
    rw [hnone, ok_bind]
    have hclear : LeadingProbeClear file := by
      intro desc' hread' hprobe'
      rw [hread] at hread'
      cases hread'
      exact absurd hprobe' hprobe
    refine ⟨fun _ => hclear, fun _ => ?_⟩
    rcases hchain with hleading | ⟨_, htrailing, hbound⟩
    · obtain ⟨entry, next, hentry⟩ := hleading.head
      have hreads := hentry.reads
      rw [hread] at hreads
      cases hreads
      exact absurd (isProbe_of_isValid hentry.valid) hprobe
    · change checkEwf2TrailingEncryption file = .ok false
      rw [checkEwf2TrailingEncryption, okOr_eq_ok.mpr
        (checkedSub_eq_some.mpr ⟨by omega, rfl⟩), ok_bind]
      exact checkEwf2TrailingFrom_chain file strictness htrailing hbound

/-- The sections that the reader accepts lie apart between the file header and the end of the
file, and none of them is encrypted. -/
theorem scanEwf2Sections_lieApart {sections : List Ewf2Section}
    (h : scanEwf2Sections md5 file strictness = .ok sections) :
    LieApart fileHeaderSize file.bytes.length (ewf2Extents sections) ∧
      sections.any (ewf2DescriptorIsEncrypted ·.desc) = false := by
  obtain ⟨hlength, hchain⟩ := chain_of_scanEwf2Sections md5 file strictness h
  rcases hchain with hleading | ⟨_, htrailing, _⟩
  · exact ⟨leadingChain_lieApart file strictness hleading,
      leadingChain_plain file strictness hleading⟩
  · have hapart := trailingChain_lieApart file strictness htrailing
    rw [Nat.sub_add_cancel (by omega)] at hapart
    exact ⟨hapart, trailingChain_plain file strictness htrailing⟩

/-- The extents of an accepted segment lie apart inside the file; the probe for encryption gives
the answer of the sections exactly when the leading probe is clear. -/
theorem scanEwf2Sections_probe_iff {sections : List Ewf2Section}
    (h : scanEwf2Sections md5 file strictness = .ok sections) :
    (LieApart fileHeaderSize file.bytes.length (ewf2Extents sections) ∧
      checkEwf2Encryption file = .ok (sections.any (ewf2DescriptorIsEncrypted ·.desc))) ↔
    LeadingProbeClear file := by
  obtain ⟨hapart, hplain⟩ := scanEwf2Sections_lieApart md5 file strictness h
  rw [hplain, checkEwf2Encryption_eq_false_iff md5 file strictness h]
  exact ⟨fun hboth => hboth.2, fun hclear => ⟨hapart, hclear⟩⟩

end Chains

/-! ## Two segments -/

deriving instance DecidableEq for LeadingStep

/-- The file header of a first segment. -/
def ex01Header : Bytes := ex01Signature ++ [2, 1, 1, 0, 1, 0, 0, 0] ++ List.replicate 16 1

/-- A segment with three leading sections. -/
def leadingFile : SegmentFile :=
  ⟨ex01Header ++ sectionDesc .deviceInformation 4 0 ++ [1, 2, 3, 4] ++
    sectionDesc .caseData 0 32 ++ sectionDesc .done 0 100, by decide +kernel⟩

def leadingSections : List Ewf2Section := [
  ⟨plainDescriptor .deviceInformation 4 0 32, 96, 4, .leadingDescriptor⟩,
  ⟨plainDescriptor .caseData 0 32 100, 164, 0, .leadingDescriptor⟩,
  ⟨plainDescriptor .done 0 100 164, 228, 0, .leadingDescriptor⟩]

theorem scanEwf2Sections_probe_leading :
    scanEwf2Sections id leadingFile .strict = .ok leadingSections ∧
      LeadingProbeClear leadingFile := by
  have hsteps : leadingStep id leadingFile .strict fileHeaderSize =
        .ok (.found leadingSections[0] 100) ∧
      leadingStep id leadingFile .strict 100 = .ok (.found leadingSections[1] 164) ∧
      leadingStep id leadingFile .strict 164 = .ok (.found leadingSections[2] 228) := by
    decide +kernel
  obtain ⟨hdevice, hcase, hdone⟩ := hsteps
  have hscan : scanEwf2Sections id leadingFile .strict = .ok leadingSections := by
    rw [scanEwf2Sections, rejectIf_neg _ (by decide +kernel), ok_bind, scanEwf2LeadingSections,
      scanEwf2LeadingFrom_found id leadingFile .strict true hdevice (by decide) (by decide),
      scanEwf2LeadingFrom_found id leadingFile .strict false hcase (by decide) (by decide),
      scanEwf2LeadingFrom, hdone]
    rfl
  obtain ⟨hapart, hplain⟩ := scanEwf2Sections_lieApart id leadingFile .strict hscan
  refine ⟨hscan, (scanEwf2Sections_probe_iff id leadingFile .strict hscan).mp ⟨hapart, ?_⟩⟩
  rw [hplain]
  decide +kernel

/-- The first bytes of the data of a section, which read as an encrypted descriptor whose data
exceeds the file. -/
def misleadingData : Bytes :=
  toLE 4 3 ++ toLE 4 2 ++ toLE 8 0 ++ toLE 8 0x10000 ++ toLE 4 64 ++ List.replicate 36 0

/-- A segment with one trailing section. -/
def misleadingFile : SegmentFile :=
  ⟨ex01Header ++ misleadingData ++ sectionDesc .done 64 0, by decide +kernel⟩

/-- The reader finds no encrypted section, and the probe answers that the segment is encrypted. -/
theorem checkEwf2Encryption_misleading :
    scanEwf2Sections id misleadingFile .strict =
        .ok [⟨plainDescriptor .done 64 0 96, 32, 64, .trailingDescriptor⟩] ∧
      checkEwf2Encryption misleadingFile = .ok true := by
  have hstep : leadingStep id misleadingFile .strict fileHeaderSize =
      .ok (.reject "EWF2 section data exceeds file") := by
    decide +kernel
  have htrailing : scanEwf2TrailingSections id misleadingFile .strict =
      .ok [⟨plainDescriptor .done 64 0 96, 32, 64, .trailingDescriptor⟩] := by
    decide +kernel
  refine ⟨?_, by decide +kernel⟩
  rw [scanEwf2Sections, rejectIf_neg _ (by decide +kernel), ok_bind, scanEwf2LeadingSections,
    scanEwf2LeadingFrom, hstep]
  simp only [if_true, ok_bind]
  exact htrailing

end EwfImage
