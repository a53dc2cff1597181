import EwfImage.Image.Opening
import EwfImage.Reading.RecoveryAccounting

/-!
# Recovery plans

Opening a recovery does not need an intact image. The descriptors of a segment are followed as
far as they can be trusted, and what is wrong behind that is noted. The table sections found on
the way are put into groups of a table and its copy, each group behind the chunks of the one
before it. A table that cannot be read leaves its group to the other one; where neither gives a
count, the chunks of a later table could not be placed, so that only the last table may be lost.

The main results are about every plan that opens. `openRecovery_spec` says that its groups tile
the first chunks of the media, and that each of their tables has an entry for every chunk of the
group inside the segment; `scanRecoverySectionsFrom_of_scan` says that an intact chain is scanned
as the strict reader scans it. `recoverChunk_of_mem` and `recoverChunk_of_le` are what that means for
the recovery of a chunk: it is read through the tables of the one group around it, and replaced
with zeros behind the last one. The segments are regular files that can be read, and the paths
of the plan are left out.
-/

namespace EwfImage.Reading

open Ewf1 Fallible LittleEndian Search Slice Tiling Word

/-! ## Notices -/

/-- The text of an error. Reading a segment only fails at its end. -/
def errorText : EwfError → String
  | .io _ => "I/O error: segment file ended before requested range"
  | .invalidSignature => "invalid EWF signature"
  | .bufferTooShort needed actual => s!"buffer too short: needed {needed} bytes, found {actual}"
  | .noSegments path => s!"no EWF segments found for {path}"
  | .passwordRequired => "password required for encrypted EWF image"
  | .passwordRejected => "password rejected for encrypted EWF image"
  | .decryptionValidationFailed => "decrypted EWF data failed validation"
  | .unsupported feature => s!"unsupported EWF feature: {feature}"
  | .aborted => "operation aborted"
  | .malformed reason => s!"malformed EWF image: {reason}"

/-- What `open_segments` has put together of `segments` segments. -/
structure RecoveryPlan (segments : Nat) where
  groups : List (RecoveryGroup segments) := []
  nextChunk : Nat := 0
  chunkSize : Nat := 0
  logicalSize : Nat := 0
  setIdentifier : Option SetIdentifier := none
  notices : List RecoveryNotice := []
  omittedNotices : Nat := 0

/-- `notice` -/
def RecoveryPlan.notice {segments : Nat} (plan : RecoveryPlan segments) (options : RecoveryOptions)
    (notice : RecoveryNotice) : RecoveryPlan segments :=
  if plan.notices.length < options.maximumRecords then
    { plan with notices := plan.notices ++ [notice] }
  else { plan with omittedNotices := plan.omittedNotices + 1 }

/-! ## The descriptors of a segment -/

/-- What a turn of the loop of `scan_sections` comes to: the scan stops before a section, ends
with one, or goes on behind it. -/
inductive ScanTurn
  | stops (notice : RecoveryNotice)
  | ends (found : Ewf1Section) (notice : Option RecoveryNotice)
  | goesOn (found : Ewf1Section)

def scanTurn (file : SegmentFile) (index : Nat) (lastPath : Bool) (offset : Nat) :
    Result ScanTurn := do
  let noticed := fun message => (⟨index, offset, message⟩ : RecoveryNotice)
  if file.bytes.length - offset < sectionDescriptorSize then
    return .stops (noticed "descriptor chain is truncated")
  else do
    let bytes ← file.readExactAt offset sectionDescriptorSize
    match validatePresentAdler32Checksum bytes 72 72 "EWF1 section descriptor" with
    | .error e => return .stops (noticed (errorText e))
    | .ok () => do
      let desc ← SectionDescriptor.parse bytes offset
      match desc.dataSize with
      | .error e => return .stops (noticed (errorText e))
      | .ok size =>
        let dataOffset := offset + sectionDescriptorSize
        let dataSize := min size (file.bytes.length - dataOffset)
        let found : Ewf1Section := { desc, dataOffset, dataSize }
        return if dataSize < size then .ends found (some (noticed "section payload is truncated"))
          else if desc.isTerminal then
            .ends found (if desc.sectionType ≠ ascii "done" ∧ lastPath then
              some (noticed "segment has an incomplete acquisition marker") else none)
          else if desc.next < dataOffset + size ∨ desc.next ≤ offset then .ends found (some
            (noticed "descriptor chain ends or does not advance beyond the current section"))
          else .goesOn found

/-- The data of a section lies in its segment. -/
def Fits (file : SegmentFile) (found : Ewf1Section) : Prop :=
  found.dataOffset + found.dataSize ≤ file.bytes.length

/-- What a turn finds lies in the segment, and what comes behind it is further on. -/
def ScanTurn.Sound (file : SegmentFile) (offset : Nat) : ScanTurn → Prop
  | .stops _ => True
  | .ends found _ => Fits file found
  | .goesOn found => Fits file found ∧ offset < file.bytes.length ∧ offset < found.desc.next

theorem scanTurn_sound {file : SegmentFile} {index offset : Nat} {lastPath : Bool}
    {turn : ScanTurn} (h : scanTurn file index lastPath offset = .ok turn) :
    turn.Sound file offset := by
  unfold scanTurn at h
  have hpos : 0 < sectionDescriptorSize := by decide
  by_cases hshort : file.bytes.length - offset < sectionDescriptorSize
  · rw [if_pos hshort] at h
    cases h
    trivial
  · rw [if_neg hshort, bind_eq_ok] at h
    obtain ⟨bytes, -, h⟩ := h
    split at h
    · cases h
      trivial
    · obtain ⟨desc, -, h⟩ := bind_eq_ok.mp h
      split at h
      · cases h
        trivial
      · rename_i size _
        have hfits : Fits file ⟨desc, offset + sectionDescriptorSize,
            min size (file.bytes.length - (offset + sectionDescriptorSize))⟩ := by
          unfold Fits
          dsimp only
          omega
        obtain rfl := Except.ok.inj h
        split_ifs with hpayload hterminal hlast hnext
        · exact hfits
        · exact hfits
        · exact hfits
        · exact hfits
        · exact ⟨hfits, by omega, by dsimp only; omega⟩

/-- The loop of `scan_sections` from the descriptor at `offset`, with the notice that ends it. -/
def scanRecoverySectionsFrom (file : SegmentFile) (index : Nat) (lastPath : Bool) (offset : Nat) :
    Result (List Ewf1Section × Option RecoveryNotice) :=
  match _hturn : scanTurn file index lastPath offset with
  | .error e => .error e
  | .ok (.stops notice) => .ok ([], some notice)
  | .ok (.ends found notice) => .ok ([found], notice)
  | .ok (.goesOn found) =>
    (scanRecoverySectionsFrom file index lastPath found.desc.next).map fun behind =>
      (found :: behind.1, behind.2)
termination_by file.bytes.length - offset
decreasing_by
  have hsound := scanTurn_sound _hturn
  have hinside := hsound.2.1
  have hnext := hsound.2.2
  omega

theorem scanRecoverySectionsFrom_fits {file : SegmentFile} {index offset : Nat} {lastPath : Bool}
    {sections : List Ewf1Section} {notice : Option RecoveryNotice}
    (h : scanRecoverySectionsFrom file index lastPath offset = .ok (sections, notice)) :
    ∀ found ∈ sections, Fits file found := by
  fun_induction scanRecoverySectionsFrom file index lastPath offset generalizing sections notice with
  | case1 offset e hturn => cases h
  | case2 offset ended hturn =>
    cases h
    intro found hfound
    cases hfound
  | case3 offset last ended hturn =>
    cases h
    intro found hfound
    rw [List.mem_singleton.mp hfound]
    exact scanTurn_sound hturn
  | case4 offset first hturn ih =>
    cases hrest : scanRecoverySectionsFrom file index lastPath first.desc.next with
    | error e =>
      rw [hrest] at h
      cases h
    | ok behind =>
      rw [hrest] at h
      cases h
      intro found hfound
      rcases List.mem_cons.mp hfound with rfl | hfound
      · exact (scanTurn_sound hturn).1
      · exact ih hrest found hfound

/-- A section that the strict reader accepts ends the scan or leads on. -/
theorem scanTurn_of_read {file : SegmentFile} {offset : Nat} {found : Ewf1Section}
    (h : readEwf1Section file offset = .ok found) (index : Nat) (lastPath : Bool) :
    (found.desc.isTerminal = true → found.desc.sectionType = ascii "done" →
      scanTurn file index lastPath offset = .ok (.ends found none)) ∧
    (found.desc.isTerminal = false → offset < found.desc.next →
      found.dataOffset + found.dataSize ≤ found.desc.next →
      scanTurn file index lastPath offset = .ok (.goesOn found)) := by
  simp only [readEwf1Section, bind_eq_ok, okOr_eq_ok, checkedAdd_eq_some, rejectIf_eq_ok, pure_eq_ok,
    Except.ok.injEq] at h
  obtain ⟨_, ⟨-, rfl⟩, -, hinside, bytes, hbytes, _, hchecksum, desc, hdesc, size, hsize, _,
    ⟨-, rfl⟩, -, hfits, rfl⟩ := h
  have hlong : ¬ file.bytes.length - offset < sectionDescriptorSize := by omega
  have hmin : min size (file.bytes.length - (offset + sectionDescriptorSize)) = size := by omega
  unfold scanTurn
  simp only [if_neg hlong, hbytes, ok_bind, hchecksum, hdesc, hsize, hmin, Nat.lt_irrefl, if_false,
    pure_eq_ok]
  constructor
  · intro hterminal hdone
    rw [if_pos hterminal, if_neg (fun hother => hother.1 hdone)]
  · intro hplain hnext hbehind
    rw [if_neg (by rw [hplain]; decide), if_neg (by omega)]

theorem scanEwf1SectionsFrom_ne_nil {file : SegmentFile} {offset : Nat}
    {sections : List Ewf1Section} (h : scanEwf1SectionsFrom file offset = .ok sections) :
    sections ≠ [] := by
  fun_induction scanEwf1SectionsFrom file offset generalizing sections with
  | case1 => cases h
  | case2 =>
    cases h
    exact List.cons_ne_nil _ _
  | case3 => cases h
  | case4 => cases h
  | case5 offset found hread next hmore hforward hbehind =>
    cases hrest : scanEwf1SectionsFrom file next with
    | error e =>
      rw [hrest] at h
      cases h
    | ok rest =>
      rw [hrest] at h
      cases h
      exact List.cons_ne_nil _ _

/-- An intact chain is scanned as the strict reader scans it, and nothing is noted. -/
theorem scanRecoverySectionsFrom_of_scan {file : SegmentFile} {offset : Nat}
    {sections : List Ewf1Section} (h : scanEwf1SectionsFrom file offset = .ok sections)
    (hdone : sections.getLast?.any (·.desc.sectionType = ascii "done") = true) (index : Nat)
    (lastPath : Bool) :
    scanRecoverySectionsFrom file index lastPath offset = .ok (sections, none) := by
  fun_induction scanEwf1SectionsFrom file offset generalizing sections with
  | case1 => cases h
  | case2 offset found hread next =>
    cases h
    have htype : found.desc.sectionType = ascii "done" := by simpa using hdone
    have hterminal : found.desc.isTerminal = true := by simp [SectionDescriptor.isTerminal, htype]
    rw [scanRecoverySectionsFrom, (scanTurn_of_read hread index lastPath).1 hterminal htype]
  | case3 => cases h
  | case4 => cases h
  | case5 offset found hread next hmore hforward hbehind =>
    rename_i ih
    cases hrest : scanEwf1SectionsFrom file next with
    | error e =>
      rw [hrest] at h
      cases h
    | ok rest =>
      rw [hrest] at h
      cases h
      have hnone := scanEwf1SectionsFrom_ne_nil hrest
      rw [List.getLast?_cons_of_ne_nil hnone] at hdone
      have hplain : found.desc.isTerminal = false := by
        simpa using (not_or.mp hmore).1
      rw [scanRecoverySectionsFrom, (scanTurn_of_read hread index lastPath).2 hplain
        (Nat.lt_of_not_le hforward) (Nat.le_of_not_lt hbehind)]
      dsimp only
      rw [ih hrest hdone]
      rfl

/-! ## The tables -/

/-- `table_identity` -/
def tableIdentity (file : SegmentFile) (table : Ewf1Section) : Result (Nat × Nat) := do
  rejectIf (table.dataSize < 24) (.malformed "recovery table header is truncated")
  let header ← file.readExactAt table.dataOffset 24
  validatePresentAdler32Checksum header 20 20 "EWF1 table header"
  return (leAt header 0 4, leAt header 8 8)

def parseCandidate {segments : Nat} (file : SegmentFile) (sections : List Ewf1Section)
    (table : Ewf1Section) (segment : Fin segments) : Result (Candidate segments) := do
  let (count, base) ← tableIdentity file table
  let entriesOffset := table.dataOffset + 24
  rejectIf (count = 0 ∨ table.dataSize - 24 < count * 4)
    (.malformed "recovery table entries are missing or truncated")
  let first ← file.readExactAt entriesOffset 4
  let firstOffset ← okOr (.malformed "recovery first chunk offset overflow")
    (checkedAdd base (fromLE first &&& 0x7fffffff))
  let sectors ← okOr (.unsupported "recovery requires a separate sectors section")
    ((matchingSectorsSection sections base).or (sectorsSectionContainingOffset sections firstOffset))
  let entriesEnd := entriesOffset + count * 4
  let trustedTable := if entriesEnd + 4 ≤ table.dataOffset + table.dataSize then
      (validatePresentTableEntriesChecksum file entriesOffset (count * 4) entriesEnd
        "recovery table").isOk
    else true
  let dataSize ← sectors.desc.dataSize
  let dataEnd ← okOr (.malformed "recovery sectors extent overflow")
    (checkedAdd sectors.dataOffset dataSize)
  return {
    range := {
      kind := .ewf1
      segmentIndex := segment
      firstChunk := 0
      chunkCount := count
      entriesOffset
      baseOffset := base
      dataEnd := some dataEnd
      ewf1AllowLargeCompressedChunks := false
      ewf1CompressionMethod := some .zlib
      ewf2CompressionMethod := none }
    dataStart := sectors.dataOffset
    trustedTable
    located := segment.isLt
    bounded := rfl }

/-- The table sections of one group: a table, or a table and its copy. -/
structure TableSections where
  table : Ewf1Section
  mirror : Option Ewf1Section := none

/-- A copy belongs to the table before it unless both have a header and the headers differ. -/
def isMirror (file : SegmentFile) (table next : Ewf1Section) : Bool :=
  table.desc.sectionType ≠ ascii "table2" && next.desc.sectionType = ascii "table2" &&
    match (tableIdentity file table).toOption, (tableIdentity file next).toOption with
    | some identity, some other => identity = other
    | _, _ => true

/-- The tables that `collect_tables` takes together. -/
def groupTables (file : SegmentFile) : List Ewf1Section → List TableSections
  | [] => []
  | [table] => [{ table }]
  | table :: next :: tables =>
    if isMirror file table next then { table, mirror := some next } :: groupTables file tables
    else { table } :: groupTables file (next :: tables)

/-- The candidates of a group in the order in which they are tried. -/
def RecoveryGroup.candidates {segments : Nat} (group : RecoveryGroup segments) :
    List (Candidate segments) :=
  group.primary.toList ++ group.redundant.toList

section Collect

variable {segments : Nat} (options : RecoveryOptions) (file : SegmentFile)
  (sections : List Ewf1Section) (segment : Fin segments)

def tableCandidate (table : Ewf1Section) (plan : RecoveryPlan segments) :
    Option (Candidate segments) × RecoveryPlan segments :=
  match parseCandidate file sections table segment with
  | .ok candidate => (some candidate, if candidate.trustedTable then plan
      else plan.notice options ⟨segment, table.dataOffset,
        "table entry checksum failed; addresses are suspect"⟩)
  | .error e => (none, plan.notice options ⟨segment, table.dataOffset, errorText e⟩)

/-- The candidate of the copy, if there is one. -/
def mirrorCandidate (mirror : Option Ewf1Section) (plan : RecoveryPlan segments) :
    Option (Candidate segments) × RecoveryPlan segments :=
  match mirror with
  | some table => tableCandidate options file sections segment table plan
  | none => (none, plan)

/-- The group of the candidates; `later` is set when other tables or segments follow. -/
def addGroup (table : Ewf1Section) (first second : Option (Candidate segments)) (later : Bool)
    (plan : RecoveryPlan segments) : Result (RecoveryPlan segments) :=
  match first.or second with
  | none => do
    rejectIf later
      (.malformed "unrecoverable table header prevents placement of later chunks")
    return plan
  | some candidate => do
    let count := candidate.range.chunkCount
    let nextChunk ← okOr (.malformed "recovery chunk count overflow")
      (checkedAdd plan.nextChunk count)
    let group : RecoveryGroup segments :=
      if table.desc.sectionType = ascii "table2" then ⟨plan.nextChunk, count, none, first⟩
      else ⟨plan.nextChunk, count, first, second⟩
    return { plan with nextChunk, groups := plan.groups ++ [group] }

/-- One turn of the loop over the tables. -/
def collectGroup (tables : TableSections) (later : Bool) (plan : RecoveryPlan segments) :
    Result (RecoveryPlan segments) :=
  let first := tableCandidate options file sections segment tables.table plan
  let second := mirrorCandidate options file sections segment tables.mirror first.2
  addGroup tables.table first.1 second.1 later second.2

def collectGroups (lastPath : Bool) :
    List TableSections → RecoveryPlan segments → Result (RecoveryPlan segments)
  | [], plan => .ok plan
  | tables :: rest, plan => do
    let plan ← collectGroup options file sections segment tables (rest ≠ [] || !lastPath) plan
    collectGroups lastPath rest plan

def collectTables (lastPath : Bool) (plan : RecoveryPlan segments) :
    Result (RecoveryPlan segments) := do
  rejectIf ((∀ found ∈ sections, found.desc.sectionType ≠ ascii "sectors") ∧
      ∃ found ∈ sections, isTableSection found = true)
    (.unsupported "recovery requires separate sectors sections")
  let firstGroup := plan.groups.length
  let plan ← collectGroups options file sections segment lastPath
    (groupTables file (sections.filter isTableSection)) plan
  let candidates := (plan.groups.drop firstGroup).flatMap RecoveryGroup.candidates
  (sections.filter fun found =>
      found.desc.sectionType = ascii "sectors" && 0 < found.dataSize).forM fun sectors =>
    rejectIf ((∀ candidate ∈ candidates, candidate.dataStart ≠ sectors.dataOffset) ∧
        (lastPath = false ∨ ∃ candidate ∈ candidates, sectors.dataOffset < candidate.dataStart))
      (.malformed "unindexed sectors prevent placement of later recovery chunks")
  return plan

end Collect

/-! ## The segments -/

/-- The geometry of a volume section, which has to agree with the one of the first segment. -/
def planGeometry {segments : Nat} (file : SegmentFile) (index : Nat) (volume : Ewf1Section)
    (plan : RecoveryPlan segments) : Result (RecoveryPlan segments) := do
  rejectIf (4096 < volume.dataSize) (.unsupported "unrecognized recovery media geometry layout")
  let bytes ← file.readExactAt volume.dataOffset volume.dataSize
  validatePresentEwf1MediaChecksum bytes volume.desc.sectionType
  let volume ← VolumeProfile.parse bytes
  rejectIf volume.smart (.unsupported "SMART recovery is not implemented")
  let chunkSize ← volume.chunkSize
  let logicalSize ← volume.logicalSize
  rejectIf (chunkSize = 0 ∨ maxChunkSize < chunkSize)
    (.malformed "recovery media geometry is inconsistent")
  let chunks ← logicalChunkCount logicalSize chunkSize
  rejectIf (chunks ≠ volume.chunkCount) (.malformed "recovery media geometry is inconsistent")
  if index = 0 then
    return { plan with chunkSize, logicalSize, setIdentifier := volume.setIdentifier }
  else do
    rejectIf (chunkSize ≠ plan.chunkSize ∨ logicalSize ≠ plan.logicalSize ∨
        volume.setIdentifier ≠ plan.setIdentifier)
      (.malformed "recovery segment media geometry or set identifier differs")
    return plan

def isVolumeSection (found : Ewf1Section) : Bool :=
  found.desc.sectionType = ascii "volume" || found.desc.sectionType = ascii "disk" ||
    found.desc.sectionType = ascii "data"

/-- One turn of the loop of `open_segments`. -/
def openRecoverySegment (files : List SegmentFile) (options : RecoveryOptions)
    (plan : RecoveryPlan files.length) (segment : Fin files.length) :
    Result (RecoveryPlan files.length) := do
  let file := files.get segment
  let index := segment.val
  let number := index + 1
  let lastPath := number = files.length
  let headerBytes ← file.readExactAt 0 fileHeaderSize
  rejectIf (headerBytes.take 8 ≠ evfSignature ∨ headerBytes.getD 8 0 ≠ 1)
    (.unsupported "recovery currently requires physical unencrypted raw/zlib EWF1")
  let header ← FileHeader.parse headerBytes
  rejectIf (header.segmentNumber ≠ number)
    (.malformed "recovery segment numbering is incomplete or out of order")
  let (sections, notice) ← scanRecoverySectionsFrom file index lastPath fileHeaderSize
  let plan := notice.elim plan (plan.notice options)
  rejectIf (¬ lastPath ∧ sections.getLast?.all (¬ ·.desc.isTerminal)) (.malformed
    s!"cannot place later segments after an incomplete descriptor chain in segment {number}")
  let method ← detectEwf1CompressionMethod header sections
  rejectIf (method ≠ .zlib) (.unsupported "recovery compression profile is not supported")
  rejectIf (∃ found ∈ sections, found.desc.sectionType = ascii "x_encryption")
    (.unsupported "encrypted recovery is not implemented")
  let plan ← (match sections.find? isVolumeSection with
    | some volume => planGeometry file index volume plan
    | none => do
      rejectIf (index = 0) (.malformed "recovery requires intact first-segment media geometry")
      return plan)
  rejectIf (options.maximumOutputBytes.any (· < plan.logicalSize)) (.io .invalidInput)
  let before := plan.nextChunk
  let plan ← collectTables options file sections segment lastPath plan
  rejectIf (plan.nextChunk = before ∧ ¬ lastPath)
    (.malformed "cannot position later recovery segments after missing table coverage")
  return plan

/-- `open_segments` -/
def openRecovery (files : List SegmentFile) (options : RecoveryOptions) : Result EwfRecovery := do
  rejectIf (files = []) (.noSegments "empty recovery segment list")
  let plan ← (List.finRange files.length).foldlM (openRecoverySegment files options) {}
  let total ← logicalChunkCount plan.logicalSize plan.chunkSize
  rejectIf (total < plan.nextChunk) (.malformed "recovery tables exceed declared media size")
  return {
    sources := files
    groups := plan.groups
    chunkSize := plan.chunkSize
    logicalSize := plan.logicalSize
    options
    notices := plan.notices
    omittedNotices := plan.omittedNotices }

/-! ## What the tables index -/

section Candidates

variable {segments : Nat} {file : SegmentFile} {sections : List Ewf1Section} {table : Ewf1Section}
  {segment : Fin segments} {candidate : Candidate segments}

theorem tableIdentity_dataSize {identity : Nat × Nat} (h : tableIdentity file table = .ok identity) :
    24 ≤ table.dataSize := by
  simp only [tableIdentity, bind_eq_ok, rejectIf_eq_ok] at h
  obtain ⟨-, hsize, -⟩ := h
  omega

/-- A candidate has the count of the header of its table, and the entries lie in the table. -/
theorem parseCandidate_spec (h : parseCandidate file sections table segment = .ok candidate) :
    (∃ base, tableIdentity file table = .ok (candidate.range.chunkCount, base)) ∧
      0 < candidate.range.chunkCount ∧ candidate.range.segmentIndex = segment ∧
      candidate.range.entriesOffset + candidate.range.chunkCount * 4 ≤
        table.dataOffset + table.dataSize := by
  simp only [parseCandidate, bind_eq_ok, rejectIf_eq_ok, pure_eq_ok, Except.ok.injEq] at h
  obtain ⟨⟨count, base⟩, hidentity, _, hcount, _, -, _, -, sectors, -, _, -, _, -, rfl⟩ := h
  have hsize := tableIdentity_dataSize hidentity
  have hboth := not_or.mp hcount
  refine ⟨⟨base, hidentity⟩, Nat.pos_of_ne_zero hboth.1, rfl, ?_⟩
  have hfits := hboth.2
  dsimp only at hfits ⊢
  omega

theorem tableCandidate_fst (options : RecoveryOptions) (plan : RecoveryPlan segments) :
    (tableCandidate options file sections segment table plan).1 =
      (parseCandidate file sections table segment).toOption := by
  unfold tableCandidate
  cases parseCandidate file sections table segment with
  | ok candidate => rfl
  | error e => rfl

/-- A notice leaves the groups of a plan as they are. -/
theorem notice_index (plan : RecoveryPlan segments) (options : RecoveryOptions)
    (notice : RecoveryNotice) : (plan.notice options notice).groups = plan.groups ∧
      (plan.notice options notice).nextChunk = plan.nextChunk := by
  unfold RecoveryPlan.notice
  split
  · exact ⟨rfl, rfl⟩
  · exact ⟨rfl, rfl⟩

theorem tableCandidate_index (options : RecoveryOptions) (plan : RecoveryPlan segments) :
    (tableCandidate options file sections segment table plan).2.groups = plan.groups ∧
      (tableCandidate options file sections segment table plan).2.nextChunk = plan.nextChunk := by
  unfold tableCandidate
  split
  · dsimp only
    split
    · exact ⟨rfl, rfl⟩
    · exact notice_index plan options _
  · exact notice_index plan options _

/-- A table and its copy have the same count. -/
theorem chunkCount_mirror {next : Ewf1Section} {other : Candidate segments}
    (hmirror : isMirror file table next = true)
    (h : parseCandidate file sections table segment = .ok candidate)
    (h' : parseCandidate file sections next segment = .ok other) :
    other.range.chunkCount = candidate.range.chunkCount := by
  obtain ⟨⟨base, hidentity⟩, -⟩ := parseCandidate_spec h
  obtain ⟨⟨base', hidentity'⟩, -⟩ := parseCandidate_spec h'
  unfold isMirror at hmirror
  rw [Bool.and_eq_true, hidentity, hidentity'] at hmirror
  have hsame := of_decide_eq_true hmirror.2
  exact (congrArg Prod.fst hsame).symm

/-- The tables of a group come from the list, and a copy belongs to its table. -/
theorem mem_groupTables {tables : List Ewf1Section} {group : TableSections}
    (h : group ∈ groupTables file tables) : group.table ∈ tables ∧
      ∀ mirror, group.mirror = some mirror →
        mirror ∈ tables ∧ isMirror file group.table mirror = true := by
  fun_induction groupTables file tables with
  | case1 => cases h
  | case2 table =>
    rw [List.mem_singleton.mp h]
    exact ⟨List.mem_singleton_self _, fun _ hnone => by cases hnone⟩
  | case3 table next tables hmirror ih =>
    rcases List.mem_cons.mp h with rfl | h
    · refine ⟨List.mem_cons_self, fun mirror hsome => ?_⟩
      cases hsome
      exact ⟨List.mem_cons_of_mem _ List.mem_cons_self, hmirror⟩
    · obtain ⟨htable, hothers⟩ := ih h
      exact ⟨List.mem_cons_of_mem _ (List.mem_cons_of_mem _ htable), fun mirror hsome =>
        ⟨List.mem_cons_of_mem _ (List.mem_cons_of_mem _ (hothers mirror hsome).1),
          (hothers mirror hsome).2⟩⟩
  | case4 table next tables hother ih =>
    rcases List.mem_cons.mp h with rfl | h
    · exact ⟨List.mem_cons_self, fun _ hnone => by cases hnone⟩
    · obtain ⟨htable, hothers⟩ := ih h
      exact ⟨List.mem_cons_of_mem _ htable, fun mirror hsome =>
        ⟨List.mem_cons_of_mem _ (hothers mirror hsome).1, (hothers mirror hsome).2⟩⟩

end Candidates

/-! ## Every plan -/

/-- A group has a table, and each of its tables has an entry for every chunk of the group inside
of its segment. -/
structure RecoveryGroup.Indexes {files : List SegmentFile} (group : RecoveryGroup files.length) :
    Prop where
  pos : 0 < group.count
  candidates : group.candidates ≠ []
  entries : ∀ candidate ∈ group.candidates, candidate.range.chunkCount = group.count ∧
    candidate.range.entriesOffset + group.count * 4 ≤
      (files.get ⟨candidate.range.segmentIndex, candidate.located⟩).bytes.length

/-- The groups tile the first chunks. -/
structure RecoveryPlan.Covers {files : List SegmentFile} (plan : RecoveryPlan files.length) :
    Prop where
  tiles : Tiles RecoveryGroup.firstChunk RecoveryGroup.count 0 plan.groups plan.nextChunk
  indexes : ∀ group ∈ plan.groups, group.Indexes

section Plans

variable {files : List SegmentFile} {options : RecoveryOptions} {sections : List Ewf1Section}
  {segment : Fin files.length} {lastPath : Bool} {plan plan' : RecoveryPlan files.length}

theorem RecoveryPlan.Covers.same (h : plan.Covers) (hgroups : plan'.groups = plan.groups)
    (hnext : plan'.nextChunk = plan.nextChunk) : plan'.Covers := by
  refine ⟨?_, ?_⟩
  · rw [hgroups, hnext]
    exact h.tiles
  · rw [hgroups]
    exact h.indexes

theorem RecoveryPlan.Covers.notice (h : plan.Covers) (notice : Option RecoveryNotice) :
    (notice.elim plan (plan.notice options)).Covers := by
  cases notice with
  | none => exact h
  | some found =>
    have hindex := notice_index plan options found
    exact h.same hindex.1 hindex.2

/-- The entries of a table of the segment. -/
theorem entries_of_parseCandidate {table : Ewf1Section} {candidate : Candidate files.length}
    (hfits : Fits (files.get segment) table)
    (h : parseCandidate (files.get segment) sections table segment = .ok candidate) :
    candidate.range.entriesOffset + candidate.range.chunkCount * 4 ≤
      (files.get ⟨candidate.range.segmentIndex, candidate.located⟩).bytes.length := by
  obtain ⟨-, -, hsegment, hentries⟩ := parseCandidate_spec h
  have hsame : (⟨candidate.range.segmentIndex, candidate.located⟩ : Fin files.length) = segment :=
    Fin.ext hsegment
  rw [hsame]
  exact hentries.trans hfits

/-- The tables of a group are sections of the segment. -/
structure TableSections.In (tables : TableSections) (file : SegmentFile) : Prop where
  table : Fits file tables.table
  mirror : ∀ mirror, tables.mirror = some mirror →
    Fits file mirror ∧ isMirror file tables.table mirror = true

variable (files sections segment) in
/-- The candidate of a table section of the segment. -/
def ParsedFrom (candidate : Candidate files.length) : Prop :=
  ∃ table, Fits (files.get segment) table ∧
    parseCandidate (files.get segment) sections table segment = .ok candidate

/-- A group of candidates with its count, each parsed from a table of the segment. -/
theorem indexes_of_parsed {group : RecoveryGroup files.length} (hnone : group.candidates ≠ [])
    (hcandidates : ∀ candidate ∈ group.candidates, candidate.range.chunkCount = group.count ∧
      ParsedFrom files sections segment candidate) : group.Indexes := by
  obtain ⟨candidate, hcandidate⟩ := List.exists_mem_of_ne_nil _ hnone
  obtain ⟨hcount, table, hfits, hparsed⟩ := hcandidates candidate hcandidate
  obtain ⟨-, hpos, -⟩ := parseCandidate_spec hparsed
  refine ⟨hcount ▸ hpos, hnone, fun other hother => ?_⟩
  obtain ⟨hcount', table', hfits', hparsed'⟩ := hcandidates other hother
  have hentries := entries_of_parseCandidate hfits' hparsed'
  rw [hcount'] at hentries
  exact ⟨hcount', hentries⟩

/-- A group behind the last one. -/
theorem RecoveryPlan.Covers.push (h : plan.Covers) (group : RecoveryGroup files.length)
    (hgroup : group.Indexes) (hfirst : group.firstChunk = plan.nextChunk)
    (hgroups : plan'.groups = plan.groups ++ [group])
    (hnext : plan'.nextChunk = plan.nextChunk + group.count) : plan'.Covers := by
  refine ⟨?_, ?_⟩
  · rw [hgroups, hnext]
    exact h.tiles.append ⟨hfirst, hgroup.pos, rfl⟩
  · rw [hgroups]
    intro other hother
    rcases List.mem_append.mp hother with hother | hother
    · exact h.indexes other hother
    · rw [List.mem_singleton.mp hother]
      exact hgroup

theorem addGroup_covers {tables : TableSections} {later : Bool}
    {first second : Option (Candidate files.length)} (hplan : plan.Covers)
    (hin : tables.In (files.get segment))
    (hfirst : ∀ candidate, first = some candidate →
      parseCandidate (files.get segment) sections tables.table segment = .ok candidate)
    (hsecond : ∀ candidate, second = some candidate → ∃ mirror, tables.mirror = some mirror ∧
      parseCandidate (files.get segment) sections mirror segment = .ok candidate)
    (h : addGroup tables.table first second later plan = .ok plan') : plan'.Covers := by
  unfold addGroup at h
  cases hcandidate : first.or second with
  | none =>
    rw [hcandidate] at h
    dsimp only at h
    simp only [bind_eq_ok, pure_eq_ok, Except.ok.injEq] at h
    obtain ⟨_, -, rfl⟩ := h
    exact hplan
  | some candidate =>
    rw [hcandidate] at h
    dsimp only at h
    simp only [bind_eq_ok, okOr_eq_ok, checkedAdd_eq_some, pure_eq_ok, Except.ok.injEq] at h
    obtain ⟨nextChunk, ⟨-, rfl⟩, rfl⟩ := h
    -- both candidates have the count of the first one there is
    have hcounts : ∀ other, first = some other ∨ second = some other →
        other.range.chunkCount = candidate.range.chunkCount ∧
        ParsedFrom files sections segment other := by
      rintro other (hother | hother)
      · rw [hother, Option.some_or, Option.some.injEq] at hcandidate
        exact ⟨by rw [hcandidate], tables.table, hin.table, hfirst other hother⟩
      · obtain ⟨mirror, hmirror, hparsed⟩ := hsecond other hother
        obtain ⟨hfits, hcopy⟩ := hin.mirror mirror hmirror
        refine ⟨?_, mirror, hfits, hparsed⟩
        cases hfound : first with
        | none =>
          rw [hfound, Option.none_or, hother, Option.some.injEq] at hcandidate
          rw [hcandidate]
        | some table =>
          rw [hfound, Option.some_or, Option.some.injEq] at hcandidate
          rw [← hcandidate]
          exact chunkCount_mirror hcopy (hfirst table hfound) hparsed
    by_cases htable : tables.table.desc.sectionType = ascii "table2"
    · -- a lone `table2` has no copy
      have hlone : second = none := by
        cases hother : second with
        | none => rfl
        | some other =>
          obtain ⟨mirror, hmirror, -⟩ := hsecond other hother
          have hcopy := (hin.mirror mirror hmirror).2
          simp [isMirror, htable] at hcopy
      rw [hlone, Option.or_none] at hcandidate
      have hindexes : @RecoveryGroup.Indexes files
          ⟨plan.nextChunk, candidate.range.chunkCount, none, first⟩ := by
        refine @indexes_of_parsed files sections segment _ ?_ fun other hother => ?_
        · rw [RecoveryGroup.candidates, hcandidate]
          exact List.cons_ne_nil _ _
        · rw [RecoveryGroup.candidates, hcandidate] at hother
          rw [List.mem_singleton.mp hother]
          exact hcounts candidate (.inl hcandidate)
      exact hplan.push _ hindexes rfl (by rw [if_pos htable]) rfl
    · have hindexes : @RecoveryGroup.Indexes files
          ⟨plan.nextChunk, candidate.range.chunkCount, first, second⟩ := by
        refine @indexes_of_parsed files sections segment _ ?_ fun other hother => ?_
        · intro hnil
          rw [RecoveryGroup.candidates, List.append_eq_nil_iff, Option.toList_eq_nil_iff,
            Option.toList_eq_nil_iff] at hnil
          dsimp only at hnil
          rw [hnil.1, hnil.2] at hcandidate
          cases hcandidate
        · rcases List.mem_append.mp hother with hother | hother
          · exact hcounts other (.inl (Option.mem_toList.mp hother))
          · exact hcounts other (.inr (Option.mem_toList.mp hother))
      exact hplan.push _ hindexes rfl (by rw [if_neg htable]) rfl

theorem collectGroup_covers {tables : TableSections} {later : Bool} (hplan : plan.Covers)
    (hin : tables.In (files.get segment))
    (h : collectGroup options (files.get segment) sections segment tables later plan = .ok plan') :
    plan'.Covers := by
  have hfirst := @tableCandidate_index _ (files.get segment) sections tables.table segment options plan
  refine @addGroup_covers files sections segment _ _ _ _ _ _ ?_ hin (fun candidate hsome => ?_)
    (fun candidate hsome => ?_) h
  · unfold mirrorCandidate
    split
    · rename_i mirror _
      have hsecond := @tableCandidate_index _ (files.get segment) sections mirror segment options
        (tableCandidate options (files.get segment) sections segment tables.table plan).2
      exact (hplan.same hfirst.1 hfirst.2).same hsecond.1 hsecond.2
    · exact hplan.same hfirst.1 hfirst.2
  · rw [tableCandidate_fst] at hsome
    exact toOption_eq_some.mp hsome
  · unfold mirrorCandidate at hsome
    split at hsome
    · rename_i mirror hmirror
      rw [tableCandidate_fst] at hsome
      exact ⟨mirror, hmirror, toOption_eq_some.mp hsome⟩
    · cases hsome

theorem collectGroups_covers {groups : List TableSections} (hplan : plan.Covers)
    (hin : ∀ tables ∈ groups, tables.In (files.get segment))
    (h : collectGroups options (files.get segment) sections segment lastPath groups plan = .ok plan') :
    plan'.Covers := by
  induction groups generalizing plan with
  | nil =>
    cases h
    exact hplan
  | cons tables groups ih =>
    rw [collectGroups, bind_eq_ok] at h
    obtain ⟨middle, hfirst, hrest⟩ := h
    exact ih (collectGroup_covers hplan (hin tables List.mem_cons_self) hfirst)
      (fun tables hmem => hin tables (List.mem_cons_of_mem _ hmem)) hrest

theorem collectTables_covers (hplan : plan.Covers)
    (hfits : ∀ found ∈ sections, Fits (files.get segment) found)
    (h : collectTables options (files.get segment) sections segment lastPath plan = .ok plan') :
    plan'.Covers := by
  simp only [collectTables, bind_eq_ok, pure_eq_ok, Except.ok.injEq] at h
  obtain ⟨_, -, plan₁, hgroups, _, -, rfl⟩ := h
  refine collectGroups_covers hplan (fun tables hmem => ?_) hgroups
  obtain ⟨htable, hmirror⟩ := mem_groupTables hmem
  refine ⟨hfits _ (List.mem_of_mem_filter htable), fun mirror hsome => ?_⟩
  obtain ⟨hmem, hcopy⟩ := hmirror mirror hsome
  exact ⟨hfits mirror (List.mem_of_mem_filter hmem), hcopy⟩

theorem planGeometry_index {segments index : Nat} {file : SegmentFile} {volume : Ewf1Section}
    {plan plan' : RecoveryPlan segments} (h : planGeometry file index volume plan = .ok plan') :
    plan'.groups = plan.groups ∧ plan'.nextChunk = plan.nextChunk := by
  simp only [planGeometry, bind_eq_ok] at h
  obtain ⟨_, -, _, -, _, -, _, -, _, -, _, -, _, -, _, -, _, -, _, -, h⟩ := h
  split at h
  · cases h
    exact ⟨rfl, rfl⟩
  · obtain ⟨_, -, h⟩ := bind_eq_ok.mp h
    cases h
    exact ⟨rfl, rfl⟩

theorem openRecoverySegment_covers (hplan : plan.Covers)
    (h : openRecoverySegment files options plan segment = .ok plan') : plan'.Covers := by
  simp only [openRecoverySegment, bind_eq_ok, pure_eq_ok, Except.ok.injEq] at h
  obtain ⟨_, -, _, -, _, -, _, -, ⟨sections, notice⟩, hscan, _, -, _, -, _, -, _, -, plan₁,
    hgeometry, _, -, plan₂, htables, _, -, rfl⟩ := h
  refine collectTables_covers ?_ (scanRecoverySectionsFrom_fits hscan) htables
  split at hgeometry
  · obtain ⟨hgroups, hnext⟩ := planGeometry_index hgeometry
    exact (hplan.notice notice).same hgroups hnext
  · obtain ⟨_, -, hsame⟩ := bind_eq_ok.mp hgeometry
    cases hsame
    exact hplan.notice notice

end Plans

/-- The groups of a plan that opens tile the first chunks of the media, and the tables of each
group have an entry for every one of its chunks. -/
theorem openRecovery_spec {files : List SegmentFile} {options : RecoveryOptions}
    {recovery : EwfRecovery} (h : openRecovery files options = .ok recovery) :
    recovery.sources = files ∧ recovery.options = options ∧ ∃ total indexed,
      logicalChunkCount recovery.logicalSize recovery.chunkSize = .ok total ∧ indexed ≤ total ∧
      Tiles RecoveryGroup.firstChunk RecoveryGroup.count 0 recovery.groups indexed ∧
      ∀ group ∈ recovery.groups, group.Indexes := by
  simp only [openRecovery, bind_eq_ok, rejectIf_eq_ok, pure_eq_ok, Except.ok.injEq] at h
  obtain ⟨_, -, plan, hplan, total, htotal, _, hle, rfl⟩ := h
  have hempty : RecoveryPlan.Covers ({} : RecoveryPlan files.length) :=
    ⟨rfl, fun _ hgroup => (by cases hgroup)⟩
  have hcovers : plan.Covers := foldlM_invariant
    (fun _ _ _ hplan _ hstep => openRecoverySegment_covers hplan hstep) hempty hplan
  exact ⟨rfl, rfl, total, plan.nextChunk, htotal, Nat.le_of_not_lt hle, hcovers.tiles,
    hcovers.indexes⟩

/-! ### Two of three chunks -/

/-- A section without checksums. -/
def plainSection (name : String) (next : Nat) (payload : Bytes) : Bytes :=
  ascii name ++ List.replicate (16 - name.length) 0 ++ toLE 8 next ++
    toLE 8 (sectionDescriptorSize + payload.length) ++ List.replicate 44 0 ++ payload

/-- A segment with three chunks of two bytes, whose table has lost the last one. -/
def twoOfThree : SegmentFile where
  bytes := evfSignature ++ [1] ++ toLE 2 1 ++ [0, 0] ++
    plainSection "volume" 113 (toLE 4 0 ++ toLE 4 3 ++ toLE 4 1 ++ toLE 4 2 ++ toLE 8 3) ++
    plainSection "sectors" 193 [1, 2, 3, 4] ++
    plainSection "table" 301 (toLE 4 2 ++ toLE 4 0 ++ toLE 8 189 ++ toLE 8 0 ++
      toLE 4 0 ++ toLE 4 2) ++
    plainSection "done" 301 []
  length_lt := by decide +kernel

/-! ## The recovery of a chunk -/

namespace EwfRecovery

variable {codec : Codec} {recovery : EwfRecovery} {indexed id size : Nat}

theorem partitions_groups
    (h : Tiles RecoveryGroup.firstChunk RecoveryGroup.count 0 recovery.groups indexed) :
    Partitions (fun group : RecoveryGroup recovery.sources.length =>
      group.firstChunk + group.count ≤ id) recovery.groups := by
  refine h.ordered.imp fun hbefore hlater => ?_
  rw [decide_eq_true_eq] at hlater ⊢
  omega

/-- A chunk of a group is read through the tables of the group. -/
theorem recoverChunk_of_mem
    (h : Tiles RecoveryGroup.firstChunk RecoveryGroup.count 0 recovery.groups indexed)
    {group : RecoveryGroup recovery.sources.length} (hgroup : group ∈ recovery.groups)
    (hstart : group.firstChunk ≤ id) (hend : id < group.firstChunk + group.count) :
    recovery.recoverChunk codec id size = recovery.chooseCandidate codec (id - group.firstChunk)
      size [(group.primary, .primary, .suspectPrimary),
        (group.redundant, .redundant, .suspectRedundant)] none := by
  obtain ⟨i, hi, hget⟩ := List.mem_iff_getElem.mp hgroup
  have hsome : recovery.groups[i]? = some group := List.getElem?_eq_some_iff.mpr ⟨hi, hget⟩
  have hpoint := partitionPoint_eq (partitions_groups h) hsome (by simpa using hend)
    fun j other hother hlt => by
      obtain ⟨hj, hget'⟩ := List.getElem?_eq_some_iff.mp hother
      have hbefore := List.pairwise_iff_getElem.mp h.ordered j i hj hi hlt
      rw [hget, hget'] at hbefore
      simp only [decide_eq_true_eq]
      omega
  unfold recoverChunk
  dsimp only
  rw [hpoint, hsome, Option.filter_some, if_pos (by simpa using hstart)]

/-- A chunk behind the groups is replaced with zeros. -/
theorem recoverChunk_of_le
    (h : Tiles RecoveryGroup.firstChunk RecoveryGroup.count 0 recovery.groups indexed)
    (hid : indexed ≤ id) :
    recovery.recoverChunk codec id size = (List.replicate size 0, .zeroFilled) := by
  have hnone : recovery.groups[partitionPoint (fun group : RecoveryGroup recovery.sources.length =>
      group.firstChunk + group.count ≤ id) recovery.groups]? = none := by
    by_contra hfound
    obtain ⟨group, hgroup⟩ := Option.ne_none_iff_exists'.mp hfound
    have hbounds := h.bounds (List.mem_of_getElem? hgroup)
    have hbehind : decide (group.firstChunk + group.count ≤ id) = true :=
      decide_eq_true (hbounds.2.trans hid)
    have hlt := (partitionPoint_spec (@partitions_groups recovery indexed id h) hgroup).mp hbehind
    exact Nat.lt_irrefl _ hlt
  unfold recoverChunk
  dsimp only
  rw [hnone]
  rfl

end EwfRecovery

end EwfImage.Reading
