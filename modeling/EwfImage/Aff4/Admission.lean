import EwfImage.Aff4.Container
import EwfImage.Lib.Faults
import EwfImage.Lib.Triples

/-!
# Admission of archives

`archive::open` checks the directory of a ZIP file before the ZIP library sees it: one end
record, whose comment ends the file, a ZIP64 record right before it if there is a locator, and
between the offset and the end of the directory as many central headers as are advertised. All
offsets, counts and lengths come from the file, so its accesses and sums are checked here, and
the headers that it inspects are counted.

The main result is `openArchive_admits`, about every file of any bytes and every limit. The
checks never read outside the file and no sum of theirs overflows; they inspect at most as many
headers as the limit allows; and the library is asked only about a file whose layout was
admitted: one end record that reaches the end, and exactly the advertised central headers, each
with a readable local part. What the library gives is a parameter, and the result depends on it
through that one answer.
-/

namespace EwfImage.Aff4

open Fallible Faults LittleEndian Slice Triples Word

/-- A file, whose length is a 64-bit number. -/
structure SourceFile where
  bytes : Bytes
  length_lt : bytes.length < u64Limit

/-- What of the limits an archive uses. -/
structure Usage where
  directoryBytes : Nat
  entries : Nat
  metadataBytes : Nat := 0
  triples : Nat := 0

namespace Admission

abbrev u16At (bytes : Bytes) (offset : Nat) : Checked Error Nat := field bytes 2 offset

abbrev u32At (bytes : Bytes) (offset : Nat) : Checked Error Nat := field bytes 4 offset

abbrev u64At (bytes : Bytes) (offset : Nat) : Checked Error Nat := field bytes 8 offset

def endSignature : Bytes := [0x50, 0x4B, 0x05, 0x06]

def locatorSignature : Bytes := [0x50, 0x4B, 0x06, 0x07]

def end64Signature : Bytes := [0x50, 0x4B, 0x06, 0x06]

def headerSignature : Bytes := [0x50, 0x4B, 0x01, 0x02]

/-- Where the directory is, and how many headers it has. -/
structure Layout where
  entries : Nat
  directoryBytes : Nat
  directoryOffset : Nat
  directoryEnd : Nat

/-- `read_exact` behind a `seek`. -/
def readExactAt (file : SourceFile) (offset length : Nat) : Checked Error Bytes :=
  if offset + length ≤ file.bytes.length then .ok (slice file.bytes offset length)
  else fail (.io "failed to fill whole buffer")

/-- The places of the end signature. -/
def candidates (tail : Bytes) : List Nat :=
  (List.range (tail.length - 3)).filter fun n => slice tail n 4 = endSignature

def endPlace (tail : Bytes) : Checked Error Nat :=
  match candidates tail with
  | [] => fail (.malformed "missing ZIP end record")
  | [place] => do
    let rest ← sub tail.length place
    refuse (rest < 22) (.malformed "ambiguous or truncated ZIP end record")
    return place
  | _ => fail (.malformed "ambiguous or truncated ZIP end record")

def checkEnd (record : Bytes) : Checked Error Unit := do
  let comment ← u16At record 20
  let length ← add 22 comment
  refuse (record.length ≠ length) (.malformed "unsupported ZIP end layout")
  let disk ← u16At record 4
  refuse (disk ≠ 0) (.malformed "unsupported ZIP end layout")
  let start ← u16At record 6
  refuse (start ≠ 0) (.malformed "unsupported ZIP end layout")
  let here ← u16At record 8
  let entries ← u16At record 10
  refuse (here ≠ entries) (.malformed "unsupported ZIP end layout")

/-- The layout of the ZIP64 record that the locator before the end record names. -/
def zip64Layout (file : SourceFile) (endOffset : Nat) (locator : Bytes) :
    Checked Error Layout := do
  let disk ← u32At locator 4
  refuse (disk ≠ 0) (.malformed "multi-disk ZIP64 is unsupported")
  let disks ← u32At locator 16
  refuse (disks ≠ 1) (.malformed "multi-disk ZIP64 is unsupported")
  let offset ← u64At locator 8
  let locatorOffset ← sub endOffset 20
  refuse ((checkedAdd offset 56).all (locatorOffset < ·))
    (.malformed "ZIP64 end record outside archive")
  let record ← readExactAt file offset 56
  let size ← u64At record 4
  let signature ← index record 0 4
  refuse (signature ≠ end64Signature) (.malformed "unsupported ZIP64 end layout")
  refuse (size ≠ 44) (.malformed "unsupported ZIP64 end layout")
  let length ← add 12 size
  refuse (checkedAdd offset length ≠ some locatorOffset) (.malformed "unsupported ZIP64 end layout")
  let disk ← u32At record 16
  refuse (disk ≠ 0) (.malformed "unsupported ZIP64 end layout")
  let start ← u32At record 20
  refuse (start ≠ 0) (.malformed "unsupported ZIP64 end layout")
  let here ← u64At record 24
  let entries ← u64At record 32
  refuse (here ≠ entries) (.malformed "unsupported ZIP64 end layout")
  let directoryBytes ← u64At record 40
  let directoryOffset ← u64At record 48
  return { entries, directoryBytes, directoryOffset, directoryEnd := offset }

def classicLayout (record : Bytes) (endOffset : Nat) : Checked Error Layout := do
  let entries ← u16At record 10
  let directoryBytes ← u32At record 12
  let directoryOffset ← u32At record 16
  return { entries, directoryBytes, directoryOffset, directoryEnd := endOffset }

/-- The locator of a ZIP64 record, if there is one. -/
def locator (file : SourceFile) (endOffset : Nat) : Checked Error (Option Bytes) :=
  if 20 ≤ endOffset then do
    let place ← sub endOffset 20
    let locator ← readExactAt file place 20
    let signature ← index locator 0 4
    return if signature = locatorSignature then some locator else none
  else return none

def readLayout (file : SourceFile) (limits : Limits) : Checked Error Layout := do
  let longest ← add 22 65535
  let tailSize := min file.bytes.length longest
  let tailOffset ← sub file.bytes.length tailSize
  let tail ← readExactAt file tailOffset tailSize
  let place ← endPlace tail
  let record ← index tail place tail.length
  checkEnd record
  let endOffset ← add tailOffset place
  let classic ← classicLayout record endOffset
  let layout ← (match ← locator file endOffset with
    | some locator => zip64Layout file endOffset locator
    | none => do
      refuse (classic.entries = 65535 ∨ classic.directoryBytes = u32Limit - 1 ∨
        classic.directoryOffset = u32Limit - 1) (.malformed "missing ZIP64 end record")
      return classic)
  refuse (limits.archiveEntries < layout.entries ∨ limits.directoryBytes < layout.directoryBytes)
    (.malformed "ZIP directory resource limit exceeded")
  refuse (checkedAdd layout.directoryOffset layout.directoryBytes ≠ some layout.directoryEnd)
    (.malformed "shifted or inconsistent ZIP directory")
  return layout

/-! ## The walk over the central headers -/

/-- The end of the record that a central header starts. -/
def headerEnd (header : Bytes) (stop position : Nat) : Checked Error Nat := do
  let signature ← index header 0 4
  refuse (signature ≠ headerSignature) (.malformed "invalid ZIP central header")
  let name ← u16At header 28
  let extra ← u16At header 30
  let comment ← u16At header 32
  let both ← add name extra
  let all ← add both comment
  let length ← add 46 all
  match (checkedAdd position length).filter (· ≤ stop) with
  | some next => return next
  | none => fail (.malformed "ZIP central header exceeds directory")

/-- A computation that counts the central headers it inspects. -/
abbrev Inspecting (α : Type) := EStateM (Stop Error) Nat α

def ofChecked {α : Type} : Checked Error α → Inspecting α
  | .ok a => pure a
  | .error stop => throw stop

/-- The loop over the advertised headers. -/
def headers (file : SourceFile) (stop : Nat) : Nat → Nat → Inspecting Nat
  | 0, position => pure position
  | turns + 1, position => do
    ofChecked (refuse ((checkedAdd position 46).all (stop < ·))
      (.malformed "truncated ZIP central header"))
    let header ← ofChecked (readExactAt file position 46)
    modify (· + 1)
    let next ← ofChecked (headerEnd header stop position)
    headers file stop turns next

/-- `open` up to the point where it calls the ZIP library. -/
def admitted (file : SourceFile) (limits : Limits) : Inspecting Layout := do
  let layout ← ofChecked (readLayout file limits)
  let position ← headers file layout.directoryEnd layout.entries layout.directoryOffset
  ofChecked (refuse (position ≠ layout.directoryEnd)
    (.malformed "ZIP directory entry count mismatch"))
  return layout

/-- `open`, with the ZIP library. -/
def openArchive (library : Bytes → Result ZipArchive) (file : SourceFile) (limits : Limits) :
    Inspecting (ZipArchive × Usage) := do
  let layout ← admitted file limits
  match library file.bytes with
  | .error e => throw (.error e)
  | .ok archive =>
    ofChecked (refuse (archive.files.length ≠ layout.entries ∨
      archive.centralDirectoryStart ≠ layout.directoryOffset)
      (.malformed "ZIP directory changed or contains duplicate names"))
    return (archive, { directoryBytes := layout.directoryBytes, entries := layout.entries })

/-! ## No step faults -/

section Safety

variable {file : SourceFile}

theorem mem_candidates {tail : Bytes} {n : Nat} :
    n ∈ candidates tail ↔ slice tail n 4 = endSignature := by
  unfold candidates
  rw [List.mem_filter, List.mem_range, decide_eq_true_eq]
  refine and_iff_right_of_imp fun hslice => ?_
  have hlength := congrArg List.length hslice
  rw [length_slice] at hlength
  change min 4 (tail.length - n) = 4 at hlength
  omega

theorem lt_of_mem_candidates {tail : Bytes} {n : Nat} (h : n ∈ candidates tail) :
    n < tail.length := by
  have hrange := List.mem_range.mp (List.mem_filter.mp h).1
  omega

theorem safe_endPlace (tail : Bytes) : Safe (endPlace tail) := by
  unfold endPlace
  cases hplaces : candidates tail with
  | nil => exact safe_fail _
  | cons place rest =>
    cases rest with
    | nil =>
      have hlt := @lt_of_mem_candidates tail place (by rw [hplaces]; simp)
      refine (safe_sub (by omega)).bind fun _ _ => safe_refuse_bind fun _ => safe_ok _
    | cons _ _ => exact safe_fail _

theorem endPlace_eq_ok {tail : Bytes} {place : Nat} (h : endPlace tail = .ok place) :
    (∀ n, slice tail n 4 = endSignature ↔ n = place) ∧ place + 22 ≤ tail.length := by
  unfold endPlace at h
  split at h
  · cases h
  · rename_i found hplaces
    simp only [bind_eq_ok, sub_eq_ok, refuse_eq_ok, pure_eq_ok] at h
    obtain ⟨rest, ⟨hle, rfl⟩, _, hlong, hfound⟩ := h
    cases hfound
    refine ⟨fun n => ?_, by omega⟩
    rw [← mem_candidates, hplaces, List.mem_singleton]
  · cases h

theorem length_of_readExactAt {offset length : Nat} {bytes : Bytes}
    (h : readExactAt file offset length = .ok bytes) :
    offset + length ≤ file.bytes.length ∧ bytes = slice file.bytes offset length ∧
      bytes.length = length := by
  unfold readExactAt at h
  by_cases hin : offset + length ≤ file.bytes.length
  · rw [if_pos hin] at h
    cases h
    exact ⟨hin, rfl, length_slice_of_le hin⟩
  · rw [if_neg hin] at h
    cases h

theorem safe_readExactAt (offset length : Nat) : Safe (readExactAt file offset length) :=
  safe_ite (fun _ => safe_ok _) fun _ => safe_fail _

theorem leAt_lt (bytes : Bytes) (offset : Nat) : leAt bytes offset 2 < 65536 := by
  have hlt := fromLE_lt (slice bytes offset 2)
  have hlength : (slice bytes offset 2).length ≤ 2 := by
    rw [length_slice]
    omega
  have hpow : 256 ^ (slice bytes offset 2).length ≤ 256 ^ 2 :=
    Nat.pow_le_pow_right (by decide) hlength
  unfold leAt
  omega

theorem safe_checkEnd {record : Bytes} (hlength : 22 ≤ record.length) : Safe (checkEnd record) := by
  have hcomment := leAt_lt record 20
  refine safe_field_bind (by omega) ?_
  refine (safe_add (by unfold u64Limit; omega)).bind fun length _ => safe_refuse_bind fun _ => ?_
  refine safe_field_bind (by omega) (safe_refuse_bind fun _ => ?_)
  refine safe_field_bind (by omega) (safe_refuse_bind fun _ => ?_)
  exact safe_field_bind (by omega) (safe_field_bind (by omega) (safe_refuse _ _))

theorem safe_zip64Layout {endOffset : Nat} {locator : Bytes} (hend : 20 ≤ endOffset)
    (hlocator : locator.length = 20) : Safe (zip64Layout file endOffset locator) := by
  refine safe_field_bind (by omega) (safe_refuse_bind fun _ => ?_)
  refine safe_field_bind (by omega) (safe_refuse_bind fun _ => ?_)
  refine safe_field_bind (by omega) ?_
  refine (safe_sub hend).bind fun locatorOffset _ => safe_refuse_bind fun _ => ?_
  refine (safe_readExactAt _ _).bind fun record hrecord => ?_
  obtain ⟨-, -, hlength⟩ := length_of_readExactAt hrecord
  refine safe_field_bind (by omega) ?_
  refine (safe_index (by omega) (by omega)).bind fun signature _ => safe_refuse_bind fun _ => ?_
  refine safe_refuse_bind fun hsize => ?_
  rw [not_not] at hsize
  -- the size is only added behind its check
  refine (safe_add (by rw [hsize]; decide)).bind fun length _ => safe_refuse_bind fun _ => ?_
  refine safe_field_bind (by omega) (safe_refuse_bind fun _ => ?_)
  refine safe_field_bind (by omega) (safe_refuse_bind fun _ => ?_)
  refine safe_field_bind (by omega) (safe_field_bind (by omega) (safe_refuse_bind fun _ => ?_))
  exact safe_field_bind (by omega) (safe_field_bind (by omega) (safe_ok _))

theorem safe_classicLayout {record : Bytes} (hlength : 22 ≤ record.length) (endOffset : Nat) :
    Safe (classicLayout record endOffset) :=
  safe_field_bind (by omega) (safe_field_bind (by omega) (safe_field_bind (by omega) (safe_ok _)))

theorem safe_locator (endOffset : Nat) : Safe (locator file endOffset) := by
  refine safe_ite (fun hend => ?_) fun _ => safe_ok _
  refine (safe_sub hend).bind fun place _ => (safe_readExactAt _ _).bind fun found hfound => ?_
  obtain ⟨-, -, hlength⟩ := length_of_readExactAt hfound
  exact (safe_index (by omega) (by omega)).bind fun _ _ => safe_ok _

theorem locator_eq_some {endOffset : Nat} {found : Bytes}
    (h : locator file endOffset = .ok (some found)) :
    20 ≤ endOffset ∧ found = slice file.bytes (endOffset - 20) 20 ∧ found.length = 20 ∧
      slice found 0 4 = locatorSignature := by
  unfold locator at h
  by_cases hend : 20 ≤ endOffset
  · rw [if_pos hend] at h
    simp only [bind_eq_ok, sub_eq_ok, index_eq_ok, pure_eq_ok] at h
    obtain ⟨_, ⟨-, rfl⟩, bytes, hbytes, _, ⟨-, rfl⟩, hfound⟩ := h
    obtain ⟨-, hslice, hlength⟩ := length_of_readExactAt hbytes
    by_cases hsignature : slice bytes 0 (4 - 0) = locatorSignature
    · rw [if_pos hsignature] at hfound
      cases hfound
      exact ⟨hend, hslice, hlength, hsignature⟩
    · rw [if_neg hsignature] at hfound
      cases hfound
  · rw [if_neg hend] at h
    cases h

theorem locator_eq_none {endOffset : Nat} (h : locator file endOffset = .ok none)
    (hend : 20 ≤ endOffset) : slice file.bytes (endOffset - 20) 4 ≠ locatorSignature := by
  unfold locator at h
  rw [if_pos hend] at h
  simp only [bind_eq_ok, sub_eq_ok, index_eq_ok, pure_eq_ok] at h
  obtain ⟨_, ⟨-, rfl⟩, bytes, hbytes, _, ⟨-, rfl⟩, hfound⟩ := h
  obtain ⟨-, hslice, -⟩ := length_of_readExactAt hbytes
  intro hsignature
  have hfirst : slice bytes 0 (4 - 0) = locatorSignature := by
    rw [hslice, slice_slice (by omega)]
    exact hsignature
  rw [if_pos hfirst] at hfound
  cases hfound

theorem safe_readLayout (limits : Limits) : Safe (readLayout file limits) := by
  have hfile := file.length_lt
  refine (safe_add (by decide)).bind fun longest _ => ?_
  refine (safe_sub (Nat.min_le_left _ _)).bind fun tailOffset htailOffset => ?_
  refine (safe_readExactAt _ _).bind fun tail htail => (safe_endPlace tail).bind fun place hplace => ?_
  obtain ⟨-, hroom⟩ := endPlace_eq_ok hplace
  refine (safe_index (by omega) (Nat.le_refl _)).bind fun record hrecord => ?_
  have hlength : 22 ≤ record.length := by
    obtain ⟨-, rfl⟩ := index_eq_ok.mp hrecord
    rw [length_slice]
    omega
  obtain ⟨hin, -, htailLength⟩ := length_of_readExactAt htail
  refine (safe_checkEnd hlength).bind fun _ _ => (safe_add (by omega)).bind fun endOffset _ => ?_
  refine (safe_classicLayout hlength _).bind fun classic _ => ?_
  refine (safe_locator endOffset).bind fun found hfound => ?_
  refine Safe.bind ?_ fun layout _ => safe_refuse_bind fun _ => safe_refuse_bind fun _ => safe_ok _
  cases found with
  | some found =>
    obtain ⟨hend, -, hfoundLength, -⟩ := locator_eq_some hfound
    exact safe_zip64Layout hend hfoundLength
  | none => exact safe_refuse_bind fun _ => safe_ok _

theorem safe_headerEnd {header : Bytes} (hlength : header.length = 46) (stop position : Nat) :
    Safe (headerEnd header stop position) := by
  have hname := leAt_lt header 28
  have hextra := leAt_lt header 30
  have hcomment := leAt_lt header 32
  refine (safe_index (by omega) (by omega)).bind fun _ _ => safe_refuse_bind fun _ => ?_
  refine safe_field_bind (by omega) (safe_field_bind (by omega) (safe_field_bind (by omega) ?_))
  refine (safe_add (by unfold u64Limit; omega)).bind fun both hboth => ?_
  obtain ⟨-, rfl⟩ := add_eq_ok.mp hboth
  refine (safe_add (by unfold u64Limit; omega)).bind fun all hall => ?_
  obtain ⟨-, rfl⟩ := add_eq_ok.mp hall
  refine (safe_add (by unfold u64Limit; omega)).bind fun length _ => ?_
  cases (checkedAdd position length).filter (· ≤ stop) with
  | some next => exact safe_ok _
  | none => exact safe_fail _

end Safety

/-! ## What is admitted -/

/-- The end record is the only one in the last bytes of the file, and its comment ends the file. -/
structure SoleEnd (bytes : Bytes) (endOffset : Nat) : Prop where
  searched : bytes.length - min bytes.length (22 + 65535) ≤ endOffset
  sole : ∀ place, bytes.length - min bytes.length (22 + 65535) ≤ place →
    (slice bytes place 4 = endSignature ↔ place = endOffset)
  comment : endOffset + 22 + leAt bytes (endOffset + 20) 2 = bytes.length

/-- The end record advertises the directory in front of it. -/
structure ClassicEnd (bytes : Bytes) (endOffset : Nat) (layout : Layout) : Prop where
  entries : layout.entries = leAt bytes (endOffset + 10) 2
  directoryBytes : layout.directoryBytes = leAt bytes (endOffset + 12) 4
  directoryOffset : layout.directoryOffset = leAt bytes (endOffset + 16) 4
  directoryEnd : layout.directoryEnd = endOffset
  unlocated : 20 ≤ endOffset → slice bytes (endOffset - 20) 4 ≠ locatorSignature

/-- A ZIP64 record advertises the directory in front of it; its locator is between it and the end
record. -/
structure Zip64End (bytes : Bytes) (endOffset : Nat) (layout : Layout) : Prop where
  adjacent : layout.directoryEnd + 56 + 20 = endOffset
  located : slice bytes (endOffset - 20) 4 = locatorSignature
  locator : leAt bytes (endOffset - 20 + 8) 8 = layout.directoryEnd
  signature : slice bytes layout.directoryEnd 4 = end64Signature
  entries : layout.entries = leAt bytes (layout.directoryEnd + 32) 8
  directoryBytes : layout.directoryBytes = leAt bytes (layout.directoryEnd + 40) 8
  directoryOffset : layout.directoryOffset = leAt bytes (layout.directoryEnd + 48) 8

/-- The bytes are a record of a central directory. -/
structure IsCentralRecord (record : Bytes) : Prop where
  signature : slice record 0 4 = headerSignature
  length : record.length =
    46 + (leAt record 28 2 + leAt record 30 2 + leAt record 32 2)

/-- The file has the layout that it advertises, within the limits: one end record, classic or
ZIP64, whose directory ends where the end records begin, with no more entries and bytes than are
allowed. -/
structure Located (bytes : Bytes) (limits : Limits) (layout : Layout) : Prop where
  ends : ∃ endOffset, SoleEnd bytes endOffset ∧
    (ClassicEnd bytes endOffset layout ∨ Zip64End bytes endOffset layout)
  directoryEnd : layout.directoryOffset + layout.directoryBytes = layout.directoryEnd
  directoryEnd_le : layout.directoryEnd ≤ bytes.length
  entries_le : layout.entries ≤ limits.archiveEntries
  directoryBytes_le : layout.directoryBytes ≤ limits.directoryBytes

/-- The directory is made of as many central records as are advertised, one behind the other and
nothing else. -/
def HasRecords (bytes : Bytes) (layout : Layout) : Prop :=
  ∃ records : List Bytes, records.length = layout.entries ∧
    (∀ record ∈ records, IsCentralRecord record) ∧
    slice bytes layout.directoryOffset layout.directoryBytes = records.flatten

section Layouts

variable {file : SourceFile}

theorem leAt_slice {bytes : Bytes} {offset length i width : Nat} (h : i + width ≤ length) :
    leAt (slice bytes offset length) i width = leAt bytes (offset + i) width := by
  unfold leAt
  rw [slice_slice h]

theorem slice_rest {bytes : Bytes} {offset length : Nat} (h : bytes.length ≤ offset + length) :
    slice bytes offset length = bytes.drop offset :=
  List.take_of_length_le (by rw [List.length_drop]; omega)

theorem slice_drop {bytes : Bytes} {offset i length : Nat} :
    slice (bytes.drop offset) i length = slice bytes (offset + i) length := by
  unfold slice
  rw [List.drop_drop]

theorem leAt_drop {bytes : Bytes} {offset i width : Nat} :
    leAt (bytes.drop offset) i width = leAt bytes (offset + i) width := by
  unfold leAt
  rw [slice_drop]

theorem checkEnd_eq_ok {record : Bytes} (h : checkEnd record = .ok ()) :
    record.length = 22 + leAt record 20 2 := by
  unfold checkEnd at h
  rw [bind_eq_ok] at h
  obtain ⟨comment, hcomment, h⟩ := h
  rw [bind_eq_ok] at h
  obtain ⟨length, hlength, h⟩ := h
  rw [bind_eq_ok] at h
  obtain ⟨_, hrefuse, -⟩ := h
  rw [refuse_eq_ok, not_not] at hrefuse
  rw [hrefuse, ← (add_eq_ok.mp hlength).2, (field_eq_ok.mp hcomment).2]

theorem classicLayout_eq_ok {record : Bytes} {endOffset : Nat} {layout : Layout}
    (h : classicLayout record endOffset = .ok layout) :
    layout = ⟨leAt record 10 2, leAt record 12 4, leAt record 16 4, endOffset⟩ := by
  simp only [classicLayout, bind_eq_ok, field_eq_ok, pure_eq_ok] at h
  obtain ⟨_, ⟨-, rfl⟩, _, ⟨-, rfl⟩, _, ⟨-, rfl⟩, hlayout⟩ := h
  exact (Except.ok.inj hlayout).symm

theorem zip64Layout_eq_ok {endOffset : Nat} {found : Bytes} {layout : Layout}
    (hlocator : locator file endOffset = .ok (some found))
    (h : zip64Layout file endOffset found = .ok layout) :
    Zip64End file.bytes endOffset layout := by
  obtain ⟨hend, hfound, -, hlocated⟩ := locator_eq_some hlocator
  simp only [zip64Layout, bind_eq_ok, field_eq_ok, sub_eq_ok, refuse_eq_ok, index_eq_ok, add_eq_ok,
    pure_eq_ok, not_not, ne_eq] at h
  obtain ⟨_, -, _, -, _, -, _, -, offset, ⟨-, rfl⟩, _, ⟨-, rfl⟩, _, -, record, hrecord, _, ⟨-, rfl⟩,
    _, ⟨-, rfl⟩, _, hsignature, _, hsize, _, ⟨-, rfl⟩, _, hplace, _, -, _, -, _, -, _, -, _, -,
    _, ⟨-, rfl⟩, _, -, _, ⟨-, rfl⟩, _, ⟨-, rfl⟩, hlayout⟩ := h
  obtain ⟨-, hslice, -⟩ := length_of_readExactAt hrecord
  obtain ⟨-, hplace⟩ := checkedAdd_eq_some.mp hplace
  cases hlayout
  rw [hfound, slice_slice (by decide)] at hlocated
  rw [hfound, leAt_slice (by decide)] at hslice hplace ⊢
  refine ⟨?_, ?_, rfl, ?_, ?_, ?_, ?_⟩
  · dsimp only
    omega
  · exact hlocated
  · rw [hslice, slice_slice (by decide)] at hsignature
    exact hsignature
  all_goals
    dsimp only
    rw [hslice, leAt_slice (by decide)]

theorem readLayout_eq_ok {limits : Limits} {layout : Layout}
    (h : readLayout file limits = .ok layout) : Located file.bytes limits layout := by
  have hfile := file.length_lt
  unfold readLayout at h
  rw [bind_eq_ok] at h
  obtain ⟨longest, hlongest, h⟩ := h
  rw [bind_eq_ok] at h
  obtain ⟨tailOffset, htailOffset, h⟩ := h
  rw [bind_eq_ok] at h
  obtain ⟨tail, htail, h⟩ := h
  rw [bind_eq_ok] at h
  obtain ⟨place, hplace, h⟩ := h
  rw [bind_eq_ok] at h
  obtain ⟨record, hrecord, h⟩ := h
  rw [bind_eq_ok] at h
  obtain ⟨_, hcheck, h⟩ := h
  rw [bind_eq_ok] at h
  obtain ⟨endOffset, hendOffset, h⟩ := h
  rw [bind_eq_ok] at h
  obtain ⟨classic, hclassic, h⟩ := h
  rw [bind_eq_ok] at h
  obtain ⟨found, hfound, h⟩ := h
  rw [bind_eq_ok] at h
  obtain ⟨layout', hlayout, h⟩ := h
  simp only [bind_eq_ok, refuse_eq_ok, pure_eq_ok, not_or, not_lt, not_not, ne_eq] at h
  obtain ⟨_, ⟨hentries, hbytes⟩, _, hdirectory, hsame⟩ := h
  cases hsame
  obtain ⟨-, rfl⟩ := add_eq_ok.mp hlongest
  obtain ⟨-, rfl⟩ := sub_eq_ok.mp htailOffset
  obtain ⟨-, rfl⟩ := add_eq_ok.mp hendOffset
  obtain ⟨-, htailSlice, htailLength⟩ := length_of_readExactAt htail
  obtain ⟨hsole, hroom⟩ := endPlace_eq_ok hplace
  obtain ⟨-, hdirectory⟩ := checkedAdd_eq_some.mp hdirectory
  obtain ⟨-, hrecordSlice⟩ := index_eq_ok.mp hrecord
  generalize hstart : file.bytes.length - min file.bytes.length (22 + 65535) = start at *
  have htailDrop : tail = file.bytes.drop start := by rw [htailSlice, slice_rest (by omega)]
  have hrecordDrop : record = file.bytes.drop (start + place) := by
    rw [← hrecordSlice, slice_rest (by omega), htailDrop, List.drop_drop]
  have hcomment := checkEnd_eq_ok hcheck
  rw [hrecordDrop, List.length_drop, leAt_drop] at hcomment
  have hend : SoleEnd file.bytes (start + place) := by
    refine ⟨by omega, fun other hother => ?_, by omega⟩
    rw [hstart] at hother
    obtain ⟨n, rfl⟩ := Nat.exists_eq_add_of_le hother
    rw [← slice_drop, ← htailDrop, hsole n]
    omega
  cases found with
  | some found =>
    have hzip64 := zip64Layout_eq_ok hfound hlayout
    have hadjacent := hzip64.adjacent
    exact ⟨⟨_, hend, .inr hzip64⟩, hdirectory, by omega, hentries, hbytes⟩
  | none =>
    simp only [bind_eq_ok, refuse_eq_ok, pure_eq_ok] at hlayout
    obtain ⟨_, -, hlayout⟩ := hlayout
    cases hlayout
    have hfields := classicLayout_eq_ok hclassic
    rw [hrecordDrop, leAt_drop, leAt_drop, leAt_drop] at hfields
    have hclassicEnd : ClassicEnd file.bytes (start + place) layout := by
      rw [hfields]
      exact ⟨rfl, rfl, rfl, rfl, locator_eq_none hfound⟩
    have hplaceEnd := hclassicEnd.directoryEnd
    exact ⟨⟨_, hend, .inl hclassicEnd⟩, hdirectory, by omega, hentries, hbytes⟩

end Layouts

/-! ## The walk finds the records -/

section Walk

variable {file : SourceFile} {stop : Nat}

theorem headerEnd_eq_ok {header : Bytes} {position next : Nat}
    (h : headerEnd header stop position = .ok next) :
    slice header 0 4 = headerSignature ∧ next ≤ stop ∧
      next = position + (46 + (leAt header 28 2 + leAt header 30 2 + leAt header 32 2)) := by
  simp only [headerEnd, bind_eq_ok, index_eq_ok, field_eq_ok, add_eq_ok, refuse_eq_ok, not_not,
    ne_eq] at h
  obtain ⟨_, ⟨-, rfl⟩, _, hsignature, _, ⟨-, rfl⟩, _, ⟨-, rfl⟩, _, ⟨-, rfl⟩, _, ⟨-, rfl⟩, _,
    ⟨-, rfl⟩, _, ⟨-, rfl⟩, h⟩ := h
  refine ⟨hsignature, ?_⟩
  split at h
  · rename_i found hfound
    cases h
    obtain ⟨hsum, hle⟩ := Option.filter_eq_some_iff.mp hfound
    obtain ⟨-, rfl⟩ := checkedAdd_eq_some.mp hsum
    exact ⟨of_decide_eq_true hle, rfl⟩
  · cases h

/-- A header and what it names behind it are a record. -/
theorem isCentralRecord_of_header {header : Bytes} {position next : Nat}
    (hstop : stop ≤ file.bytes.length) (hheader : readExactAt file position 46 = .ok header)
    (h : headerEnd header stop position = .ok next) :
    position ≤ next ∧ next ≤ stop ∧
      IsCentralRecord (slice file.bytes position (next - position)) := by
  obtain ⟨-, hslice, -⟩ := length_of_readExactAt hheader
  obtain ⟨hsignature, hle, hnext⟩ := headerEnd_eq_ok h
  rw [hslice] at hnext hsignature
  rw [leAt_slice (by decide), leAt_slice (by decide), leAt_slice (by decide)] at hnext
  rw [slice_slice (by decide)] at hsignature
  refine ⟨by omega, hle, ⟨?_, ?_⟩⟩
  · rw [slice_slice (by omega)]
    exact hsignature
  · rw [length_slice_of_le (by omega), leAt_slice (by omega), leAt_slice (by omega),
      leAt_slice (by omega)]
    omega

/-- A step whose accesses are checked keeps the count. -/
theorem triple_ofChecked {α : Type} {P : Nat → Prop} {x : Checked Error α} (hx : Safe x) :
    Triple P (ofChecked x) (fun a n => P n ∧ x = .ok a) fun s n => P n ∧ s ≠ .fault := by
  intro n hn
  cases x with
  | ok a => exact ⟨hn, rfl⟩
  | error s => exact ⟨hn, fun hfault => hx (by rw [hfault])⟩

/-- The walk from a position to another one over records. -/
def Walks (bytes : Bytes) (turns position final : Nat) : Prop :=
  ∃ records : List Bytes, records.length = turns ∧ (∀ record ∈ records, IsCentralRecord record) ∧
    position ≤ final ∧ slice bytes position (final - position) = records.flatten

theorem Walks.cons {bytes : Bytes} {turns position next final : Nat} (hle : position ≤ next)
    (hrecord : IsCentralRecord (slice bytes position (next - position)))
    (h : Walks bytes turns next final) : Walks bytes (turns + 1) position final := by
  obtain ⟨records, hlength, hrecords, hnext, hslice⟩ := h
  refine ⟨slice bytes position (next - position) :: records, by rw [List.length_cons, hlength],
    fun record hmem => ?_, by omega, ?_⟩
  · rcases List.mem_cons.mp hmem with rfl | hrest
    · exact hrecord
    · exact hrecords record hrest
  · have hsplit := slice_append_slice bytes position (next - position) (final - next)
    rw [show position + (next - position) = next by omega, hslice,
      show next - position + (final - next) = final - position by omega] at hsplit
    rw [← hsplit, List.flatten_cons]

theorem triple_headers (hstop : stop ≤ file.bytes.length) (turns position before : Nat) :
    Triple (· = before) (headers file stop turns position)
      (fun final n => n = before + turns ∧ Walks file.bytes turns position final)
      fun s n => n ≤ before + turns ∧ s ≠ .fault := by
  induction turns generalizing position before with
  | zero =>
    refine triple_pure fun n hn => ⟨hn, [], rfl, fun _ hnil => ?_, Nat.le_refl _, ?_⟩
    · exact absurd hnil List.not_mem_nil
    · rw [Nat.sub_self, slice_zero]
      rfl
  | succ turns ih =>
    refine Triple.bind ((triple_ofChecked (safe_refuse _ _)).weaken (fun _ hs => hs)
      (fun _ _ hs => hs.1) fun _ _ hs => ⟨by omega, hs.2⟩) fun _ => ?_
    refine Triple.bind ((triple_ofChecked (P := (· = before)) (safe_readExactAt _ _)).weaken
      (fun _ hs => hs) (fun _ _ hs => hs) fun _ _ hs => ⟨by omega, hs.2⟩) fun header => ?_
    refine Triple.of_fact (p := readExactAt file position 46 = .ok header) (fun hheader => ?_)
      fun _ hs => hs.2
    refine Triple.bind (Q := fun _ n => n = before + 1) (triple_modify fun n hs => by omega)
      fun _ => ?_
    refine Triple.bind ((triple_ofChecked (safe_headerEnd (length_of_readExactAt hheader).2.2
      stop position)).weaken (fun _ hs => hs) (fun _ _ hs => hs) fun _ _ hs => ⟨by omega, hs.2⟩)
      fun next => ?_
    refine Triple.of_fact (p := headerEnd header stop position = .ok next) (fun hnext => ?_)
      fun _ hs => hs.2
    obtain ⟨hle, -, hrecord⟩ := isCentralRecord_of_header hstop hheader hnext
    exact (ih next (before + 1)).weaken (fun _ hs => hs.1)
      (fun _ _ hs => ⟨by omega, hs.2.cons hle hrecord⟩) fun _ _ hs => ⟨by omega, hs.2⟩

end Walk

/-! ## Admission -/

section Admitting

variable (file : SourceFile) (limits : Limits)

theorem triple_admitted : Triple (· = 0) (admitted file limits)
    (fun layout inspected => inspected ≤ limits.archiveEntries ∧
      Located file.bytes limits layout ∧ HasRecords file.bytes layout)
    fun stop inspected => inspected ≤ limits.archiveEntries ∧ stop ≠ .fault := by
  refine Triple.bind ((triple_ofChecked (safe_readLayout limits)).weaken (fun _ hs => hs)
    (fun _ _ hs => hs) fun _ _ hs => ⟨by omega, hs.2⟩) fun layout => ?_
  refine Triple.of_fact (p := readLayout file limits = .ok layout) (fun hlayout => ?_)
    fun _ hs => hs.2
  have hlocated := readLayout_eq_ok hlayout
  have hentries := hlocated.entries_le
  refine Triple.bind ((triple_headers hlocated.directoryEnd_le layout.entries
    layout.directoryOffset 0).weaken (fun _ hs => hs.1) (fun _ _ hs => hs)
    fun _ _ hs => ⟨by omega, hs.2⟩) fun final => ?_
  refine Triple.bind ((triple_ofChecked (safe_refuse _ _)).weaken (fun _ hs => hs)
    (fun _ _ hs => hs) fun _ _ hs => ⟨by omega, hs.2⟩) fun _ => ?_
  refine triple_pure fun inspected hs => ⟨by omega, hlocated, ?_⟩
  obtain ⟨⟨-, records, hlength, hrecords, -, hslice⟩, hfinal⟩ := hs
  rw [refuse_eq_ok, not_not] at hfinal
  have hdirectory := hlocated.directoryEnd
  refine ⟨records, hlength, hrecords, ?_⟩
  rw [← hslice, hfinal, ← hdirectory, Nat.add_sub_cancel_left]

/-- The layout that an opened archive was admitted with: the library gave it for the bytes of the
file, and found the directory where, and as long as, it was found before. -/
structure AdmittedAs (library : Bytes → Result ZipArchive) (archive : ZipArchive)
    (layout : Layout) : Prop where
  parsed : library file.bytes = .ok archive
  located : Located file.bytes limits layout
  records : HasRecords file.bytes layout
  entries : archive.files.length = layout.entries
  directoryOffset : archive.centralDirectoryStart = layout.directoryOffset

theorem triple_openArchive (library : Bytes → Result ZipArchive) :
    Triple (· = 0) (openArchive library file limits)
      (fun opened inspected => inspected ≤ limits.archiveEntries ∧
        ∃ layout, AdmittedAs file limits library opened.1 layout)
      fun stop inspected => inspected ≤ limits.archiveEntries ∧ stop ≠ .fault := by
  refine Triple.bind (triple_admitted file limits) fun layout => ?_
  cases hlibrary : library file.bytes with
  | error e => exact triple_throw fun _ hs => ⟨hs.1, fun h => by cases h⟩
  | ok archive =>
    refine Triple.bind ((triple_ofChecked (safe_refuse _ _)).weaken (fun _ hs => hs)
      (fun _ _ hs => hs) fun _ _ hs => ⟨hs.1.1, hs.2⟩) fun _ => ?_
    refine triple_pure fun inspected hs => ?_
    obtain ⟨⟨hinspected, hlocated, hrecords⟩, hchecked⟩ := hs
    rw [refuse_eq_ok, not_or, not_not, not_not] at hchecked
    exact ⟨hinspected, layout, hlibrary, hlocated, hrecords, hchecked.1, hchecked.2⟩

/-- What stops before the library stops in the same way with every library. -/
theorem openArchive_of_refused {stop : Stop Error} {inspected : Nat}
    (h : admitted file limits 0 = .error stop inspected) (library : Bytes → Result ZipArchive) :
    openArchive library file limits 0 = .error stop inspected := by
  change EStateM.bind (admitted file limits) _ 0 = _
  unfold EStateM.bind
  rw [h]

/-- With the same answer for the bytes of the file, two libraries open the same archive. -/
theorem openArchive_congr {library library' : Bytes → Result ZipArchive}
    (h : library file.bytes = library' file.bytes) :
    openArchive library file limits = openArchive library' file limits := by
  unfold openArchive
  rw [h]

/-- Opening an archive never faults and inspects no more headers than the limits allow; what it
opens is what the library gave for an admitted layout; and its result depends on the library only
through its answer for the bytes of a file with one end record and exactly the advertised records
before it. -/
theorem openArchive_admits (library : Bytes → Result ZipArchive) :
    (∀ stop inspected, openArchive library file limits 0 = .error stop inspected →
      stop ≠ .fault ∧ inspected ≤ limits.archiveEntries) ∧
    (∀ opened inspected, openArchive library file limits 0 = .ok opened inspected →
      inspected ≤ limits.archiveEntries ∧
        ∃ layout, AdmittedAs file limits library opened.1 layout) ∧
    ∀ library', openArchive library file limits 0 ≠ openArchive library' file limits 0 →
      library file.bytes ≠ library' file.bytes ∧
        ∃ layout inspected, admitted file limits 0 = .ok layout inspected ∧
          Located file.bytes limits layout ∧ HasRecords file.bytes layout := by
  have hopen := triple_openArchive file limits library
  refine ⟨fun stop inspected h => ?_, fun opened inspected h => hopen.ok rfl h,
    fun library' hdiffers => ⟨fun hsame => ?_, ?_⟩⟩
  · exact ⟨(hopen.error rfl h).2, (hopen.error rfl h).1⟩
  · rw [openArchive_congr file limits hsame] at hdiffers
    exact hdiffers rfl
  · cases hadmitted : admitted file limits 0 with
    | ok layout inspected =>
      exact ⟨layout, inspected, rfl, ((triple_admitted file limits).ok rfl hadmitted).2⟩
    | error stop inspected =>
      rw [openArchive_of_refused file limits hadmitted,
        openArchive_of_refused file limits hadmitted] at hdiffers
      exact (hdiffers rfl).elim

end Admitting

/-- A file with a directory of one record, whose name has one byte, and an end record. -/
def oneRecord : SourceFile where
  bytes := headerSignature ++ List.replicate 24 0 ++ [1, 0] ++ List.replicate 16 0 ++ [0x61] ++
    endSignature ++ [0, 0, 0, 0, 1, 0, 1, 0, 47, 0, 0, 0, 0, 0, 0, 0, 0, 0]
  length_lt := by decide

/-- Two libraries that fail in different ways show that the file reaches them. -/
theorem openArchive_admits_oneRecord : ∃ layout inspected,
    admitted oneRecord .unrestricted 0 = .ok layout inspected ∧
      Located oneRecord.bytes .unrestricted layout ∧ HasRecords oneRecord.bytes layout := by
  have hfails : ∀ message, openArchive (fun _ => .error (.zip message)) oneRecord .unrestricted 0 =
      .error (.error (.zip message)) 1 := fun _ => rfl
  refine ((openArchive_admits oneRecord .unrestricted fun _ => .error (.zip "unsupported")).2.2
    (fun _ => .error (.zip "truncated")) fun hsame => ?_).2
  rw [hfails, hfails] at hsame
  simp only [EStateM.Result.error.injEq, Stop.error.injEq, Error.zip.injEq] at hsame
  exact absurd hsame.1 (by decide)

end Admission

end EwfImage.Aff4
