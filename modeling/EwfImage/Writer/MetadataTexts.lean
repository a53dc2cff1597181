import EwfImage.Image.Geometry
import EwfImage.Metadata.XmlPayloads
import EwfImage.Reading.SingleFiles

/-!
# Texts with numbers of the geometry

The texts of the writer in which a reader finds numbers of the geometry: the device information
and the case data of EWF2, each a table of one line of names and one line of values, and the
record category in front of the catalog of single files. The writer puts header values into both
tables; it takes tabs and line ends out of the values, not out of the names.

A device information is read back with the numbers of the options (`parse_deviceInformation`),
unless the character of the media type is itself a tab or a line feed: then the columns behind it
are shifted or cut off, and the table declares no size (`parse_deviceInformation_shifted`).
-/

namespace EwfImage

open Fallible Text Word

/-! ## Header values -/

/-- The metadata with the value that the XML header leaves out. -/
structure HeaderMetadata extends EwfMetadata where
  systemDate : Option String := none

namespace HeaderMetadata

variable (metadata : HeaderMetadata)

def standardHeaderValue (identifier : String) : Option String :=
  match identifier with
  | "case_number" => metadata.caseNumber
  | "description" => metadata.description
  | "examiner_name" => metadata.examiner
  | "evidence_number" => metadata.evidenceNumber
  | "notes" => metadata.notes
  | "acquiry_date" => metadata.acquisitionDate
  | "system_date" => metadata.systemDate
  | "acquiry_operating_system" => metadata.osVersion
  | "acquiry_software" => metadata.acquisitionSoftware
  | "acquiry_software_version" => metadata.acquisitionSoftwareVersion
  | "password" => metadata.password
  | _ => none

def headerValue (identifier : String) : Option String :=
  (metadata.standardHeaderValue identifier).or (metadata.headerValues.lookup identifier)

/-- A header value under its identifier or one of the aliases, without tabs and line ends. -/
def sanitizedHeaderValue (identifier : String) (aliases : List String) : Option (List Char) :=
  ((metadata.headerValue identifier).or
    (aliases.findSome? fun other => metadata.headerValues.lookup other)).map fun value =>
      sanitizeHeaderValue value.toList

/-- `ewf2_device_header_value`. -/
def ewf2DeviceHeaderValue (identifier : String) (aliases : List String) : List Char :=
  (metadata.sanitizedHeaderValue identifier aliases).getD []

/-- `ewf2_case_data_header_value`. -/
def ewf2CaseDataHeaderValue (identifier : String) (aliases : List String) : Option (List Char) :=
  metadata.sanitizedHeaderValue identifier aliases

end HeaderMetadata

/-! ## Tables -/

/-- The name of a column and its value. -/
abbrev Column := List Char × List Char

/-- The text of a table: two lines in front, the names, the values and an empty line. -/
def tabularText (names values : List (List Char)) : List Char :=
  "1\nmain\n".toList ++ joinTabs names ++ '\n' :: (joinTabs values ++ "\n\n".toList)

def tableOf (columns : List Column) : List Char :=
  tabularText (columns.map Prod.fst) (columns.map Prod.snd)

def ewf2MediaTypeValue : MediaType → Char
  | .removable => 'r'
  | .fixed => 'f'
  | .optical => 'c'
  | .singleFiles => 'l'
  | .memory => 'm'
  | .unknown value => Char.ofNat value.toNat

def writeBlockerFlags (profile : WriteMediaProfile) : Nat :=
  profile.fastbloc.toNat ||| profile.tableau.toNat <<< 1

/-- The columns in front of the one with the media type. -/
def deviceColumnsBefore (metadata : HeaderMetadata) (sectorCount : Nat) : List Column := [
  ("sn".toList, metadata.ewf2DeviceHeaderValue "serial_number" ["sn"]),
  ("md".toList, metadata.ewf2DeviceHeaderValue "model" ["md"]),
  ("lb".toList, metadata.ewf2DeviceHeaderValue "device_label" ["lb", "l"]),
  ("ts".toList, Decimal.digits sectorCount),
  ("hs".toList, []),
  ("dc".toList, [])]

def deviceMediaType (options : WriteOptions) : Char :=
  ewf2MediaTypeValue (options.mediaProfile.mediaType.getD .removable)

/-- The columns behind the one with the media type. -/
def deviceColumnsBehind (options : WriteOptions) (metadata : HeaderMetadata)
    (chunkCount : Nat) : List Column := [
  ("pid".toList, metadata.ewf2DeviceHeaderValue "process_identifier" ["pid"]),
  ("rs".toList, []),
  ("ls".toList, []),
  ("bp".toList, Decimal.digits options.bytesPerSector.toNat),
  ("ph".toList, if options.format = .ewf2Physical then ['1'] else ['0']),
  ("sc".toList, Decimal.digits options.sectorsPerChunk.toNat),
  ("tb".toList, Decimal.digits chunkCount)]

/-- The columns that are only there when they are needed. -/
def deviceColumnsAdded (profile : WriteMediaProfile) : List Column :=
  (profile.errorGranularity.elim [] fun sectors => [("gr".toList, Decimal.digits sectors)]) ++
    if writeBlockerFlags profile = 0 then []
    else [("wb".toList, Decimal.digits (writeBlockerFlags profile))]

/-- The text of `ewf2_device_information_payload`. -/
def ewf2DeviceInformation (options : WriteOptions) (metadata : HeaderMetadata)
    (sectorCount chunkCount : Nat) : List Char :=
  tableOf (deviceColumnsBefore metadata sectorCount ++
    ("dt".toList, [deviceMediaType options]) :: (deviceColumnsBehind options metadata chunkCount ++
      deviceColumnsAdded options.mediaProfile))

def ewf2CaseDataTag (identifier : String) : String :=
  match identifier with
  | "acquiry_date" | "ad" => "at"
  | "acquiry_operating_system" | "ov" => "os"
  | "acquiry_software_version" => "av"
  | "case_number" => "cn"
  | "compression_method" => "cp"
  | "description" | "de" => "nm"
  | "evidence_number" => "en"
  | "examiner_name" => "ex"
  | "error_granularity" => "gr"
  | "notes" => "nt"
  | "number_of_chunks" => "tb"
  | "sectors_per_chunk" => "sb"
  | "system_date" | "sd" => "tt"
  | "write_blocker" => "wb"
  | _ => identifier

/-- The columns of the case data with their own fields. -/
def caseDataFields (options : WriteOptions) (metadata : HeaderMetadata)
    (chunkCount : Nat) : List Column := [
  ("nm".toList, (metadata.ewf2CaseDataHeaderValue "description" ["nm", "de"]).getD []),
  ("cn".toList, (metadata.ewf2CaseDataHeaderValue "case_number" ["cn"]).getD []),
  ("en".toList, (metadata.ewf2CaseDataHeaderValue "evidence_number" ["en"]).getD []),
  ("ex".toList, (metadata.ewf2CaseDataHeaderValue "examiner_name" ["ex"]).getD []),
  ("nt".toList, (metadata.ewf2CaseDataHeaderValue "notes" ["nt"]).getD []),
  ("av".toList, (metadata.ewf2CaseDataHeaderValue "acquiry_software_version" ["av"]).getD []),
  ("os".toList,
    (metadata.ewf2CaseDataHeaderValue "acquiry_operating_system" ["os", "ov"]).getD []),
  ("tt".toList, (metadata.ewf2CaseDataHeaderValue "system_date" ["tt", "sd"]).getD []),
  ("at".toList, (metadata.ewf2CaseDataHeaderValue "acquiry_date" ["at", "ad"]).getD []),
  ("tb".toList, Decimal.digits chunkCount),
  ("cp".toList, (metadata.ewf2CaseDataHeaderValue "compression_method" ["cp"]).getD []),
  ("sb".toList, Decimal.digits options.sectorsPerChunk.toNat),
  ("gr".toList, options.mediaProfile.errorGranularity.elim
    ((metadata.ewf2CaseDataHeaderValue "error_granularity" ["gr"]).getD ['0']) Decimal.digits),
  ("wb".toList, if writeBlockerFlags options.mediaProfile ≠ 0 then
      Decimal.digits (writeBlockerFlags options.mediaProfile)
    else (metadata.ewf2CaseDataHeaderValue "write_blocker" ["wb"]).getD [])]

/-- A header value in a column of its own, unless there is a column of that name. -/
def addHeaderValue (columns : List Column) (entry : String × String) : List Column :=
  let tag := (ewf2CaseDataTag entry.1).toList
  if columns.any (·.1 = tag) then columns
  else columns ++ [(tag, sanitizeHeaderValue entry.2.toList)]

def caseDataColumns (options : WriteOptions) (metadata : HeaderMetadata) (chunkCount : Nat) :
    List Column :=
  let software := metadata.acquisitionSoftware.elim [] fun value =>
    [("acquiry_software".toList, sanitizeHeaderValue value.toList)]
  let password := metadata.password.elim [] fun value =>
    [("password".toList, sanitizeHeaderValue value.toList)]
  metadata.headerValues.foldl addHeaderValue
    (caseDataFields options metadata chunkCount ++ software ++ password)

/-- The text of `ewf2_case_data_payload`. -/
def ewf2CaseData (options : WriteOptions) (metadata : HeaderMetadata) (chunkCount : Nat) :
    List Char :=
  tableOf (caseDataColumns options metadata chunkCount)

/-! ## The record of a catalog -/

/-- An entry of a catalog, as far as it says which bytes of the media it needs. -/
inductive CatalogEntry
  | mk (size : Option UInt64) (extents : List Reading.SingleFileExtent) (children : List CatalogEntry)

/-- A catalog, as far as its record goes. -/
structure SingleFilesInfo where
  dataSize : UInt64
  root : CatalogEntry

/-- Where the bytes of an extent end, a sparse one aside. -/
def extentsDataSize (dataSize : Nat) (extents : List Reading.SingleFileExtent) : Result Nat :=
  extents.foldlM (fun dataSize extent =>
    if extent.sparse then .ok dataSize
    else do
      let extentEnd ← okOr (.malformed "single files extent end overflow")
        (checkedAdd extent.dataOffset extent.dataSize)
      return max dataSize extentEnd) dataSize

mutual

def singleFileEntryDataSize : CatalogEntry → Result Nat
  | .mk size extents children => do
    let dataSize ← extentsDataSize (size.getD 0).toNat extents
    childrenDataSize dataSize children

/-- The loop over the children of an entry. -/
def childrenDataSize (dataSize : Nat) : List CatalogEntry → Result Nat
  | [] => .ok dataSize
  | child :: children => do
    let childSize ← singleFileEntryDataSize child
    childrenDataSize (max dataSize childSize) children

end

def singleFilesRecordDataSize (info : SingleFilesInfo) : Result Nat := do
  let entrySize ← singleFileEntryDataSize info.root
  return max info.dataSize.toNat entrySize

/-- The lines of a catalog up to the end of its record category. -/
def catalogRecord (info : SingleFilesInfo) : Result (List (List Char)) := do
  let dataSize ← singleFilesRecordDataSize info
  return ["5".toList, "rec".toList, "tb".toList, Decimal.digits dataSize, []]

/-! ## Reading the texts back -/

/-- A text without tabs and line ends. -/
def isClean (text : List Char) : Bool := text.all fun c => c ≠ '\t' ∧ c ≠ '\n' ∧ c ≠ '\r'

section Clean

variable {text : List Char}

theorem isClean_iff : isClean text = true ↔ '\t' ∉ text ∧ '\n' ∉ text ∧ '\r' ∉ text := by
  simp only [isClean, List.all_eq_true, decide_eq_true_eq]
  constructor
  · intro h
    exact ⟨fun hc => (h _ hc).1 rfl, fun hc => (h _ hc).2.1 rfl, fun hc => (h _ hc).2.2 rfl⟩
  · rintro ⟨htab, hlf, hcr⟩ c hc
    exact ⟨fun heq => htab (heq ▸ hc), fun heq => hlf (heq ▸ hc), fun heq => hcr (heq ▸ hc)⟩

theorem isClean_sanitizeHeaderValue (value : List Char) :
    isClean (sanitizeHeaderValue value) = true := by
  simp only [isClean, sanitizeHeaderValue, List.all_map, List.all_eq_true, Function.comp_apply,
    decide_eq_true_eq]
  intro c _
  by_cases hc : c = '\t' ∨ c = '\n' ∨ c = '\r'
  · rw [if_pos hc]
    decide
  · rw [if_neg hc]
    simpa only [not_or] using hc

theorem isClean_sanitizedHeaderValue (metadata : HeaderMetadata) (identifier : String)
    (aliases : List String) :
    isClean ((metadata.sanitizedHeaderValue identifier aliases).getD []) = true := by
  unfold HeaderMetadata.sanitizedHeaderValue
  cases (metadata.headerValue identifier).or
    (aliases.findSome? fun other => metadata.headerValues.lookup other) with
  | none => rfl
  | some value => exact isClean_sanitizeHeaderValue value.toList

theorem isClean_digits (n : Nat) : isClean (Decimal.digits n) = true := by
  simp only [isClean, List.all_eq_true, decide_eq_true_eq]
  intro c hc
  have hdigit := Decimal.isDigit_of_mem_padded hc
  refine ⟨?_, ?_, ?_⟩ <;> (rintro rfl; exact absurd hdigit (by decide))

/-- A line of columns ends where it was to end, if the last of them are clean. -/
theorem isLine_joinTabs {front back : List (List Char)} (hfront : ∀ column ∈ front, '\n' ∉ column)
    (hback : ∀ column ∈ back, isClean column = true) (hne : back ≠ []) :
    IsLine (joinTabs (front ++ back)) := by
  have hlf : '\n' ∉ joinTabs back :=
    notMem_joinTabs (by decide) fun column hc => (isClean_iff.mp (hback column hc)).2.1
  have hcr : '\r' ∉ joinTabs back :=
    notMem_joinTabs (by decide) fun column hc => (isClean_iff.mp (hback column hc)).2.2
  by_cases hempty : front = []
  · rw [hempty, List.nil_append]
    exact isLine_of_notMem hlf hcr
  · rw [joinTabs_append hempty hne]
    refine .append (notMem_joinTabs (by decide) hfront) (isLine_of_notMem ?_ ?_) (by simp)
    · exact not_or.mpr ⟨by decide, hlf⟩ ∘ List.mem_cons.mp
    · exact not_or.mpr ⟨by decide, hcr⟩ ∘ List.mem_cons.mp

end Clean

/-- The fields of a text whose third and fourth line are known. -/
theorem tabularFields_of_lines {names values : List Char} (hnames : IsLine names)
    (hvalues : IsLine values) (rest : List Char) :
    Ewf2.tabularFields ("1\nmain\n".toList ++ names ++ '\n' :: (values ++ '\n' :: rest)) =
      (names.splitOn '\t').zip (values.splitOn '\t') := by
  have hone : IsLine ['1'] := ⟨by decide, by decide⟩
  have hmain : IsLine "main".toList := ⟨by decide, by decide⟩
  have htext : "1\nmain\n".toList ++ names ++ '\n' :: (values ++ '\n' :: rest) =
      ['1'] ++ '\n' :: ("main".toList ++ '\n' :: (names ++ '\n' :: (values ++ '\n' :: rest))) := by
    simp
  unfold Ewf2.tabularFields
  rw [htext, replaceCrLf_append hone, replaceCrLf_append hmain, replaceCrLf_append hnames,
    replaceCrLf_append hvalues, lines_append hone, lines_append hmain, lines_append hnames,
    lines_append hvalues]

/-- Columns come back with their names: the names are clean, and of the values the last are. -/
theorem tabularFields_of_columns (names front back : List (List Char))
    (hnames : ∀ name ∈ names, isClean name = true) (hnamed : names ≠ [])
    (hfront : ∀ value ∈ front, '\t' ∉ value ∧ '\n' ∉ value)
    (hback : ∀ value ∈ back, isClean value = true) (hne : back ≠ []) (rest : List Char) :
    Ewf2.tabularFields ("1\nmain\n".toList ++ joinTabs names ++
      '\n' :: (joinTabs (front ++ back) ++ '\n' :: rest)) = names.zip (front ++ back) := by
  have hnameLine : IsLine (joinTabs names) := by
    have hline : IsLine (joinTabs ([] ++ names)) := isLine_joinTabs (by simp) hnames hnamed
    exact hline
  have hvalueLine : IsLine (joinTabs (front ++ back)) :=
    isLine_joinTabs (fun value hvalue => (hfront value hvalue).2) hback hne
  have hnameTabs : ∀ name ∈ names, '\t' ∉ name := fun name hname =>
    (isClean_iff.mp (hnames name hname)).1
  have hvalueTabs : ∀ value ∈ front ++ back, '\t' ∉ value := by
    intro value hvalue
    rcases List.mem_append.mp hvalue with hvalue | hvalue
    · exact (hfront value hvalue).1
    · exact (isClean_iff.mp (hback value hvalue)).1
  rw [tabularFields_of_lines hnameLine hvalueLine, joinTabs, joinTabs,
    List.splitOn_intercalate _ hnameTabs hnamed,
    List.splitOn_intercalate _ hvalueTabs (by simp [hne])]

/-- A table with clean names, read back: the values may hold one that is not clean if clean values
follow it. -/
theorem tabularFields_tableOf {front back : List Column} (hne : back ≠ [])
    (hnames : ∀ column ∈ front ++ back, isClean column.1 = true)
    (hfront : ∀ column ∈ front, '\t' ∉ column.2 ∧ '\n' ∉ column.2)
    (hback : ∀ column ∈ back, isClean column.2 = true) :
    Ewf2.tabularFields (tableOf (front ++ back)) = front ++ back := by
  have hfields := tabularFields_of_columns ((front ++ back).map Prod.fst) (front.map Prod.snd)
    (back.map Prod.snd)
    (by simpa only [List.forall_mem_map] using hnames) (by simp [hne])
    (by simpa only [List.forall_mem_map] using hfront)
    (by simpa only [List.forall_mem_map] using hback) (by simp [hne]) ['\n']
  rw [← List.map_append] at hfields
  exact hfields.trans (List.zip_of_prod rfl rfl).symm

/-! ## The device information -/

namespace Ewf2.DeviceInformation

variable {info : DeviceInformation} {value : List Char}

/-- A field that no number of the geometry is in. -/
theorem visit_other (name : List Char) (hname : ∀ parsed, info.set name parsed = info) :
    info.visit (name, value) = info := by
  unfold DeviceInformation.visit
  split
  · rfl
  · cases Decimal.parseUnsigned u64Limit value with
    | none => rfl
    | some parsed => exact hname parsed

theorem visit_digits {name : List Char} {n : Nat} (hname : ¬ (name = "dt".toList ∨ name = "ph".toList ∨
    name = "wb".toList)) (hn : n < u64Limit) :
    info.visit (name, Decimal.digits n) = info.set name n := by
  unfold DeviceInformation.visit
  rw [if_neg hname, Decimal.digits, Decimal.parseUnsigned_padded 0 hn]
  rfl

end Ewf2.DeviceInformation

section Device

open Ewf2

variable {options : WriteOptions} {metadata : HeaderMetadata} {sectorCount chunkCount : Nat}

/-- The columns in front of the media type hold the number of sectors. -/
theorem foldl_visit_before (info : DeviceInformation) (hsectors : sectorCount < u64Limit) :
    (deviceColumnsBefore metadata sectorCount).foldl DeviceInformation.visit info =
      { info with totalSectors := some sectorCount } := by
  simp only [deviceColumnsBefore, List.foldl_cons, List.foldl_nil]
  rw [DeviceInformation.visit_other "sn".toList (fun _ => rfl),
    DeviceInformation.visit_other "md".toList (fun _ => rfl),
    DeviceInformation.visit_other "lb".toList (fun _ => rfl),
    DeviceInformation.visit_digits (by decide) hsectors,
    DeviceInformation.visit_other "hs".toList (fun _ => rfl),
    DeviceInformation.visit_other "dc".toList (fun _ => rfl)]
  rfl

theorem foldl_visit_front (info : DeviceInformation) (media : List Char)
    (hsectors : sectorCount < u64Limit) :
    (deviceColumnsBefore metadata sectorCount ++ [("dt".toList, media)]).foldl
        DeviceInformation.visit info =
      { info with totalSectors := some sectorCount } := by
  rw [List.foldl_append, foldl_visit_before _ hsectors, List.foldl_cons, List.foldl_nil,
    DeviceInformation.visit_other "dt".toList (fun _ => rfl)]

/-- The columns behind it hold the numbers of the options. -/
theorem foldl_visit_behind (info : DeviceInformation) (hchunks : chunkCount < u64Limit) :
    (deviceColumnsBehind options metadata chunkCount ++
        deviceColumnsAdded options.mediaProfile).foldl DeviceInformation.visit info =
      { info with
        bytesPerSector := some options.bytesPerSector.toNat
        sectorsPerChunk := some options.sectorsPerChunk.toNat
        chunkCount := some chunkCount } := by
  have hword : ∀ value : UInt32, value.toNat < u64Limit := fun value =>
    Nat.lt_trans value.toNat_lt (by decide)
  have hadded : ∀ info : DeviceInformation,
      (deviceColumnsAdded options.mediaProfile).foldl DeviceInformation.visit info = info := by
    intro info
    unfold deviceColumnsAdded
    cases options.mediaProfile.errorGranularity <;> split <;>
      simp only [Option.elim_none, Option.elim_some, List.nil_append, List.append_nil,
        List.cons_append, List.foldl_cons, List.foldl_nil,
        DeviceInformation.visit_other "gr".toList (fun _ => rfl),
        DeviceInformation.visit_other "wb".toList (fun _ => rfl)]
  rw [List.foldl_append, hadded]
  simp only [deviceColumnsBehind, List.foldl_cons, List.foldl_nil]
  rw [DeviceInformation.visit_other "pid".toList (fun _ => rfl),
    DeviceInformation.visit_other "rs".toList (fun _ => rfl),
    DeviceInformation.visit_other "ls".toList (fun _ => rfl),
    DeviceInformation.visit_digits (by decide) (hword _),
    DeviceInformation.visit_other "ph".toList (fun _ => rfl),
    DeviceInformation.visit_digits (by decide) (hword _),
    DeviceInformation.visit_digits (by decide) hchunks]
  rfl

theorem isClean_before : ∀ column ∈ deviceColumnsBefore metadata sectorCount,
    isClean column.1 = true ∧ isClean column.2 = true := by
  have hvalue := isClean_sanitizedHeaderValue metadata
  have hnil : isClean [] = true := rfl
  simp only [deviceColumnsBefore, List.forall_mem_cons]
  exact ⟨⟨by decide, hvalue _ _⟩, ⟨by decide, hvalue _ _⟩, ⟨by decide, hvalue _ _⟩,
    ⟨by decide, isClean_digits _⟩, ⟨by decide, hnil⟩, ⟨by decide, hnil⟩, by simp⟩

theorem isClean_behind : ∀ column ∈ deviceColumnsBehind options metadata chunkCount,
    isClean column.1 = true ∧ isClean column.2 = true := by
  have hvalue := isClean_sanitizedHeaderValue metadata
  have hnil : isClean [] = true := rfl
  have hphysical : isClean (if options.format = .ewf2Physical then ['1'] else ['0']) = true := by
    split <;> decide
  simp only [deviceColumnsBehind, List.forall_mem_cons]
  exact ⟨⟨by decide, hvalue _ _⟩, ⟨by decide, hnil⟩, ⟨by decide, hnil⟩,
    ⟨by decide, isClean_digits _⟩, ⟨by decide, hphysical⟩, ⟨by decide, isClean_digits _⟩,
    ⟨by decide, isClean_digits _⟩, by simp⟩

theorem isClean_added (profile : WriteMediaProfile) : ∀ column ∈ deviceColumnsAdded profile,
    isClean column.1 = true ∧ isClean column.2 = true := by
  have hgr : isClean "gr".toList = true := by decide
  have hwb : isClean "wb".toList = true := by decide
  unfold deviceColumnsAdded
  cases profile.errorGranularity <;> split <;>
    simp only [Option.elim_none, Option.elim_some, List.nil_append, List.append_nil,
      List.cons_append, List.forall_mem_cons, List.not_mem_nil, false_implies, implies_true,
      hgr, hwb, isClean_digits, and_self]

theorem isClean_rest : ∀ column ∈ deviceColumnsBehind options metadata chunkCount ++
    deviceColumnsAdded options.mediaProfile,
    isClean column.1 = true ∧ isClean column.2 = true := by
  intro column hcolumn
  rcases List.mem_append.mp hcolumn with hbehind | hadded
  · exact isClean_behind column hbehind
  · exact isClean_added _ column hadded

theorem rest_ne_nil : deviceColumnsBehind options metadata chunkCount ++
    deviceColumnsAdded options.mediaProfile ≠ [] := by
  simp [deviceColumnsBehind]

theorem isClean_deviceNames : ∀ column ∈ deviceColumnsBefore metadata sectorCount ++
    [("dt".toList, [deviceMediaType options])] ++
      (deviceColumnsBehind options metadata chunkCount ++ deviceColumnsAdded options.mediaProfile),
    isClean column.1 = true := by
  intro column hcolumn
  rcases List.mem_append.mp hcolumn with hcolumn | hrest
  · rcases List.mem_append.mp hcolumn with hbefore | hmedia
    · exact (isClean_before column hbefore).1
    · rw [List.mem_singleton.mp hmedia]
      change isClean "dt".toList = true
      decide
  · exact (isClean_rest column hrest).1

/-- The numbers of the options come back. -/
theorem parse_deviceInformation (hmedia : deviceMediaType options ≠ '\t' ∧
      deviceMediaType options ≠ '\n')
    (hsectors : sectorCount < u64Limit) (hchunks : chunkCount < u64Limit) :
    DeviceInformation.parse (ewf2DeviceInformation options metadata sectorCount chunkCount) = {
      bytesPerSector := some options.bytesPerSector.toNat
      sectorsPerChunk := some options.sectorsPerChunk.toNat
      totalSectors := some sectorCount
      chunkCount := some chunkCount } := by
  have hfront : ∀ column ∈ deviceColumnsBefore metadata sectorCount ++
      [("dt".toList, [deviceMediaType options])], '\t' ∉ column.2 ∧ '\n' ∉ column.2 := by
    intro column hcolumn
    rcases List.mem_append.mp hcolumn with hbefore | hmediaColumn
    · have hclean := isClean_iff.mp (isClean_before column hbefore).2
      exact ⟨hclean.1, hclean.2.1⟩
    · rw [List.mem_singleton.mp hmediaColumn]
      simp only [List.mem_singleton]
      exact ⟨Ne.symm hmedia.1, Ne.symm hmedia.2⟩
  have hrest : deviceColumnsBehind options metadata chunkCount ++
      deviceColumnsAdded options.mediaProfile ≠ [] := rest_ne_nil
  have hfields := tabularFields_tableOf hrest isClean_deviceNames hfront fun column hcolumn =>
    (isClean_rest column hcolumn).2
  unfold DeviceInformation.parse ewf2DeviceInformation
  rw [List.append_cons, hfields, List.foldl_append, foldl_visit_front _ _ hsectors,
    foldl_visit_behind _ hchunks]

/-! ### A media type between the columns -/

theorem joinTabs_tab {front back : List (List Char)} (hfront : front ≠ []) (hback : back ≠ []) :
    joinTabs (front ++ ['\t'] :: back) = joinTabs (front ++ [] :: [] :: back) := by
  rw [joinTabs_append hfront (by simp), joinTabs_append hfront (by simp), joinTabs_cons hback,
    joinTabs_cons (by simp), joinTabs_cons hback]
  rfl

/-- A tab as the media type makes two empty values: the ones behind it belong to the names one
column on. -/
theorem tabularFields_tab (hmedia : deviceMediaType options = '\t') :
    tabularFields (ewf2DeviceInformation options metadata sectorCount chunkCount) =
      deviceColumnsBefore metadata sectorCount ++ [("dt".toList, [])] ++
        ((deviceColumnsBehind options metadata chunkCount ++
            deviceColumnsAdded options.mediaProfile).map Prod.fst).zip
          ([] :: (deviceColumnsBehind options metadata chunkCount ++
            deviceColumnsAdded options.mediaProfile).map Prod.snd) := by
  have hnames := @isClean_deviceNames options metadata sectorCount chunkCount
  have hrest := @isClean_rest options metadata chunkCount
  have hne := @rest_ne_nil options metadata chunkCount
  unfold ewf2DeviceInformation tableOf tabularText
  rw [hmedia] at hnames ⊢
  generalize deviceColumnsBehind options metadata chunkCount ++
    deviceColumnsAdded options.mediaProfile = rest at hnames hrest hne ⊢
  have hclean : ∀ value ∈ (deviceColumnsBefore metadata sectorCount).map Prod.snd ++
      [] :: [] :: rest.map Prod.snd, isClean value = true := by
    intro value hvalue
    simp only [List.mem_append, List.mem_cons, List.mem_map] at hvalue
    rcases hvalue with ⟨column, hcolumn, rfl⟩ | rfl | rfl | ⟨column, hcolumn, rfl⟩
    · exact (isClean_before column hcolumn).2
    · rfl
    · rfl
    · exact (hrest column hcolumn).2
  have hfields := tabularFields_of_columns
    ((deviceColumnsBefore metadata sectorCount ++ ("dt".toList, ['\t']) :: rest).map Prod.fst) []
    ((deviceColumnsBefore metadata sectorCount).map Prod.snd ++ [] :: [] :: rest.map Prod.snd)
    (by rw [List.append_cons]; simpa only [List.forall_mem_map] using hnames) (by simp) (by simp)
    hclean (by simp) ['\n']
  have hvalues : joinTabs ((deviceColumnsBefore metadata sectorCount ++
      ("dt".toList, ['\t']) :: rest).map Prod.snd) =
      joinTabs ([] ++ ((deviceColumnsBefore metadata sectorCount).map Prod.snd ++
        [] :: [] :: rest.map Prod.snd)) := by
    rw [List.nil_append, List.map_append, List.map_cons]
    exact joinTabs_tab (by simp [deviceColumnsBefore]) (by simp [hne])
  rw [hvalues]
  refine hfields.trans ?_
  rw [List.nil_append, List.map_append, List.zip_append (by simp), List.append_assoc]
  refine congr_arg₂ _ (List.zip_of_prod rfl rfl).symm ?_
  rfl

/-- A line feed as the media type ends the line of the values. -/
theorem tabularFields_lineFeed (hmedia : deviceMediaType options = '\n') :
    tabularFields (ewf2DeviceInformation options metadata sectorCount chunkCount) =
      deviceColumnsBefore metadata sectorCount ++ [("dt".toList, [])] := by
  have hnames := @isClean_deviceNames options metadata sectorCount chunkCount
  have hne := @rest_ne_nil options metadata chunkCount
  unfold ewf2DeviceInformation tableOf tabularText
  rw [hmedia] at hnames ⊢
  generalize deviceColumnsBehind options metadata chunkCount ++
    deviceColumnsAdded options.mediaProfile = rest at hnames hne ⊢
  have hclean : ∀ value ∈ (deviceColumnsBefore metadata sectorCount).map Prod.snd ++ [[]],
      isClean value = true := by
    intro value hvalue
    simp only [List.mem_append, List.mem_singleton, List.mem_map] at hvalue
    rcases hvalue with ⟨column, hcolumn, rfl⟩ | rfl
    · exact (isClean_before column hcolumn).2
    · rfl
  have hfields := tabularFields_of_columns
    ((deviceColumnsBefore metadata sectorCount ++ ("dt".toList, ['\n']) :: rest).map Prod.fst) []
    ((deviceColumnsBefore metadata sectorCount).map Prod.snd ++ [[]])
    (by rw [List.append_cons]; simpa only [List.forall_mem_map] using hnames) (by simp) (by simp)
    hclean (by simp) ('\t' :: (joinTabs (rest.map Prod.snd) ++ "\n\n".toList))
  have hbefore : (deviceColumnsBefore metadata sectorCount).map Prod.snd ≠ [] := by
    simp [deviceColumnsBefore]
  have hvalues : joinTabs ((deviceColumnsBefore metadata sectorCount ++
      ("dt".toList, ['\n']) :: rest).map Prod.snd) ++ "\n\n".toList =
      joinTabs ([] ++ ((deviceColumnsBefore metadata sectorCount).map Prod.snd ++ [[]])) ++
        '\n' :: '\t' :: (joinTabs (rest.map Prod.snd) ++ "\n\n".toList) := by
    have hlast : joinTabs [[]] = [] := rfl
    rw [List.nil_append, List.map_append, List.map_cons, joinTabs_append hbefore (by simp),
      joinTabs_append hbefore (by simp), joinTabs_cons (by simp [hne]), hlast]
    simp
  rw [hvalues]
  refine hfields.trans ?_
  rw [List.nil_append, List.map_append, List.zip_append (by simp)]
  refine congr_arg₂ _ (List.zip_of_prod rfl rfl).symm ?_
  simp

/-- The shifted columns: the physical flag stands under the sectors per chunk, and the sectors per
chunk under the chunks. -/
theorem foldl_visit_shifted (info : DeviceInformation) :
    (((deviceColumnsBehind options metadata chunkCount ++
        deviceColumnsAdded options.mediaProfile).map Prod.fst).zip
      ([] :: (deviceColumnsBehind options metadata chunkCount ++
        deviceColumnsAdded options.mediaProfile).map Prod.snd)).foldl
          DeviceInformation.visit info =
      { info with
        sectorsPerChunk := some (if options.format = .ewf2Physical then 1 else 0)
        chunkCount := some options.sectorsPerChunk.toNat } := by
  have hempty : ∀ info : DeviceInformation, info.visit ("bp".toList, []) = info := fun _ => rfl
  have hphysical : (if options.format = .ewf2Physical then ['1'] else ['0']) =
      Decimal.digits (if options.format = .ewf2Physical then 1 else 0) := by
    split <;> decide
  have hadded : ∀ (info : DeviceInformation) (values : List (List Char)),
      (((deviceColumnsAdded options.mediaProfile).map Prod.fst).zip values).foldl
        DeviceInformation.visit info = info := by
    intro info values
    unfold deviceColumnsAdded
    rcases values with _ | ⟨first, _ | ⟨second, values⟩⟩ <;>
    cases options.mediaProfile.errorGranularity <;> split <;>
      simp only [Option.elim_none, Option.elim_some, List.nil_append, List.append_nil,
        List.cons_append, List.map_cons, List.map_nil, List.zip_cons_cons, List.zip_nil_left,
        List.zip_nil_right, List.foldl_cons, List.foldl_nil,
        DeviceInformation.visit_other "gr".toList (fun _ => rfl),
        DeviceInformation.visit_other "wb".toList (fun _ => rfl)]
  simp only [deviceColumnsBehind, List.map_cons, List.cons_append, List.nil_append,
    List.zip_cons_cons, List.foldl_cons]
  rw [hadded, hphysical, DeviceInformation.visit_other "pid".toList (fun _ => rfl),
    DeviceInformation.visit_other "rs".toList (fun _ => rfl),
    DeviceInformation.visit_other "ls".toList (fun _ => rfl), hempty,
    DeviceInformation.visit_other "ph".toList (fun _ => rfl),
    DeviceInformation.visit_digits (by decide)
      (Nat.lt_trans options.sectorsPerChunk.toNat_lt (by decide)),
    DeviceInformation.visit_digits (by decide) (by split <;> decide)]
  rfl

theorem geometry_of_no_bytes {info : DeviceInformation} (hbytes : info.bytesPerSector = none)
    (hsectors : (product info.sectorsPerChunk info.chunkCount).getD 0 < u64Limit) :
    info.geometry = .ok (none, none) := by
  have hzero : 0 < u64Limit := by decide
  have hchunk : info.chunkSize = none := by
    unfold DeviceInformation.chunkSize
    rw [hbytes]
    rfl
  have hlogical : info.logicalSize = none := by
    unfold DeviceInformation.logicalSize
    rw [hbytes]
    rfl
  refine DeviceInformation.geometry_eq_ok.mpr ⟨⟨?_, fun _ => hsectors, ?_⟩, ?_⟩
  · rw [hchunk]
    exact hzero
  · rw [hlogical]
    exact hzero
  · rw [hchunk, hlogical]

/-- No size is declared when the media type stands between the columns. -/
theorem geometry_deviceInformation_shifted (hmedia : deviceMediaType options = '\t' ∨
      deviceMediaType options = '\n') (hsectors : sectorCount < u64Limit) :
    (DeviceInformation.parse
      (ewf2DeviceInformation options metadata sectorCount chunkCount)).geometry =
        .ok (none, none) := by
  unfold DeviceInformation.parse
  rcases hmedia with hmedia | hmedia
  · rw [tabularFields_tab hmedia, List.foldl_append, foldl_visit_front _ _ hsectors,
      foldl_visit_shifted]
    refine geometry_of_no_bytes rfl ?_
    have hword : options.sectorsPerChunk.toNat < u64Limit :=
      Nat.lt_trans options.sectorsPerChunk.toNat_lt (by decide)
    rw [getD_product]
    split
    · rw [Nat.one_mul]
      exact hword
    · rw [Nat.zero_mul]
      exact Nat.zero_lt_of_lt hword
  · rw [tabularFields_lineFeed hmedia, foldl_visit_front _ _ hsectors]
    have hzero : 0 < u64Limit := by decide
    exact geometry_of_no_bytes rfl hzero

end Device

/-! ## The record of a catalog -/

theorem extentsDataSize_lt {dataSize size : Nat} {extents : List Reading.SingleFileExtent}
    (hdata : dataSize < u64Limit) (h : extentsDataSize dataSize extents = .ok size) :
    size < u64Limit := by
  refine foldlM_invariant (I := fun size => size < u64Limit) ?_ hdata h
  intro size extent next hsize _ hnext
  by_cases hsparse : extent.sparse = true
  · rw [if_pos hsparse] at hnext
    cases hnext
    exact hsize
  · rw [if_neg hsparse] at hnext
    simp only [bind_eq_ok, okOr_eq_ok, checkedAdd_eq_some, pure_eq_ok, Except.ok.injEq] at hnext
    obtain ⟨_, ⟨hend, rfl⟩, rfl⟩ := hnext
    exact max_lt hsize hend

mutual

/-- The end of the bytes that an entry needs is an offset. -/
theorem singleFileEntryDataSize_lt {size : Nat} : (entry : CatalogEntry) →
    singleFileEntryDataSize entry = .ok size → size < u64Limit
  | .mk entrySize extents children, h => by
    rw [singleFileEntryDataSize, bind_eq_ok] at h
    obtain ⟨dataSize, hextents, hchildren⟩ := h
    exact childrenDataSize_lt children (extentsDataSize_lt (UInt64.toNat_lt _) hextents) hchildren

theorem childrenDataSize_lt {dataSize size : Nat} : (children : List CatalogEntry) →
    dataSize < u64Limit → childrenDataSize dataSize children = .ok size → size < u64Limit
  | [], hdata, h => by
    rw [childrenDataSize] at h
    cases h
    exact hdata
  | child :: children, hdata, h => by
    rw [childrenDataSize, bind_eq_ok] at h
    obtain ⟨childSize, hchild, hchildren⟩ := h
    exact childrenDataSize_lt children
      (max_lt hdata (singleFileEntryDataSize_lt child hchild)) hchildren

end

theorem splitOn_digits (n : Nat) : (Decimal.digits n).splitOn '\t' = [Decimal.digits n] := by
  have htab : ∀ digits ∈ [Decimal.digits n], '\t' ∉ digits := by
    intro digits hdigits
    rw [List.mem_singleton.mp hdigits]
    exact (isClean_iff.mp (isClean_digits n)).1
  have h := List.splitOn_intercalate '\t' htab (by simp)
  simpa using h

/-- The lines of a record are parsed as the number in it. -/
theorem parseRecordCategory_lines {size : Nat} (h : size < u64Limit) :
    Ewf1.parseRecordCategory
      ["5".toList, "rec".toList, "tb".toList, Decimal.digits size, []] 1 = .ok (some size, 5) := by
  have hvalue : Decimal.parseUnsigned u64Limit (Decimal.digits size) = some size :=
    Decimal.parseUnsigned_padded 0 h
  have hne : Decimal.digits size ≠ [] := Decimal.padded_ne_nil 0 size
  have hsplit := splitOn_digits size
  have htype : Ewf1.parseTypeLine "tb".toList "EWF2 record category types" =
      .ok ["tb".toList] := by
    decide
  have hindex : ["tb".toList].findIdx? (· = "tb".toList) = some 0 := by decide
  generalize Decimal.digits size = digits at hvalue hne hsplit ⊢
  have hfilter : (some digits).filter (· ≠ []) = some digits := by simp [hne]
  unfold Ewf1.parseRecordCategory Ewf1.requireCategoryAt Ewf1.requireEmptyCategoryTerminator
    Ewf1.getLine Ewf1.parseU64
  simp only [List.getElem?_cons_succ, List.getElem?_cons_zero, okOr_some, ok_bind, htype, hindex,
    hsplit, Option.bind_some, hfilter, hvalue, pure_eq_ok, rejectIf_neg _ (not_not.mpr rfl)]

/-- The size that the writer puts into the record comes back. -/
theorem catalogDataSize_of_record {info : SingleFilesInfo} {lines : List (List Char)}
    (h : catalogRecord info = .ok lines) :
    ∃ size, singleFilesRecordDataSize info = .ok size ∧
      Ewf1.catalogDataSize lines = .ok size := by
  obtain ⟨size, hsize, hlines⟩ := bind_eq_ok.mp h
  cases hlines
  obtain ⟨entrySize, hentry, hmax⟩ := bind_eq_ok.mp hsize
  have hlt : size < u64Limit := by
    cases hmax
    exact max_lt (UInt64.toNat_lt info.dataSize) (singleFileEntryDataSize_lt _ hentry)
  refine ⟨size, hsize, ?_⟩
  unfold Ewf1.catalogDataSize
  rw [List.head?_cons, rejectIf_neg _ (not_not.mpr rfl), ok_bind, parseRecordCategory_lines hlt]
  rfl

end EwfImage
