import EwfImage.Format.Ewf1
import EwfImage.Lib.Fallible
import EwfImage.Lib.Spans
import EwfImage.Types

/-!
# Acquisition errors

The error sections of a segment list ranges of sectors. Opening an image takes the ranges of
the first segment as they are, and merges the ranges of each later segment that lists some
into those found before.

The main result is `openAcquisitionErrors_iff`: what an opened image exposes is normalised (in
order, disjoint, with a gap between neighbours) and does not depend on the order of the sections
exactly when a later segment lists a range or the first one lists its ranges that way already.
`mergeSorted_spec` is the step behind it, and `normalizeErrors_eq` says that the writer merges
in the same way. The sections are taken as parsed; a range is a first sector and a count whose
end does not overflow, which the parser of a section checks.
-/

namespace EwfImage

open Ewf1 Fallible LittleEndian Slice Spans Word

/-! ## Error sections -/

/-- `parse_error_table_data`, with the sizes of the header, an entry and the footer. -/
def parseErrorTableData (data : Bytes) (formatVersion : Nat) (label : String) :
    Result (List AcquisitionError) := do
  let (headerSize, entrySize, footerSize, headerChecksumOffset, headerChecksumSize) ←
    (match formatVersion with
    | 1 => .ok (520, 8, 4, 516, 516)
    | 2 => .ok (32, 16, 16, 16, 16)
    | _ => .error (.malformed "unsupported error table format version"))
  rejectIf (data.length < headerSize) (.malformed s!"{label} section is too short")
  rejectIf (leAt data headerChecksumOffset 4 ≠ adler32 (data.take headerChecksumSize))
    (.malformed s!"{label} header checksum mismatch")
  let entryCount := leAt data 0 4
  if entryCount = 0 then return []
  else do
    let entriesSize ← okOr (.malformed s!"{label} entries size overflow")
      (checkedMul entryCount entrySize)
    let entriesEnd ← okOr (.malformed s!"{label} entries end overflow")
      (checkedAdd headerSize entriesSize)
    let requiredSize ← okOr (.malformed s!"{label} section size overflow")
      (checkedAdd entriesEnd footerSize)
    rejectIf (data.length < requiredSize) (.malformed s!"{label} entries exceed section size")
    rejectIf (leAt data entriesEnd 4 ≠ adler32 (slice data headerSize entriesSize))
      (.malformed s!"{label} entries checksum mismatch")
    return (List.range entryCount).map fun index =>
      let offset := headerSize + index * entrySize
      if formatVersion = 1 then ⟨leAt data offset 4, leAt data (offset + 4) 4⟩
      else ⟨leAt data offset 8, leAt data (offset + 8) 4⟩

def parseError2Data (data : Bytes) : Result (List AcquisitionError) :=
  parseErrorTableData data 1 "error2"

def parseEwf2ErrorTableData (data : Bytes) : Result (List AcquisitionError) :=
  parseErrorTableData data 2 "error table"

/-! ## Merging -/

namespace AcquisitionError

/-- The sector behind the range. -/
def stop (range : AcquisitionError) : Nat := range.firstSector + range.sectorCount

theorem first_le_stop (range : AcquisitionError) : range.firstSector ≤ range.stop :=
  Nat.le_add_right _ _

theorem eq_of_stop (a b : AcquisitionError) (hfirst : a.firstSector = b.firstSector)
    (hstop : a.stop = b.stop) : a = b := by
  obtain ⟨first, count⟩ := a
  obtain ⟨first', count'⟩ := b
  cases hfirst
  have hcount : first + count = first + count' := hstop
  rw [Nat.add_left_cancel hcount]

end AcquisitionError

def sortErrors (ranges : List AcquisitionError) : List AcquisitionError :=
  ranges.mergeSort fun left right => left.firstSector ≤ right.firstSector

/-- A turn of the merging loop: the range is joined to the last one, or put behind it. -/
def mergeRange (merged : List AcquisitionError) (range : AcquisitionError) (stop : Nat) :
    List AcquisitionError :=
  match merged.getLast? with
  | none => merged ++ [range]
  | some previous =>
    if range.firstSector ≤ previous.stop then
      merged.dropLast ++
        [{ previous with sectorCount := max stop previous.stop - previous.firstSector }]
    else merged ++ [range]

def mergeAcquisitionErrors (target source : List AcquisitionError) :
    Result (List AcquisitionError) :=
  if source = [] then .ok target
  else (sortErrors (target ++ source)).foldlM
    (fun merged range => do
      let stop ← okOr (.malformed "acquisition error range overflow")
        (checkedAdd range.firstSector range.sectorCount)
      return mergeRange merged range stop) []

/-- `normalize_errors` of the acquisition writer. -/
def normalizeErrors (errors : List AcquisitionError) (bytes sectorSize : Nat) :
    Result (List AcquisitionError) :=
  (sortErrors errors).foldlM
    (fun normalized range => do
      let stop ← okOr (.malformed "acquisition error range exceeds checkpoint")
        ((checkedAdd range.firstSector range.sectorCount).filter (· ≤ bytes / sectorSize))
      rejectIf (range.sectorCount = 0) (.malformed "empty acquisition error range")
      return mergeRange normalized range stop) []

namespace AcquisitionError

/-- The ranges are in order, and neither overlap nor touch. -/
def Normal (ranges : List AcquisitionError) : Prop := Separated firstSector stop ranges

/-- The sector lies in one of the ranges. -/
def Lists (ranges : List AcquisitionError) (sector : Nat) : Prop :=
  Covers firstSector stop ranges sector

instance : DecidablePred Normal := fun ranges =>
  inferInstanceAs (Decidable (ranges.Pairwise fun a b => stop a < firstSector b))

end AcquisitionError

open AcquisitionError

theorem sortErrors_perm (ranges : List AcquisitionError) : (sortErrors ranges).Perm ranges :=
  List.mergeSort_perm _ _

theorem pairwise_sortErrors (ranges : List AcquisitionError) :
    (sortErrors ranges).Pairwise fun a b => a.firstSector ≤ b.firstSector := by
  refine (List.pairwise_mergeSort (fun a b c hab hbc => ?_) (fun a b => ?_) ranges).imp
    fun h => by simpa using h
  · simp only [decide_eq_true_eq] at hab hbc ⊢
    omega
  · simp only [Bool.or_eq_true, decide_eq_true_eq]
    omega

section Merging

variable {merged ranges out : List AcquisitionError} {range : AcquisitionError}

/-- A range that does not start before the last one is joined to it, or put behind it. -/
theorem mergeRange_cases (hle : ∀ m ∈ merged, m.firstSector ≤ range.firstSector) :
    (∃ init previous joined, merged = init ++ [previous] ∧
      range.firstSector ≤ previous.stop ∧ joined.firstSector = previous.firstSector ∧
      joined.stop = max range.stop previous.stop ∧
      mergeRange merged range range.stop = init ++ [joined]) ∨
    ((merged = [] ∨ ∃ init previous, merged = init ++ [previous] ∧
      previous.stop < range.firstSector) ∧
      mergeRange merged range range.stop = merged ++ [range]) := by
  rcases List.eq_nil_or_concat merged with rfl | ⟨init, previous, rfl⟩
  · exact .inr ⟨.inl rfl, rfl⟩
  · rw [List.concat_eq_append] at hle ⊢
    have hbefore := hle previous (List.mem_append_right _ List.mem_cons_self)
    unfold mergeRange
    rw [List.getLast?_append_cons, List.getLast?_singleton, List.dropLast_concat]
    simp only
    by_cases htouch : range.firstSector ≤ previous.stop
    · rw [if_pos htouch]
      refine .inl ⟨init, previous, { previous with
        sectorCount := max range.stop previous.stop - previous.firstSector }, rfl, htouch, rfl, ?_,
        rfl⟩
      have hstop := previous.first_le_stop
      simp only [stop] at hstop ⊢
      omega
    · rw [if_neg htouch]
      exact .inr ⟨.inr ⟨init, previous, rfl, by omega⟩, rfl⟩

theorem normal_mergeRange (h : Normal merged)
    (hle : ∀ m ∈ merged, m.firstSector ≤ range.firstSector) :
    Normal (mergeRange merged range range.stop) := by
  rcases mergeRange_cases hle with ⟨init, previous, joined, rfl, -, hfirst, -, heq⟩ |
    ⟨rfl | ⟨init, previous, rfl, hlt⟩, heq⟩
  · rw [heq]
    exact Separated.extend h hfirst
  · rw [heq]
    exact List.pairwise_singleton _ _
  · rw [heq]
    exact Separated.snoc h hlt fun d _ => d.first_le_stop

theorem lists_mergeRange (hle : ∀ m ∈ merged, m.firstSector ≤ range.firstSector) (sector : Nat) :
    Lists (mergeRange merged range range.stop) sector ↔ Lists (merged ++ [range]) sector := by
  rcases mergeRange_cases hle with ⟨init, previous, joined, rfl, htouch, hfirst, hstop, heq⟩ |
    ⟨-, heq⟩
  · rw [heq]
    exact covers_extend hfirst hstop
      (hle previous (List.mem_append_right _ List.mem_cons_self)) htouch
  · rw [heq]

theorem reaches_mergeRange (hle : ∀ m ∈ merged, m.firstSector ≤ range.firstSector) (half : Nat) :
    Reaches firstSector stop (mergeRange merged range range.stop) half ↔
      Reaches firstSector stop (merged ++ [range]) half := by
  rcases mergeRange_cases hle with ⟨init, previous, joined, rfl, htouch, hfirst, hstop, heq⟩ |
    ⟨-, heq⟩
  · rw [heq]
    exact reaches_extend hfirst hstop
      (hle previous (List.mem_append_right _ List.mem_cons_self)) htouch
  · rw [heq]

theorem first_le_mergeRange (hle : ∀ m ∈ merged, m.firstSector ≤ range.firstSector) :
    ∀ m ∈ mergeRange merged range range.stop, m.firstSector ≤ range.firstSector := by
  intro m hm
  rcases mergeRange_cases hle with ⟨init, previous, joined, rfl, -, hfirst, -, heq⟩ | ⟨-, heq⟩
  · rw [heq] at hm
    rcases List.mem_append.mp hm with hm | hm
    · exact hle m (List.mem_append_left _ hm)
    · rw [List.mem_singleton.mp hm, hfirst]
      exact hle previous (List.mem_append_right _ List.mem_cons_self)
  · rw [heq] at hm
    rcases List.mem_append.mp hm with hm | hm
    · exact hle m hm
    · rw [List.mem_singleton.mp hm]

/-- The merging loop over ranges that are in order. -/
def mergeAll (merged ranges : List AcquisitionError) : List AcquisitionError :=
  ranges.foldl (fun merged range => mergeRange merged range range.stop) merged

theorem mergeAll_spec (hsorted : ranges.Pairwise fun a b => a.firstSector ≤ b.firstSector)
    (h : Normal merged) (hle : ∀ m ∈ merged, ∀ r ∈ ranges, m.firstSector ≤ r.firstSector) :
    Normal (mergeAll merged ranges) ∧
    (∀ sector, Lists (mergeAll merged ranges) sector ↔ Lists (merged ++ ranges) sector) ∧
    ∀ half, Reaches firstSector stop (mergeAll merged ranges) half ↔
      Reaches firstSector stop (merged ++ ranges) half := by
  induction ranges generalizing merged with
  | nil =>
    rw [List.append_nil]
    exact ⟨h, fun _ => .rfl, fun _ => .rfl⟩
  | cons range ranges ih =>
    obtain ⟨hbehind, hsorted⟩ := List.pairwise_cons.mp hsorted
    have hrange : ∀ m ∈ merged, m.firstSector ≤ range.firstSector :=
      fun m hm => hle m hm range List.mem_cons_self
    obtain ⟨hnormal, hlists, hreaches⟩ := ih hsorted (normal_mergeRange h hrange)
      fun m hm r hr => Nat.le_trans (first_le_mergeRange hrange m hm) (hbehind r hr)
    refine ⟨hnormal, fun sector => (hlists sector).trans ?_, fun half => (hreaches half).trans ?_⟩
    · rw [List.append_cons]
      unfold AcquisitionError.Lists
      rw [covers_append, covers_append]
      exact or_congr_left (lists_mergeRange hrange sector)
    · rw [List.append_cons, reaches_append, reaches_append]
      exact or_congr_left (reaches_mergeRange hrange half)

/-- A loop that only adds checks to the merging. -/
theorem foldlM_mergeRange {step : List AcquisitionError → AcquisitionError →
      Result (List AcquisitionError)}
    (hstep : ∀ merged range next, step merged range = .ok next →
      next = mergeRange merged range range.stop)
    (h : ranges.foldlM step merged = .ok out) : out = mergeAll merged ranges := by
  induction ranges generalizing merged with
  | nil => exact (Except.ok.inj h).symm
  | cons range ranges ih =>
    rw [List.foldlM_cons] at h
    obtain ⟨next, hnext, hrest⟩ := bind_eq_ok.mp h
    rw [ih hrest, hstep merged range next hnext]
    rfl

theorem mergeAcquisitionErrors_eq {target source : List AcquisitionError} (hsource : source ≠ [])
    (h : mergeAcquisitionErrors target source = .ok out) :
    out = mergeAll [] (sortErrors (target ++ source)) := by
  rw [mergeAcquisitionErrors, if_neg hsource] at h
  refine foldlM_mergeRange (fun merged range next hnext => ?_) h
  simp only [bind_eq_ok, okOr_eq_ok, checkedAdd_eq_some, pure_eq_ok, Except.ok.injEq] at hnext
  obtain ⟨_, ⟨-, rfl⟩, rfl⟩ := hnext
  rfl

/-- The writer's normalisation merges as a later segment is merged on opening. -/
theorem normalizeErrors_eq {errors : List AcquisitionError} {bytes sectorSize : Nat}
    (h : normalizeErrors errors bytes sectorSize = .ok out) :
    out = mergeAll [] (sortErrors errors) := by
  refine foldlM_mergeRange (fun merged range next hnext => ?_) h
  simp only [bind_eq_ok, okOr_eq_ok, Option.filter_eq_some_iff, checkedAdd_eq_some, pure_eq_ok,
    Except.ok.injEq] at hnext
  obtain ⟨_, ⟨⟨-, rfl⟩, -⟩, _, -, rfl⟩ := hnext
  rfl

/-- Merging ranges in any order. -/
theorem mergeSorted_spec (ranges : List AcquisitionError) :
    Normal (mergeAll [] (sortErrors ranges)) ∧
    (∀ sector, Lists (mergeAll [] (sortErrors ranges)) sector ↔ Lists ranges sector) ∧
    ∀ half, Reaches firstSector stop (mergeAll [] (sortErrors ranges)) half ↔
      Reaches firstSector stop ranges half := by
  have hnil : Normal [] := List.Pairwise.nil
  obtain ⟨hnormal, hlists, hreaches⟩ := mergeAll_spec (pairwise_sortErrors ranges) hnil
    (fun _ hmem => absurd hmem List.not_mem_nil)
  have hperm := sortErrors_perm ranges
  exact ⟨hnormal, fun sector => (hlists sector).trans (covers_congr hperm),
    fun half => (hreaches half).trans (reaches_congr hperm)⟩

end Merging

/-! ## Opening -/

/-- The payloads of the error sections of a segment, in the order of the segment, with the format
that says how they are parsed. -/
structure ErrorSections where
  format : Format
  payloads : List Bytes

def ErrorSections.parse (segment : ErrorSections) : Result (List AcquisitionError) :=
  segment.payloads.foldlM
    (fun errors data => do
      let found ← (match segment.format with
        | .ewf1 => parseError2Data data
        | .ewf2 => parseEwf2ErrorTableData data)
      return errors ++ found) []

/-- The error list that opening the segments exposes. -/
def openAcquisitionErrors : List ErrorSections → Result (List AcquisitionError)
  | [] => .error (.malformed "image has no segments")
  | first :: rest => do
    let errors ← first.parse
    rest.foldlM (fun errors segment => do
      let found ← segment.parse
      mergeAcquisitionErrors errors found) errors

section Opening

variable {errors exposed exposed' : List AcquisitionError} {segments segments' : List ErrorSections}
  {lists lists' : List (List AcquisitionError)}

/-- A later segment lists a range, or the ranges that the first segment lists are in order, and
neither overlap nor touch. -/
def Normalizes (lists : List (List AcquisitionError)) : Prop :=
  (∃ list ∈ lists.tail, list ≠ []) ∨ Normal (lists.headD [])

theorem mergeAcquisitionErrors_spec {target source out : List AcquisitionError}
    (h : mergeAcquisitionErrors target source = .ok out) :
    (∀ sector, Lists out sector ↔ Lists (target ++ source) sector) ∧
    (∀ half, Reaches firstSector stop out half ↔
      Reaches firstSector stop (target ++ source) half) ∧
    ((source = [] ∧ out = target) ∨ (source ≠ [] ∧ Normal out)) := by
  by_cases hsource : source = []
  · subst hsource
    rw [mergeAcquisitionErrors, if_pos rfl] at h
    cases h
    rw [List.append_nil]
    exact ⟨fun _ => .rfl, fun _ => .rfl, .inl ⟨rfl, rfl⟩⟩
  · rw [mergeAcquisitionErrors_eq hsource h]
    obtain ⟨hnormal, hlists, hreaches⟩ := mergeSorted_spec (target ++ source)
    exact ⟨hlists, hreaches, .inr ⟨hsource, hnormal⟩⟩

/-- The later segments, one after the other. -/
theorem foldlM_merge_spec {rest : List ErrorSections}
    (hparsed : rest.mapM ErrorSections.parse = .ok lists)
    (h : rest.foldlM (fun errors segment => do
      let found ← segment.parse
      mergeAcquisitionErrors errors found) errors = .ok exposed) :
    (∀ sector, Lists exposed sector ↔ Lists (errors ++ lists.flatten) sector) ∧
    (∀ half, Reaches firstSector stop exposed half ↔
      Reaches firstSector stop (errors ++ lists.flatten) half) ∧
    (((∀ list ∈ lists, list = []) ∧ exposed = errors) ∨
      ((∃ list ∈ lists, list ≠ []) ∧ Normal exposed)) := by
  induction rest generalizing lists errors with
  | nil =>
    rw [List.mapM_nil] at hparsed
    cases hparsed
    cases h
    rw [List.flatten_nil, List.append_nil]
    exact ⟨fun _ => .rfl, fun _ => .rfl, .inl ⟨fun _ hmem => absurd hmem List.not_mem_nil, rfl⟩⟩
  | cons segment rest ih =>
    rw [List.mapM_cons] at hparsed
    obtain ⟨list, hlist, hparsed⟩ := bind_eq_ok.mp hparsed
    obtain ⟨lists, hrest, hok⟩ := bind_eq_ok.mp hparsed
    cases hok
    rw [List.foldlM_cons] at h
    obtain ⟨merged, hmerged, h⟩ := bind_eq_ok.mp h
    rw [hlist] at hmerged
    obtain ⟨hlists, hreaches, hcases⟩ := mergeAcquisitionErrors_spec hmerged
    obtain ⟨hlists', hreaches', hcases'⟩ := ih hrest h
    rw [List.flatten_cons, ← List.append_assoc]
    refine ⟨fun sector => (hlists' sector).trans ?_, fun half => (hreaches' half).trans ?_, ?_⟩
    · unfold AcquisitionError.Lists at hlists ⊢
      rw [covers_append, covers_append, hlists]
    · rw [reaches_append, reaches_append, hreaches]
    · rcases hcases' with ⟨hempty, rfl⟩ | ⟨⟨later, hlater, hne⟩, hnormal⟩
      · rcases hcases with ⟨rfl, rfl⟩ | ⟨hne, hnormal⟩
        · exact .inl ⟨List.forall_mem_cons.mpr ⟨rfl, hempty⟩, rfl⟩
        · exact .inr ⟨⟨list, List.mem_cons_self, hne⟩, hnormal⟩
      · exact .inr ⟨⟨later, List.mem_cons_of_mem _ hlater, hne⟩, hnormal⟩

theorem openAcquisitionErrors_spec (hparsed : segments.mapM ErrorSections.parse = .ok lists)
    (h : openAcquisitionErrors segments = .ok exposed) :
    (∀ sector, Lists exposed sector ↔ Lists lists.flatten sector) ∧
    (∀ half, Reaches firstSector stop exposed half ↔
      Reaches firstSector stop lists.flatten half) ∧
    (Normal exposed ↔ Normalizes lists) := by
  cases segments with
  | nil => cases h
  | cons segment rest =>
    rw [List.mapM_cons] at hparsed
    obtain ⟨list, hlist, hparsed⟩ := bind_eq_ok.mp hparsed
    obtain ⟨later, hrest, hok⟩ := bind_eq_ok.mp hparsed
    cases hok
    obtain ⟨errors, herrors, h⟩ := bind_eq_ok.mp h
    rw [hlist] at herrors
    cases herrors
    obtain ⟨hlists, hreaches, hcases⟩ := foldlM_merge_spec hrest h
    rw [List.flatten_cons]
    refine ⟨hlists, hreaches, ?_⟩
    unfold Normalizes
    rw [List.tail_cons, List.headD_cons]
    rcases hcases with ⟨hempty, rfl⟩ | ⟨hlater, hnormal⟩
    · refine ⟨.inr, fun hnormal => hnormal.resolve_left ?_⟩
      rintro ⟨other, hother, hne⟩
      exact hne (hempty other hother)
    · exact ⟨fun _ => .inl hlater, fun _ => hnormal⟩

/-- The exposed list is normalised, in one way whatever the order of the sections, exactly when a
later segment lists a range or the first one lists its ranges that way. -/
theorem openAcquisitionErrors_iff (hparsed : segments.mapM ErrorSections.parse = .ok lists)
    (h : openAcquisitionErrors segments = .ok exposed) :
    (Normal exposed ∧ (∀ sector, Lists exposed sector ↔ Lists lists.flatten sector) ∧
      ∀ segments' lists' exposed', segments'.mapM ErrorSections.parse = .ok lists' →
        lists'.flatten.Perm lists.flatten → openAcquisitionErrors segments' = .ok exposed' →
        Normalizes lists' → exposed' = exposed) ↔
      Normalizes lists := by
  obtain ⟨hlists, hreaches, hiff⟩ := openAcquisitionErrors_spec hparsed h
  refine ⟨fun hnormal => hiff.mp hnormal.1, fun hnormal => ⟨hiff.mpr hnormal, hlists, ?_⟩⟩
  intro segments' lists' exposed' hparsed' hperm h' hnormal'
  obtain ⟨-, hreaches', hiff'⟩ := openAcquisitionErrors_spec hparsed' h'
  refine eq_of_reaches eq_of_stop (hiff'.mpr hnormal') (hiff.mpr hnormal)
    (fun d _ => d.first_le_stop) (fun d _ => d.first_le_stop) fun half => ?_
  exact (hreaches' half).trans ((reaches_congr hperm).trans (hreaches half).symm)

/-- An error table with overlapping ranges. -/
def overlappingTable : Bytes :=
  let header := toLE 4 2 ++ List.replicate 12 0
  let entries := toLE 8 10 ++ toLE 4 5 ++ toLE 4 0 ++ toLE 8 12 ++ toLE 4 10 ++ toLE 4 0
  header ++ toLE 4 (adler32 header) ++ List.replicate 12 0 ++ entries ++
    toLE 4 (adler32 entries) ++ List.replicate 12 0

def emptyTable : Bytes :=
  let header := List.replicate 16 0
  header ++ toLE 4 (adler32 header) ++ List.replicate 12 0

def overlappingRanges : List AcquisitionError := [⟨10, 5⟩, ⟨12, 10⟩]

theorem parse_overlappingTable :
    ErrorSections.parse ⟨.ewf2, [overlappingTable]⟩ = .ok overlappingRanges := by
  decide

/-- The only segment of an image lists overlapping ranges, and the image exposes them. -/
theorem open_overlappingTable :
    openAcquisitionErrors [⟨.ewf2, [overlappingTable]⟩] = .ok overlappingRanges := by
  decide

theorem openAcquisitionErrors_not_normal :
    ¬ ∀ segments exposed, openAcquisitionErrors segments = .ok exposed → Normal exposed :=
  fun h => absurd (h _ _ open_overlappingTable) (by decide)

/-- The same table in a later segment is merged. -/
def laterTable : List ErrorSections := [⟨.ewf2, [emptyTable]⟩, ⟨.ewf2, [overlappingTable]⟩]

theorem parse_emptyTable : ErrorSections.parse ⟨.ewf2, [emptyTable]⟩ = .ok [] := by
  decide

theorem open_laterTable : openAcquisitionErrors laterTable = .ok [⟨10, 12⟩] := by
  have hsorted : sortErrors overlappingRanges = overlappingRanges :=
    List.mergeSort_of_pairwise (by decide)
  have hmerged : mergeAcquisitionErrors [] overlappingRanges = .ok [⟨10, 12⟩] := by
    rw [mergeAcquisitionErrors, if_neg (by decide), List.nil_append, hsorted]
    decide
  simp only [openAcquisitionErrors, laterTable, parse_emptyTable, List.foldlM_cons,
    List.foldlM_nil, ok_bind, parse_overlappingTable, hmerged]
  rfl

theorem openAcquisitionErrors_iff_laterTable : Normal [⟨10, 12⟩] := by
  have hparsed : laterTable.mapM ErrorSections.parse = .ok [[], overlappingRanges] := by
    simp only [laterTable, List.mapM_cons, List.mapM_nil, parse_emptyTable,
      parse_overlappingTable]
    rfl
  have hnormal : Normalizes [[], overlappingRanges] :=
    .inl ⟨overlappingRanges, List.mem_cons_self, by decide⟩
  exact ((openAcquisitionErrors_iff hparsed open_laterTable).mpr hnormal).1

end Opening

end EwfImage
