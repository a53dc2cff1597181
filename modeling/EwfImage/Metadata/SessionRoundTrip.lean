import EwfImage.Lib.Tiling
import EwfImage.Metadata.Session
import EwfImage.Writer.Session
import Mathlib.Data.List.Sort

/-!
# Reading back sessions and tracks

The entries of the payload are read back as they were written. From the starts alone
the reader recovers the sessions, and it recovers the tracks when every session starts
with one of them.

The main result is `parse_sessionPayload`, about every list of sessions and tracks that the
writer accepts. Where every session starts with a track, both lists come back; tracks without a
session come back with the one session over the media that the reader implies, and a lone track
comes back as that session and no track. `not_parse_sessionPayload_of_any_ranges` has the inputs
for which this is less than what was written. The ranges are the validated ones of the writer:
in order, not empty, without overlap and inside the media.
-/

namespace EwfImage

open Fallible LittleEndian Slice Word Tiling

/-! ## Accepted ranges tile the media -/

theorem expectContiguous_tiles {label : String} {ranges : List SectorRange}
    {previousEnd start last mediaSectorCount : Nat}
    (hvalid : validateSectorRanges label mediaSectorCount previousEnd ranges = .ok ())
    (h : expectContiguous label start ranges = .ok last) :
    Tiles SectorRange.firstSector SectorRange.sectorCount start ranges last := by
  induction ranges generalizing previousEnd start with
  | nil => exact Except.ok.inj h
  | cons range ranges ih =>
    simp only [validateSectorRanges, bind_eq_ok, rejectIf_eq_ok] at hvalid
    simp only [expectContiguous, bind_eq_ok, rejectIf_eq_ok, okOr_eq_ok, checkedAdd_eq_some] at h
    obtain ⟨_, hcount, _, _, rangeEnd, _, _, _, hrest⟩ := hvalid
    obtain ⟨_, hstart, next, ⟨_, rfl⟩, hnext⟩ := h
    have hfirst : range.firstSector = start := not_not.mp hstart
    rw [← hfirst]
    exact ⟨rfl, Nat.pos_of_ne_zero hcount, ih hrest hnext⟩

theorem validateSessionRanges_tiles {label : String} {ranges : List SectorRange}
    {mediaSectorCount : Nat} (h : validateSessionRanges label ranges mediaSectorCount = .ok ())
    (hne : ranges ≠ []) :
    Tiles SectorRange.firstSector SectorRange.sectorCount 0 ranges mediaSectorCount := by
  simp only [validateSessionRanges, bind_eq_ok, if_neg hne, rejectIf_eq_ok] at h
  obtain ⟨_, hvalid, last, hcontiguous, hlast⟩ := h
  have htiles := expectContiguous_tiles hvalid hcontiguous
  rw [not_not.mp hlast] at htiles
  exact htiles

/-- The starts of accepted ranges fit the field that stores them. -/
theorem firstSector_lt_of_validateSectorRanges {label : String} {ranges : List SectorRange}
    {previousEnd mediaSectorCount : Nat}
    (h : validateSectorRanges label mediaSectorCount previousEnd ranges = .ok ()) :
    ∀ range ∈ ranges, range.firstSector < u64Limit := by
  induction ranges generalizing previousEnd with
  | nil => simp
  | cons range ranges ih =>
    simp only [validateSectorRanges, bind_eq_ok, rejectIf_eq_ok, okOr_eq_ok,
      checkedAdd_eq_some] at h
    obtain ⟨_, _, _, _, _, ⟨hlt, rfl⟩, _, _, hrest⟩ := h
    intro other hother
    rcases List.mem_cons.mp hother with rfl | hother
    · omega
    · exact ih hrest other hother

/-- The ranges from `start` that begin at each of `starts` and end at `last`. -/
def rangesBetween : Nat → List Nat → Nat → List SectorRange
  | start, [], last => [⟨start, last - start⟩]
  | start, next :: starts, last => ⟨start, next - start⟩ :: rangesBetween next starts last

/-- Ranges that tile are determined by their starts. -/
theorem rangesBetween_of_tiles {range : SectorRange} {ranges : List SectorRange} {start last : Nat}
    (h : Tiles SectorRange.firstSector SectorRange.sectorCount start (range :: ranges) last) :
    rangesBetween start (ranges.map (·.firstSector)) last = range :: ranges := by
  induction ranges generalizing range start with
  | nil =>
    obtain ⟨hstart, _, hend⟩ := h
    have hlast : start + range.sectorCount = last := hend
    simp only [rangesBetween, List.map_nil, List.cons.injEq, and_true]
    rw [← hlast, ← hstart, Nat.add_sub_cancel_left]
  | cons next ranges ih =>
    obtain ⟨hstart, _, hrest⟩ := h
    have hnext : next.firstSector = start + range.sectorCount := hrest.1
    simp only [rangesBetween, List.map_cons, List.cons.injEq]
    rw [hnext, ih hrest, ← hstart, Nat.add_sub_cancel_left]
    exact ⟨rfl, rfl⟩

theorem pairwise_of_tiles {ranges : List SectorRange} {start last : Nat}
    (h : Tiles SectorRange.firstSector SectorRange.sectorCount start ranges last) :
    (ranges.map (·.firstSector)).Pairwise (· < ·) := by
  induction ranges generalizing start with
  | nil => simp
  | cons range ranges ih =>
    obtain ⟨hstart, hpos, hrest⟩ := h
    rw [List.map_cons, List.pairwise_cons]
    refine ⟨?_, ih hrest⟩
    intro other hother
    obtain ⟨found, hfound, rfl⟩ := List.mem_map.mp hother
    have hbounds := hrest.bounds hfound
    omega

/-! ## The entries in order -/

theorem isAudio_sessionEntry (range : SectorRange) : (sessionEntry range).isAudio = false := by
  simp [SessionEntry.isAudio, sessionEntry]

theorem isAudio_trackEntry (range : SectorRange) : (trackEntry range).isAudio = true := by
  simp [SessionEntry.isAudio, trackEntry, audioTrackFlag]

section Order

variable {sessions tracks : List SectorRange}

theorem sessionEntries_perm (sessions tracks : List SectorRange) :
    (sessionEntries sessions tracks).Perm
      (sessions.map sessionEntry ++ tracks.map trackEntry) :=
  List.mergeSort_perm _ _

theorem mem_sessionEntries {entry : SessionEntry} :
    entry ∈ sessionEntries sessions tracks ↔
      (∃ range ∈ sessions, sessionEntry range = entry) ∨
        ∃ range ∈ tracks, trackEntry range = entry := by
  rw [(sessionEntries_perm sessions tracks).mem_iff, List.mem_append, List.mem_map, List.mem_map]

theorem sessionEntryLe_iff {left right : SessionEntry} :
    sessionEntryLe left right = true ↔ left.startSector < right.startSector ∨
      left.startSector = right.startSector ∧
        left.flags &&& audioTrackFlag ≤ right.flags &&& audioTrackFlag := by
  simp [sessionEntryLe]

theorem sessionEntries_pairwise (sessions tracks : List SectorRange) :
    (sessionEntries sessions tracks).Pairwise fun left right => sessionEntryLe left right := by
  refine List.pairwise_mergeSort ?_ ?_ _
  · intro a b c hab hbc
    rw [sessionEntryLe_iff] at *
    omega
  · intro a b
    rw [Bool.or_eq_true, sessionEntryLe_iff, sessionEntryLe_iff]
    omega

/-- The starts of the entries of one kind. -/
def startsOf (audio : Bool) (entries : List SessionEntry) : List Nat :=
  (entries.filter (·.isAudio = audio)).map (·.startSector)

theorem startsOf_pairwise (audio : Bool) (sessions tracks : List SectorRange) :
    (startsOf audio (sessionEntries sessions tracks)).Pairwise (· ≤ ·) := by
  rw [startsOf, List.pairwise_map]
  refine ((sessionEntries_pairwise sessions tracks).filter _).imp ?_
  intro left right hle
  rw [sessionEntryLe_iff] at hle
  omega

theorem startsOf_perm (audio : Bool) (sessions tracks : List SectorRange) :
    (startsOf audio (sessionEntries sessions tracks)).Perm
      ((if audio then tracks else sessions).map (·.firstSector)) := by
  have hperm := ((sessionEntries_perm sessions tracks).filter (·.isAudio = audio)).map
    (·.startSector)
  refine hperm.trans ?_
  rw [List.filter_append, List.filter_map, List.filter_map]
  cases audio with
  | false =>
    have hsessions : sessions.filter ((fun entry => decide (entry.isAudio = false)) ∘ sessionEntry) =
        sessions := by
      simp [Function.comp_def, isAudio_sessionEntry]
    have htracks : tracks.filter ((fun entry => decide (entry.isAudio = false)) ∘ trackEntry) =
        [] := by
      simp [Function.comp_def, isAudio_trackEntry]
    rw [hsessions, htracks]
    simp [Function.comp_def, sessionEntry]
  | true =>
    have hsessions : sessions.filter ((fun entry => decide (entry.isAudio = true)) ∘ sessionEntry) =
        [] := by
      simp [Function.comp_def, isAudio_sessionEntry]
    have htracks : tracks.filter ((fun entry => decide (entry.isAudio = true)) ∘ trackEntry) =
        tracks := by
      simp [Function.comp_def, isAudio_trackEntry]
    rw [hsessions, htracks]
    simp [Function.comp_def, trackEntry]

/-- The starts of one kind are found in order. -/
theorem startsOf_sessionEntries (audio : Bool) (sessions tracks : List SectorRange)
    (h : ((if audio then tracks else sessions).map (·.firstSector)).Pairwise (· < ·)) :
    startsOf audio (sessionEntries sessions tracks) =
      (if audio then tracks else sessions).map (·.firstSector) :=
  (startsOf_perm audio sessions tracks).eq_of_pairwise (fun _ _ _ _ hab hba => Nat.le_antisymm hab hba)
    (startsOf_pairwise audio sessions tracks) (h.imp Nat.le_of_lt)

end Order

/-! ## Scanning the entries -/

/-- Every session entry has a track entry with the same start behind it. -/
inductive Paired : List SessionEntry → Prop
  | nil : Paired []
  | track {entry : SessionEntry} {entries : List SessionEntry} (haudio : entry.isAudio = true)
      (hrest : Paired entries) : Paired (entry :: entries)
  | session {entry track : SessionEntry} {entries : List SessionEntry}
      (hsession : entry.isAudio = false) (htrack : track.isAudio = true)
      (hstart : track.startSector = entry.startSector) (hrest : Paired entries) :
      Paired (entry :: track :: entries)

/-- The order of distinct entries: by start, a session ahead of a track. -/
def Precedes (left right : SessionEntry) : Prop :=
  left.startSector < right.startSector ∨
    left.startSector = right.startSector ∧ left.isAudio = false ∧ right.isAudio = true

theorem Paired.of_precedes {entries : List SessionEntry} (hsorted : entries.Pairwise Precedes)
    (haligned : ∀ entry ∈ entries, entry.isAudio = false →
      ∃ track ∈ entries, track.isAudio = true ∧ track.startSector = entry.startSector) :
    Paired entries := by
  -- A track ahead of a session does not start with it.
  have hlater : ∀ {first : SessionEntry} {rest : List SessionEntry},
      (first :: rest).Pairwise Precedes → first.isAudio = true →
      ∀ entry ∈ rest, first.startSector ≠ entry.startSector := by
    intro first rest hpairwise hfirst entry hentry heq
    rcases (List.pairwise_cons.mp hpairwise).1 entry hentry with hlt | ⟨_, hsession, _⟩
    · omega
    · rw [hfirst] at hsession
      cases hsession
  match entries with
  | [] => exact .nil
  | entry :: rest =>
    have htail := (List.pairwise_cons.mp hsorted).2
    cases haudio : entry.isAudio with
    | true =>
      refine .track haudio (.of_precedes htail ?_)
      intro other hother hsession
      obtain ⟨track, htrack, htrackAudio, hstart⟩ :=
        haligned other (List.mem_cons_of_mem _ hother) hsession
      rcases List.mem_cons.mp htrack with rfl | htrack
      · exact absurd hstart (hlater hsorted haudio other hother)
      · exact ⟨track, htrack, htrackAudio, hstart⟩
    | false =>
      obtain ⟨track, htrack, htrackAudio, hstart⟩ := haligned entry List.mem_cons_self haudio
      have hrest : track ∈ rest := by
        rcases List.mem_cons.mp htrack with rfl | htrack
        · rw [haudio] at htrackAudio
          cases htrackAudio
        · exact htrack
      match rest with
      | [] => cases hrest
      | next :: others =>
        have hnext := (List.pairwise_cons.mp hsorted).1 next List.mem_cons_self
        have hle : next.startSector ≤ track.startSector := by
          rcases List.mem_cons.mp hrest with rfl | hmem
          · exact Nat.le_refl _
          · rcases (List.pairwise_cons.mp htail).1 track hmem with hlt | ⟨heq, _⟩
            · omega
            · omega
        rcases hnext with hlt | ⟨heq, _, hnextAudio⟩
        · omega
        · refine .session haudio hnextAudio heq.symm
            (.of_precedes (List.pairwise_cons.mp htail).2 ?_)
          intro other hother hsession
          obtain ⟨found, hfound, hfoundAudio, hfoundStart⟩ := haligned other
            (List.mem_cons_of_mem _ (List.mem_cons_of_mem _ hother)) hsession
          rcases List.mem_cons.mp hfound with rfl | hfound
          · rw [haudio] at hfoundAudio
            cases hfoundAudio
          · rcases List.mem_cons.mp hfound with rfl | hfound
            · exact absurd hfoundStart (hlater htail hnextAudio other hother)
            · exact ⟨found, hfound, hfoundAudio, hfoundStart⟩

/-- Entries of ranges with distinct starts are in this order. -/
theorem precedes_sessionEntries {sessions tracks : List SectorRange}
    (hsessions : (sessions.map (·.firstSector)).Pairwise (· < ·))
    (htracks : (tracks.map (·.firstSector)).Pairwise (· < ·)) :
    (sessionEntries sessions tracks).Pairwise Precedes := by
  have hnodup : (sessionEntries sessions tracks).Nodup := by
    rw [(sessionEntries_perm sessions tracks).nodup_iff, List.nodup_append]
    refine ⟨?_, ?_, ?_⟩
    · rw [List.Nodup, List.pairwise_map]
      refine (List.pairwise_map.mp hsessions).imp ?_
      intro left right hlt heq
      have hstart : left.firstSector = right.firstSector := congrArg (·.startSector) heq
      omega
    · rw [List.Nodup, List.pairwise_map]
      refine (List.pairwise_map.mp htracks).imp ?_
      intro left right hlt heq
      have hstart : left.firstSector = right.firstSector := congrArg (·.startSector) heq
      omega
    · intro left hleft right hright heq
      obtain ⟨_, _, rfl⟩ := List.mem_map.mp hleft
      obtain ⟨_, _, rfl⟩ := List.mem_map.mp hright
      have hflags : 0 = audioTrackFlag := congrArg (·.flags) heq
      exact absurd hflags (by decide)
  refine ((sessionEntries_pairwise sessions tracks).and hnodup).imp_of_mem ?_
  rintro left right hleft hright ⟨hle, hne⟩
  rw [sessionEntryLe_iff] at hle
  rcases hle with hlt | ⟨hstart, hflags⟩
  · exact .inl hlt
  · refine .inr ⟨hstart, ?_⟩
    rcases mem_sessionEntries.mp hleft with ⟨_, _, rfl⟩ | ⟨_, _, rfl⟩ <;>
      rcases mem_sessionEntries.mp hright with ⟨_, _, rfl⟩ | ⟨_, _, rfl⟩
    · exact absurd (congrArg (SessionEntry.mk · 0) hstart) hne
    · exact ⟨isAudio_sessionEntry _, isAudio_trackEntry _⟩
    · exact absurd hflags (by simp [sessionEntry, trackEntry, audioTrackFlag])
    · exact absurd (congrArg (SessionEntry.mk · audioTrackFlag) hstart) hne

section Scan

variable {entries : List SessionEntry} {scan scan' : SessionScan}

theorem scanSessionEntries_cons {entry : SessionEntry}
    (h : scanSessionEntries scan (entry :: entries) = .ok scan') :
    scanSessionEntries (scan.step entry) entries = .ok scan' := by
  obtain ⟨_, _, hrest⟩ := bind_eq_ok.mp h
  exact hrest

theorem exists_scanSessionEntries (scan : SessionScan)
    (hsorted : entries.Pairwise (·.startSector ≤ ·.startSector))
    (hfirst : ∀ entry ∈ entries, scan.previousStartSector ≤ entry.startSector) :
    ∃ scan', scanSessionEntries scan entries = .ok scan' := by
  induction entries generalizing scan with
  | nil => exact ⟨scan, rfl⟩
  | cons entry entries ih =>
    rw [List.pairwise_cons] at hsorted
    have hle := hfirst entry List.mem_cons_self
    obtain ⟨scan', hrest⟩ := ih (scan.step entry) hsorted.2 hsorted.1
    refine ⟨scan', ?_⟩
    rw [scanSessionEntries, rejectIf_neg _ (by omega), ok_bind, hrest]

/-- The sessions are cut at the session entries. -/
theorem sessions_of_scan (mediaSectorCount : Nat)
    (h : scanSessionEntries scan entries = .ok scan') :
    (scan'.finish mediaSectorCount).sessions = scan.ranges.sessions ++
      rangesBetween scan.sessionStartSector (startsOf false entries) mediaSectorCount := by
  induction entries generalizing scan with
  | nil =>
    cases h
    rfl
  | cons entry entries ih =>
    rw [ih (scanSessionEntries_cons h)]
    cases haudio : entry.isAudio with
    | false => simp [SessionScan.step, startsOf, haudio, rangesBetween]
    | true => simp [SessionScan.step, startsOf, haudio]

/-- Between a track entry and the end, the tracks are cut at the track entries. -/
theorem tracks_of_scan (mediaSectorCount : Nat) (hpaired : Paired entries)
    (hprevious : scan.previousIsAudio = true)
    (hcurrent : scan.currentIsAudio = true ∨ entries ≠ [])
    (h : scanSessionEntries scan entries = .ok scan') :
    (scan'.finish mediaSectorCount).tracks = scan.ranges.tracks ++
      rangesBetween scan.trackStartSector (startsOf true entries) mediaSectorCount := by
  induction hpaired generalizing scan with
  | nil =>
    cases h
    have hopen : scan'.currentIsAudio = true := by simpa using hcurrent
    simp [SessionScan.finish, hopen, startsOf, rangesBetween]
  | @track entry entries haudio _ ih =>
    rw [ih (by exact haudio) (.inl haudio) (scanSessionEntries_cons h)]
    simp [SessionScan.step, hprevious, startsOf, haudio, rangesBetween]
  | @session entry track entries hsession htrack hstart _ ih =>
    rw [ih (by exact htrack) (.inl htrack) (scanSessionEntries_cons (scanSessionEntries_cons h))]
    simp [SessionScan.step, hprevious, startsOf, hsession, htrack, hstart, rangesBetween]

/-- Without track entries there are no tracks. -/
theorem tracks_of_scan_of_no_audio (mediaSectorCount : Nat)
    (hentries : ∀ entry ∈ entries, entry.isAudio = false) (hprevious : scan.previousIsAudio = false)
    (hcurrent : scan.currentIsAudio = false) (h : scanSessionEntries scan entries = .ok scan') :
    (scan'.finish mediaSectorCount).tracks = scan.ranges.tracks := by
  induction entries generalizing scan with
  | nil =>
    cases h
    simp [SessionScan.finish, hcurrent]
  | cons entry entries ih =>
    have hentry := hentries entry List.mem_cons_self
    rw [ih (fun other hother => hentries other (List.mem_cons_of_mem _ hother)) hentry hentry
      (scanSessionEntries_cons h)]
    simp [SessionScan.step, hprevious]

end Scan

/-! ## The payload -/

theorem length_sessionEntryBytes {formatVersion : UInt8} {entry : SessionEntry} {bytes : Bytes}
    (h : sessionEntryBytes formatVersion entry = .ok bytes) : bytes.length = sessionEntrySize := by
  unfold sessionEntryBytes at h
  split at h
  · simp only [bind_eq_ok, pure_eq_ok, Except.ok.injEq] at h
    obtain ⟨_, _, rfl⟩ := h
    simp [sessionEntrySize]
  · cases h
    simp [sessionEntrySize]

theorem readSessionEntry_of_bytes {formatVersion : UInt8} {entry : SessionEntry}
    {pre bytes post : Bytes} (h : sessionEntryBytes formatVersion entry = .ok bytes)
    (hstart : entry.startSector < u64Limit) (hflags : entry.flags < u32Limit) :
    readSessionEntry formatVersion (pre ++ (bytes ++ post)) pre.length = entry := by
  have hfield : ∀ offset width, leAt (pre ++ (bytes ++ post)) (pre.length + offset) width =
      leAt (bytes ++ post) offset width := by
    intro offset width
    rw [leAt, slice_append_right (by omega), Nat.add_sub_cancel_left, leAt]
  have hstart' : entry.startSector < 256 ^ 8 := by simpa [u64Limit] using hstart
  have hflags' : entry.flags < 256 ^ 4 := by simpa [u32Limit] using hflags
  unfold sessionEntryBytes at h
  unfold readSessionEntry
  split at h
  · rename_i hversion
    simp only [bind_eq_ok, rejectIf_eq_ok, pure_eq_ok, Except.ok.injEq] at h
    obtain ⟨_, hnarrow, rfl⟩ := h
    have hnarrow' : entry.startSector < 256 ^ 4 := by
      simpa [u32Limit] using Nat.lt_of_not_le hnarrow
    have hfirst := hfield 0 4
    rw [Nat.add_zero] at hfirst
    rw [if_pos hversion, hfield, hfirst]
    simp only [List.append_assoc]
    rw [leAt_toLE_skip _ (by omega), Nat.sub_self, leAt_toLE _ hnarrow', leAt_toLE _ hflags']
  · rename_i hversion
    cases h
    have hfirst := hfield 0 8
    rw [Nat.add_zero] at hfirst
    rw [if_neg hversion, hfield, hfirst]
    simp only [List.append_assoc]
    rw [leAt_toLE _ hstart', leAt_toLE_skip _ (by omega), Nat.sub_self, leAt_toLE _ hflags']

theorem length_sessionEntriesBytes {formatVersion : UInt8} {entries : List SessionEntry}
    {bytes : Bytes} (h : sessionEntriesBytes formatVersion entries = .ok bytes) :
    bytes.length = entries.length * sessionEntrySize := by
  induction entries generalizing bytes with
  | nil =>
    cases h
    rfl
  | cons entry entries ih =>
    simp only [sessionEntriesBytes, bind_eq_ok, pure_eq_ok, Except.ok.injEq] at h
    obtain ⟨first, hfirst, rest, hrest, rfl⟩ := h
    rw [List.length_append, length_sessionEntryBytes hfirst, ih hrest, List.length_cons,
      Nat.succ_mul, Nat.add_comm]

theorem readSessionEntries_of_bytes {formatVersion : UInt8} {entries : List SessionEntry}
    {bytes : Bytes} (pre post : Bytes) (h : sessionEntriesBytes formatVersion entries = .ok bytes)
    (hfit : ∀ entry ∈ entries, entry.startSector < u64Limit ∧ entry.flags < u32Limit) :
    readSessionEntries formatVersion (pre ++ (bytes ++ post)) entries.length pre.length =
      entries := by
  induction entries generalizing pre bytes with
  | nil => rfl
  | cons entry entries ih =>
    simp only [sessionEntriesBytes, bind_eq_ok, pure_eq_ok, Except.ok.injEq] at h
    obtain ⟨first, hfirst, rest, hrest, rfl⟩ := h
    obtain ⟨hstart, hflags⟩ := hfit entry List.mem_cons_self
    have hothers := ih (pre ++ first) hrest
      (fun other hother => hfit other (List.mem_cons_of_mem _ hother))
    rw [List.length_append, length_sessionEntryBytes hfirst, List.append_assoc] at hothers
    rw [List.length_cons, readSessionEntries, List.append_assoc,
      readSessionEntry_of_bytes hfirst hstart hflags, hothers]

theorem sessionLayout_spec {formatVersion : UInt8} {layout : SessionLayout}
    (h : sessionLayout formatVersion = some layout) :
    layout.checksumDataSize = layout.checksumOffset ∧ 4 ≤ layout.checksumOffset ∧
      layout.checksumOffset + 4 ≤ layout.headerSize ∧ layout.headerSize ≤ 36 ∧
      4 ≤ layout.footerSize ∧ layout.footerSize ≤ 16 := by
  unfold sessionLayout at h
  split at h
  · cases h
    decide
  · split at h
    · cases h
      decide
    · cases h

theorem length_sessionHeader {layout : SessionLayout} (entryCount : Nat)
    (hchecksum : 4 ≤ layout.checksumOffset)
    (hheader : layout.checksumOffset + 4 ≤ layout.headerSize) :
    (sessionHeader layout entryCount).length = layout.headerSize := by
  simp only [sessionHeader, sessionHeaderBody, List.length_append, length_toLE,
    List.length_replicate]
  omega

/-- The count and the checksum in a header, with anything behind it. -/
theorem sessionHeader_fields {layout : SessionLayout} {entryCount : Nat} (rest : Bytes)
    (hsize : layout.checksumDataSize = layout.checksumOffset) (hchecksum : 4 ≤ layout.checksumOffset)
    (hcount : entryCount < u32Limit) :
    leAt (sessionHeader layout entryCount ++ rest) 0 4 = entryCount ∧
      leAt (sessionHeader layout entryCount ++ rest) layout.checksumOffset 4 =
        adler32 ((sessionHeader layout entryCount ++ rest).take layout.checksumDataSize) := by
  have hcount' : entryCount < 256 ^ 4 := by simpa [u32Limit] using hcount
  have hbody : (sessionHeaderBody layout entryCount).length = layout.checksumOffset := by
    simp only [sessionHeaderBody, List.length_append, length_toLE, List.length_replicate]
    omega
  have htake : (sessionHeader layout entryCount ++ rest).take layout.checksumDataSize =
      sessionHeaderBody layout entryCount := by
    rw [hsize, ← hbody, sessionHeader]
    simp only [List.append_assoc]
    exact List.take_left
  constructor
  · simp only [sessionHeader, sessionHeaderBody, List.append_assoc]
    exact leAt_toLE _ hcount'
  · have hall : (sessionHeaderBody layout entryCount).take layout.checksumDataSize =
        sessionHeaderBody layout entryCount :=
      List.take_of_length_le (by omega)
    rw [htake, sessionHeader, hall]
    have hmiddle := slice_append_middle (sessionHeaderBody layout entryCount)
      (toLE 4 (adler32 (sessionHeaderBody layout entryCount)))
      (List.replicate (layout.headerSize - (layout.checksumOffset + 4)) 0 ++ rest)
    rw [hbody, length_toLE, ← List.append_assoc] at hmiddle
    rw [leAt, hmiddle, fromLE_toLE_of_lt (adler32_lt _)]

/-- The reader gets to the entries that the payload was written for. -/
theorem parseSessionData_of_sessionPayload {formatVersion : UInt8}
    {sessions tracks : List SectorRange} {payload : Bytes} (mediaSectorCount : Nat)
    (hpayload : sessionPayload formatVersion sessions tracks = .ok (some payload))
    (hfit : ∀ entry ∈ sessionEntries sessions tracks,
      entry.startSector < u64Limit ∧ entry.flags < u32Limit) :
    parseSessionData payload formatVersion mediaSectorCount =
      sessionRanges (sessionEntries sessions tracks) mediaSectorCount := by
  unfold sessionPayload at hpayload
  split at hpayload
  · cases hpayload
  · rename_i hsome
    simp only [bind_eq_ok, rejectIf_eq_ok, okOr_eq_ok, pure_eq_ok, Except.ok.injEq,
      Option.some.injEq] at hpayload
    obtain ⟨_, hcount, layout, hlayout, bytes, hbytes, rfl⟩ := hpayload
    have hentries : (sessionEntries sessions tracks).length ≠ 0 := by
      rw [(sessionEntries_perm sessions tracks).length_eq, List.length_append, List.length_map,
        List.length_map]
      intro hzero
      exact hsome ⟨List.length_eq_zero_iff.mp (by omega), List.length_eq_zero_iff.mp (by omega)⟩
    generalize sessionEntries sessions tracks = entries at *
    obtain ⟨hsize, hchecksum, hheaderEnd, hheaderMax, hfooter, hfooterMax⟩ :=
      sessionLayout_spec hlayout
    have hheader := length_sessionHeader entries.length hchecksum hheaderEnd
    have hlength := length_sessionEntriesBytes hbytes
    have hlimits : u32Limit * sessionEntrySize + 52 < u64Limit := by decide
    have hmul : entries.length * sessionEntrySize ≤ u32Limit * sessionEntrySize :=
      Nat.mul_le_mul_right _ (by omega)
    generalize hrest : bytes ++ (toLE 4 (adler32 bytes) ++ List.replicate (layout.footerSize - 4) 0) =
      rest
    have hdata : sessionHeader layout entries.length ++ bytes ++ toLE 4 (adler32 bytes) ++
        List.replicate (layout.footerSize - 4) 0 = sessionHeader layout entries.length ++ rest := by
      rw [← hrest]
      simp only [List.append_assoc]
    have htotal : (sessionHeader layout entries.length ++ rest).length =
        layout.headerSize + (bytes.length + layout.footerSize) := by
      rw [← hrest]
      simp only [List.length_append, hheader, length_toLE, List.length_replicate]
      omega
    obtain ⟨hcountField, hchecksumField⟩ :=
      sessionHeader_fields rest hsize hchecksum (Nat.lt_of_not_le hcount)
    have hstored : slice (sessionHeader layout entries.length ++ rest) layout.headerSize
        bytes.length = bytes := by
      have hmiddle := slice_append_middle (sessionHeader layout entries.length) bytes
        (toLE 4 (adler32 bytes) ++ List.replicate (layout.footerSize - 4) 0)
      rw [hheader, List.append_assoc, hrest] at hmiddle
      exact hmiddle
    have hsum : leAt (sessionHeader layout entries.length ++ rest)
        (layout.headerSize + bytes.length) 4 = adler32 bytes := by
      have hmiddle := slice_append_middle (sessionHeader layout entries.length ++ bytes)
        (toLE 4 (adler32 bytes)) (List.replicate (layout.footerSize - 4) 0)
      rw [List.length_append, hheader, length_toLE, hdata] at hmiddle
      rw [leAt, hmiddle, fromLE_toLE_of_lt (adler32_lt _)]
    have hread := readSessionEntries_of_bytes (sessionHeader layout entries.length)
      (toLE 4 (adler32 bytes) ++ List.replicate (layout.footerSize - 4) 0) hbytes hfit
    rw [hrest, hheader] at hread
    rw [hdata]
    unfold parseSessionData
    rw [hlayout, okOr_some, ok_bind, rejectIf_neg _ (by omega), ok_bind,
      rejectIf_neg _ (not_not.mpr hchecksumField), ok_bind]
    dsimp only
    rw [hcountField, if_neg hentries, checkedMul_of_lt (by omega), okOr_some, ok_bind,
      checkedAdd_of_lt (by omega), okOr_some, ok_bind, checkedAdd_of_lt (by omega), okOr_some,
      ok_bind, rejectIf_neg _ (by omega), ok_bind, ← hlength,
      rejectIf_neg _ (by rw [hstored, hsum]; exact not_not.mpr rfl), ok_bind, hread]

/-! ## The round trip -/

theorem validated_starts {label : String} {ranges : List SectorRange} {mediaSectorCount : Nat}
    (h : validateSessionRanges label ranges mediaSectorCount = .ok ()) :
    (ranges.map (·.firstSector)).Pairwise (· < ·) ∧ ∀ range ∈ ranges, range.firstSector < u64Limit := by
  constructor
  · by_cases hne : ranges = []
    · rw [hne]
      exact .nil
    · exact pairwise_of_tiles (validateSessionRanges_tiles h hne)
  · obtain ⟨_, hvalid, _⟩ := bind_eq_ok.mp h
    exact firstSector_lt_of_validateSectorRanges hvalid

/-- The entries of ranges that are in the media fit into the fields of a payload. -/
theorem fit_sessionEntries {sessions tracks : List SectorRange}
    (hsessions : ∀ range ∈ sessions, range.firstSector < u64Limit)
    (htracks : ∀ range ∈ tracks, range.firstSector < u64Limit) :
    ∀ entry ∈ sessionEntries sessions tracks,
      entry.startSector < u64Limit ∧ entry.flags < u32Limit := by
  intro entry hentry
  rcases mem_sessionEntries.mp hentry with ⟨range, hrange, rfl⟩ | ⟨range, hrange, rfl⟩
  · exact ⟨hsessions range hrange, (by decide : 0 < u32Limit)⟩
  · exact ⟨htracks range hrange, (by decide : audioTrackFlag < u32Limit)⟩

/-- Entries in order are scanned to the end. -/
theorem exists_scan_of_precedes {first : SessionEntry} {rest : List SessionEntry}
    (hsorted : (first :: rest).Pairwise Precedes) :
    ∃ scan, scanSessionEntries
      { previousStartSector := first.startSector, previousIsAudio := first.isAudio } rest =
        .ok scan := by
  obtain ⟨hbefore, htail⟩ := List.pairwise_cons.mp hsorted
  have hle : ∀ {left right : SessionEntry}, Precedes left right →
      left.startSector ≤ right.startSector := by
    rintro left right (hlt | ⟨heq, _⟩) <;> omega
  exact exists_scanSessionEntries _ (htail.imp hle) fun entry hentry => hle (hbefore entry hentry)

/-- The ranges are cut at the starts behind the first one, which is at sector 0. -/
theorem rangesBetween_validated {label : String} {ranges : List SectorRange} {mediaSectorCount : Nat}
    {starts : List Nat} (h : validateSessionRanges label ranges mediaSectorCount = .ok ())
    (hstarts : ranges.map (·.firstSector) = 0 :: starts) :
    rangesBetween 0 starts mediaSectorCount = ranges := by
  match ranges with
  | [] => cases hstarts
  | range :: ranges =>
    have htiles := validateSessionRanges_tiles h (List.cons_ne_nil _ _)
    rw [List.map_cons, List.cons.injEq] at hstarts
    rw [← hstarts.2]
    exact rangesBetween_of_tiles htiles

theorem starts_of_validated {label : String} {ranges : List SectorRange} {mediaSectorCount : Nat}
    (h : validateSessionRanges label ranges mediaSectorCount = .ok ()) (hne : ranges ≠ []) :
    ∃ starts, ranges.map (·.firstSector) = 0 :: starts := by
  match ranges with
  | [] => exact absurd rfl hne
  | range :: ranges =>
    have htiles := validateSessionRanges_tiles h hne
    exact ⟨ranges.map (·.firstSector), by rw [List.map_cons, htiles.1]⟩

theorem startsOf_cons (audio : Bool) (entry : SessionEntry) (entries : List SessionEntry) :
    startsOf audio (entry :: entries) = if entry.isAudio = audio
      then entry.startSector :: startsOf audio entries else startsOf audio entries := by
  unfold startsOf
  by_cases haudio : entry.isAudio = audio
  · rw [if_pos haudio, List.filter_cons_of_pos (by simpa using haudio), List.map_cons]
  · rw [if_neg haudio, List.filter_cons_of_neg (by simpa using haudio)]

/-- The sessions of entries in order, with none stored standing for one session. -/
theorem finish_sessions {first : SessionEntry} {rest : List SessionEntry} {scan : SessionScan}
    {starts : List Nat} (mediaSectorCount : Nat) (hsorted : (first :: rest).Pairwise Precedes)
    (hscan : scanSessionEntries
      { previousStartSector := first.startSector, previousIsAudio := first.isAudio } rest = .ok scan)
    (hstarts : startsOf false (first :: rest) = 0 :: starts ∨
      startsOf false (first :: rest) = [] ∧ starts = []) :
    (scan.finish mediaSectorCount).sessions = rangesBetween 0 starts mediaSectorCount := by
  have hrest : startsOf false rest = starts := by
    rw [startsOf_cons] at hstarts
    rcases hstarts with hstarts | ⟨hstarts, rfl⟩
    · by_cases hfirst : first.isAudio = false
      · rw [if_pos hfirst, List.cons.injEq] at hstarts
        exact hstarts.2
      · rw [if_neg hfirst] at hstarts
        have hzero : 0 ∈ startsOf false rest := by
          rw [hstarts]
          exact List.mem_cons_self
        obtain ⟨entry, hentry, hstart⟩ := List.mem_map.mp hzero
        have hmem := (List.mem_filter.mp hentry).1
        rcases (List.pairwise_cons.mp hsorted).1 entry hmem with hlt | ⟨_, hsession, _⟩
        · omega
        · exact absurd hsession hfirst
    · by_cases hfirst : first.isAudio = false
      · rw [if_pos hfirst] at hstarts
        cases hstarts
      · rw [if_neg hfirst] at hstarts
        exact hstarts
  rw [sessions_of_scan mediaSectorCount hscan, hrest]
  rfl

theorem finish_tracks {first : SessionEntry} {rest : List SessionEntry} {scan : SessionScan}
    {starts : List Nat} (mediaSectorCount : Nat) (hpaired : Paired (first :: rest))
    (hscan : scanSessionEntries
      { previousStartSector := first.startSector, previousIsAudio := first.isAudio } rest = .ok scan)
    (hstarts : startsOf true (first :: rest) = 0 :: starts)
    (hmany : first.isAudio = true → rest ≠ []) :
    (scan.finish mediaSectorCount).tracks = rangesBetween 0 starts mediaSectorCount := by
  cases hpaired with
  | track haudio hrest =>
    rw [startsOf_cons, if_pos haudio, List.cons.injEq] at hstarts
    rw [tracks_of_scan mediaSectorCount hrest haudio (.inr (hmany haudio)) hscan, hstarts.2]
    rfl
  | @session _ track entries hsession htrack hstart hrest =>
    rw [startsOf_cons, if_neg (by simp [hsession]), startsOf_cons, if_pos htrack,
      List.cons.injEq] at hstarts
    rw [tracks_of_scan mediaSectorCount hrest (by exact htrack) (.inl htrack)
      (scanSessionEntries_cons hscan), hstarts.2]
    simp [SessionScan.step, hsession]

/-- Sessions and tracks are read back as they were written when every session starts with a
track. Tracks alone come back with one session over the media, and a track on its own comes back
as this session only. -/
theorem parse_sessionPayload {formatVersion : UInt8} {sessions tracks : List SectorRange}
    {mediaSectorCount : Nat} {payload : Bytes}
    (hsessions : validateSessionRanges "sessions" sessions mediaSectorCount = .ok ())
    (htracks : validateSessionRanges "tracks" tracks mediaSectorCount = .ok ())
    (hpayload : sessionPayload formatVersion sessions tracks = .ok (some payload))
    (haligned : tracks = [] ∨
      ∀ session ∈ sessions, ∃ track ∈ tracks, track.firstSector = session.firstSector) :
    parseSessionData payload formatVersion mediaSectorCount =
      .ok ⟨if sessions = [] then [⟨0, mediaSectorCount⟩] else sessions,
        if sessions = [] ∧ tracks.length = 1 then [] else tracks⟩ := by
  obtain ⟨hsessionStarts, hsessionFit⟩ := validated_starts hsessions
  obtain ⟨htrackStarts, htrackFit⟩ := validated_starts htracks
  have hsorted := precedes_sessionEntries hsessionStarts htrackStarts
  have hsessionList := startsOf_sessionEntries false sessions tracks hsessionStarts
  have htrackList := startsOf_sessionEntries true sessions tracks htrackStarts
  have hmem : ∀ entry, entry ∈ sessionEntries sessions tracks ↔
      (∃ range ∈ sessions, sessionEntry range = entry) ∨
        ∃ range ∈ tracks, trackEntry range = entry := fun _ => mem_sessionEntries
  have hcount : (sessionEntries sessions tracks).length = sessions.length + tracks.length := by
    rw [(sessionEntries_perm sessions tracks).length_eq, List.length_append, List.length_map,
      List.length_map]
  rw [parseSessionData_of_sessionPayload mediaSectorCount hpayload
    (fit_sessionEntries hsessionFit htrackFit)]
  cases hentries : sessionEntries sessions tracks with
  | nil =>
    -- A payload is only written when there is an entry.
    have hnone : sessions = [] ∧ tracks = [] := by
      rw [hentries, List.length_nil] at hcount
      exact ⟨List.length_eq_zero_iff.mp (by omega), List.length_eq_zero_iff.mp (by omega)⟩
    rw [sessionPayload, if_pos hnone] at hpayload
    cases hpayload
  | cons first rest =>
    rw [hentries] at hsorted hsessionList htrackList hmem hcount
    obtain ⟨scan, hscan⟩ := exists_scan_of_precedes hsorted
    have hsessionRanges : (scan.finish mediaSectorCount).sessions =
        if sessions = [] then [⟨0, mediaSectorCount⟩] else sessions := by
      by_cases hnone : sessions = []
      · rw [if_pos hnone]
        refine finish_sessions mediaSectorCount hsorted hscan (.inr ⟨?_, rfl⟩)
        rw [hsessionList, hnone]
        rfl
      · obtain ⟨starts, hstarts⟩ := starts_of_validated hsessions hnone
        rw [if_neg hnone, ← rangesBetween_validated hsessions hstarts]
        exact finish_sessions mediaSectorCount hsorted hscan (.inl (hsessionList.trans hstarts))
    have htrackRanges : (scan.finish mediaSectorCount).tracks =
        if sessions = [] ∧ tracks.length = 1 then [] else tracks := by
      by_cases hsingle : sessions = [] ∧ tracks.length = 1
      · have hrest : rest = [] := by
          rw [hsingle.1, hsingle.2, List.length_cons, List.length_nil] at hcount
          exact List.length_eq_zero_iff.mp (by omega)
        subst hrest
        cases hscan
        rw [if_pos hsingle]
        rfl
      rw [if_neg hsingle]
      by_cases hnone : tracks = []
      · have hsilent : ∀ entry ∈ first :: rest, entry.isAudio = false := by
          intro entry hentry
          rcases (hmem entry).mp hentry with ⟨range, _, rfl⟩ | ⟨range, hrange, _⟩
          · exact isAudio_sessionEntry range
          · rw [hnone] at hrange
            cases hrange
        rw [hnone]
        exact tracks_of_scan_of_no_audio mediaSectorCount
          (fun entry hentry => hsilent entry (List.mem_cons_of_mem _ hentry))
          (hsilent first List.mem_cons_self) rfl hscan
      · obtain ⟨starts, hstarts⟩ := starts_of_validated htracks hnone
        have hpaired : Paired (first :: rest) := by
          refine .of_precedes hsorted ?_
          intro entry hentry hsilent
          rcases (hmem entry).mp hentry with ⟨range, hrange, rfl⟩ | ⟨range, _, rfl⟩
          · obtain ⟨track, htrack, hstart⟩ := haligned.resolve_left hnone range hrange
            exact ⟨trackEntry track, (hmem _).mpr (.inr ⟨track, htrack, rfl⟩),
              isAudio_trackEntry track, hstart⟩
          · rw [isAudio_trackEntry] at hsilent
            cases hsilent
        have hfirst : first.isAudio = true → rest ≠ [] := by
          rintro haudio rfl
          by_cases hsome : sessions = []
          · rw [hsome, List.length_cons, List.length_nil, List.length_nil] at hcount
            exact hsingle ⟨hsome, by omega⟩
          · obtain ⟨sessionStarts, hsessionStart⟩ := starts_of_validated hsessions hsome
            rw [startsOf_cons, if_neg (by simp [haudio])] at hsessionList
            cases hsessionList.trans hsessionStart
        rw [← rangesBetween_validated htracks hstarts]
        exact finish_tracks mediaSectorCount hpaired hscan (htrackList.trans hstarts) hfirst
    rw [sessionRanges, hscan, ok_bind, pure_eq_ok, ← hsessionRanges]
    generalize scan.finish mediaSectorCount = ranges at *
    rw [← htrackRanges]

/-- One session with two tracks. -/
theorem parse_sessionPayload_two_tracks :
    ∃ payload, sessionPayload 1 [⟨0, 8⟩] [⟨0, 4⟩, ⟨4, 4⟩] = .ok (some payload) ∧
      parseSessionData payload 1 8 = .ok ⟨[⟨0, 8⟩], [⟨0, 4⟩, ⟨4, 4⟩]⟩ := by
  have hentries : sessionEntries [⟨0, 8⟩] [⟨0, 4⟩, ⟨4, 4⟩] = [⟨0, 0⟩, ⟨0, 1⟩, ⟨4, 1⟩] :=
    List.mergeSort_of_pairwise (by decide)
  have hwritten : (sessionPayload 1 [⟨0, 8⟩] [⟨0, 4⟩, ⟨4, 4⟩]).map (·.isSome) = .ok true := by
    unfold sessionPayload
    rw [hentries]
    decide
  cases hpayload : sessionPayload 1 [⟨0, 8⟩] [⟨0, 4⟩, ⟨4, 4⟩] with
  | error e =>
    rw [hpayload] at hwritten
    cases hwritten
  | ok payload =>
    cases payload with
    | none =>
      rw [hpayload] at hwritten
      cases hwritten
    | some payload =>
      exact ⟨payload, rfl,
        parse_sessionPayload (by decide) (by decide) hpayload (.inr (by decide))⟩

/-- Tracks without a session do not come back without one, a single track without a session does
not come back, and a track across two sessions comes back cut. -/
theorem not_parse_sessionPayload_of_any_ranges :
    (¬ ∀ (formatVersion : UInt8) (sessions tracks : List SectorRange) (mediaSectorCount : Nat)
      (payload : Bytes), validateSessionRanges "sessions" sessions mediaSectorCount = .ok () →
      validateSessionRanges "tracks" tracks mediaSectorCount = .ok () →
      sessionPayload formatVersion sessions tracks = .ok (some payload) →
      parseSessionData payload formatVersion mediaSectorCount = .ok ⟨sessions, tracks⟩) ∧
    (do
      match ← sessionPayload 2 [] [⟨0, 8⟩] with
      | some payload => parseSessionData payload 2 8
      | none => .error .aborted : Result SessionRanges) = .ok ⟨[⟨0, 8⟩], []⟩ ∧
    (do
      match ← sessionPayload 2 [⟨0, 4⟩, ⟨4, 4⟩] [⟨0, 8⟩] with
      | some payload => parseSessionData payload 2 8
      | none => .error .aborted : Result SessionRanges) =
      .ok ⟨[⟨0, 4⟩, ⟨4, 4⟩], [⟨0, 4⟩]⟩ := by
  refine ⟨?_, ?_, ?_⟩
  · intro hall
    have hentries : sessionEntries [] [⟨0, 4⟩, ⟨4, 4⟩] = [⟨0, 1⟩, ⟨4, 1⟩] :=
      List.mergeSort_of_pairwise (by decide)
    have hread : (do
        match ← sessionPayload 2 [] [⟨0, 4⟩, ⟨4, 4⟩] with
        | some payload => parseSessionData payload 2 8
        | none => .error .aborted : Result SessionRanges) =
        .ok ⟨[⟨0, 8⟩], [⟨0, 4⟩, ⟨4, 4⟩]⟩ := by
      unfold sessionPayload
      rw [hentries]
      decide +kernel
    obtain ⟨payload, hpayload, hread⟩ := bind_eq_ok.mp hread
    split at hread
    · rename_i payload
      have hsame := hall 2 [] [⟨0, 4⟩, ⟨4, 4⟩] 8 payload (by decide) (by decide) hpayload
      rw [hsame] at hread
      cases hread
    · cases hread
  · have hentries : sessionEntries [] [⟨0, 8⟩] = [⟨0, 1⟩] :=
      List.mergeSort_of_pairwise (by decide)
    unfold sessionPayload
    rw [hentries]
    decide
  · have hentries : sessionEntries [⟨0, 4⟩, ⟨4, 4⟩] [⟨0, 8⟩] = [⟨0, 0⟩, ⟨0, 1⟩, ⟨4, 0⟩] := by
      simp [sessionEntries, List.mergeSort, sessionEntry, trackEntry, sessionEntryLe,
        audioTrackFlag]
    unfold sessionPayload
    rw [hentries]
    decide +kernel

end EwfImage
