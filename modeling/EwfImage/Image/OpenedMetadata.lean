import EwfImage.Image.Ewf1PayloadsRoundTrip
import EwfImage.Image.OpenedSegment

/-!
# The metadata of a written EWF1 segment

The metadata sections of a writer are always read. Headers may name a profile, the acquisition
errors are those of the writer, and the digests are stored as they were written.

The main result is `exists_foldlM_metadataSections`: every metadata section of a segment that
the writer made is read without an error, and what is read says nothing that contradicts an
earlier segment. The texts of the headers are any texts, since their values are not looked at
here.
-/

namespace EwfImage

open Fallible Ewf1 Word

/-! ## Profiles -/

/-- The profiles that a header names. -/
def headerProfiles : List FormatProfile := [.enCase1, .enCase2, .enCase3, .enCase4, .enCase5,
  .enCase6, .enCase7, .ftkImager, .linen5, .linen6, .linen7]

/-- A profile, if there is one, is one that a header names. -/
def NamesHeader (profile : Option FormatProfile) : Prop :=
  ∀ found, profile = some found → found ∈ headerProfiles

theorem namesHeader_some {named : FormatProfile} (h : named ∈ headerProfiles) :
    NamesHeader (some named) := by
  intro found hfound
  rw [← Option.some.inj hfound]
  exact h

theorem namesHeader_ite {c : Prop} [Decidable c] {profile other : Option FormatProfile}
    (h : NamesHeader profile) (h' : NamesHeader other) :
    NamesHeader (if c then profile else other) := by
  by_cases hc : c
  · rw [if_pos hc]
    exact h
  · rw [if_neg hc]
    exact h'

theorem namesHeader_headerFieldProfile {hasCarriageReturn : Bool} {headerSection index : Nat}
    {numberOfSections name : List Char} {softwareVersion : Option Char}
    {profile : Option FormatProfile} (h : NamesHeader profile) :
    NamesHeader (headerFieldProfile hasCarriageReturn headerSection numberOfSections softwareVersion
      profile index name) := by
  unfold headerFieldProfile
  dsimp only
  iterate 8 refine namesHeader_ite (namesHeader_some (by decide)) ?_
  refine namesHeader_ite ?_ (namesHeader_ite (namesHeader_some (by decide)) h)
  split
  · exact namesHeader_some (by decide)
  · exact namesHeader_some (by decide)
  · exact h

theorem detectEwf1HeaderProfile_mem {text : List Char} {headerSection : Nat}
    {found : FormatProfile} (h : detectEwf1HeaderProfile text headerSection = some found) :
    found ∈ headerProfiles := by
  unfold detectEwf1HeaderProfile at h
  split at h
  · rename_i numberOfSections _ typeLine rest _
    dsimp only at h
    have hfold : ∀ (types : List (List Char × Nat)) (profile : Option FormatProfile),
        NamesHeader profile → NamesHeader (types.foldl (fun profile field =>
          headerFieldProfile (text.contains '\r') headerSection numberOfSections
            (((typeLine.splitOn '\t').findIdx? (· = ['a', 'v'])).bind fun index =>
              (((rest.headD []).splitOn '\t')[index]?).bind List.head?)
            profile field.2 field.1) profile) := by
      intro types
      induction types with
      | nil => exact fun profile hprofile => hprofile
      | cons entry types ih =>
        intro profile hprofile
        rw [List.foldl_cons]
        exact ih _ (namesHeader_headerFieldProfile hprofile)
    refine hfold _ _ (namesHeader_ite (namesHeader_some (by decide)) ?_) found h
    intro found hfound
    cases hfound
  · cases h

/-- A profile as the headers of a segment leave it. -/
def Detects (start read : ProfileState) : Prop :=
  read = start ∨ (read.hintOnly = false ∧ read.profile ∈ headerProfiles ∧
    start.profile ∉ [FormatProfile.smart, .logicalEnCase5, .logicalEnCase6, .logicalEnCase7])

theorem Detects.trans {start middle read : ProfileState} (h : Detects start middle)
    (h' : Detects middle read) : Detects start read := by
  rcases h' with rfl | ⟨honly, hmem, hopen⟩
  · exact h
  · rcases h with rfl | ⟨-, -, hstart⟩
    · exact .inr ⟨honly, hmem, hopen⟩
    · exact .inr ⟨honly, hmem, hstart⟩

/-- The profile in front of the headers is that of a hint, which is not for SMART images. -/
structure Hinted (start : ProfileState) : Prop where
  hintOnly : start.hintOnly = true
  profile : start.profile ∈ [FormatProfile.enCase2, .enCase5, .ewf, .logicalEnCase5]

theorem Hinted.ne_smart {start : ProfileState} (h : Hinted start) : start.profile ≠ .smart := by
  intro hsmart
  have hprofile := h.profile
  rw [hsmart] at hprofile
  exact absurd hprofile (by decide)

theorem hinted_initialProfile {extension : Option (List Char)}
    (h : ewf1FormatProfileHint extension ≠ .smart) :
    Hinted (initialProfile false false true (ewf1FormatProfileHint extension)) := by
  have hhint : ewf1FormatProfileHint extension ∈
      [FormatProfile.unknown, .enCase2, .ewf, .logicalEnCase5, .smart] := by
    unfold ewf1FormatProfileHint
    split <;> decide
  have hall : ∀ hint ∈ [FormatProfile.unknown, .enCase2, .ewf, .logicalEnCase5, .smart],
      hint ≠ .smart → (initialProfile false false true hint).hintOnly = true ∧
        (initialProfile false false true hint).profile ∈
          [FormatProfile.enCase2, .enCase5, .ewf, .logicalEnCase5] := by
    decide
  exact ⟨(hall _ hhint h).1, (hall _ hhint h).2⟩

theorem applyDetectedProfile_mem {target found : FormatProfile} {detected : Option FormatProfile}
    (hsmart : target ≠ .smart) (hdetected : ∀ named, detected = some named → named ∈ headerProfiles)
    (h : applyDetectedProfile target detected = some found) :
    found ∈ headerProfiles ∧
      target ∉ [FormatProfile.smart, .logicalEnCase5, .logicalEnCase6, .logicalEnCase7] := by
  unfold applyDetectedProfile at h
  split at h
  · cases h
  · rename_i named hfilter
    have hnamed := hdetected named (Option.filter_eq_some_iff.mp hfilter).1
    rw [if_neg (fun hftk => hsmart hftk.1)] at h
    split at h
    · cases h
    · rename_i hopen
      rw [← Option.some.inj h]
      exact ⟨hnamed, hopen⟩

/-- Only the profile is changed by headers. -/
structure ReadsHeaders (metadata read : SegmentMetadata) : Prop where
  frame : read = { metadata with
    profile := read.profile
    detectedFromHeader2 := read.detectedFromHeader2 }
  detects : Detects metadata.profile read.profile

theorem readsHeaders_refl (metadata : SegmentMetadata) : ReadsHeaders metadata metadata :=
  ⟨rfl, .inl rfl⟩

theorem ReadsHeaders.trans {metadata middle read : SegmentMetadata}
    (h : ReadsHeaders metadata middle) (h' : ReadsHeaders middle read) :
    ReadsHeaders metadata read := by
  refine ⟨?_, h.detects.trans h'.detects⟩
  have hread := h'.frame
  rw [h.frame] at hread
  exact hread

theorem readsHeaders_detect {metadata : SegmentMetadata} {detected : Option FormatProfile}
    (fromHeader2 : Bool) (hsmart : metadata.profile.profile ≠ .smart)
    (hdetected : ∀ named, detected = some named → named ∈ headerProfiles) :
    ReadsHeaders metadata (metadata.detect detected fromHeader2) := by
  unfold SegmentMetadata.detect
  cases happlied : applyDetectedProfile metadata.profile.profile detected with
  | none => exact readsHeaders_refl metadata
  | some found =>
    obtain ⟨hfound, hopen⟩ := applyDetectedProfile_mem hsmart hdetected happlied
    exact ⟨rfl, .inr ⟨rfl, hfound, hopen⟩⟩

theorem Detects.ne_smart {start read : ProfileState} (h : Detects start read)
    (hstart : start.profile ≠ .smart) : read.profile ≠ .smart := by
  rcases h with rfl | ⟨-, hmem, -⟩
  · exact hstart
  · rintro hsmart
    rw [hsmart] at hmem
    exact absurd hmem (by decide)

/-- The profile that is read of the first segment stands when later segments only hint. -/
theorem mergeSegmentFormatProfile_hinted {start read : ProfileState} (hstart : Hinted start)
    (h : Detects start read) : mergeSegmentFormatProfile read start = .ok read := by
  obtain ⟨honly, hprofile⟩ := hstart
  have hknown : start.profile ≠ .unknown := by
    rintro hunknown
    rw [hunknown] at hprofile
    exact absurd hprofile (by decide)
  unfold mergeSegmentFormatProfile
  rw [if_neg hknown]
  rcases h with rfl | ⟨hdetected, hmem, hopen⟩
  · rw [if_neg hknown, if_pos rfl, Bool.and_self]
  · have hnot : read.profile ≠ .unknown := by
      rintro hunknown
      rw [hunknown] at hmem
      exact absurd hmem (by decide)
    rw [if_neg hnot]
    by_cases hsame : read.profile = start.profile
    · rw [if_pos hsame, hdetected, Bool.false_and, ← hdetected]
    · have hhint : start.profile ∈ [FormatProfile.enCase2, .enCase5, .ewf] := by
        rcases List.mem_cons.mp hprofile with hfirst | hprofile
        · rw [hfirst]
          decide
        · rcases List.mem_cons.mp hprofile with hsecond | hprofile
          · rw [hsecond]
            decide
          · rcases List.mem_cons.mp hprofile with hthird | hlast
            · rw [hthird]
              decide
            · rw [List.mem_singleton.mp hlast] at hopen
              exact absurd (by decide) hopen
      have hmatches : profileHintMatchesDetected start.profile read.profile = true := by
        rw [profileHintMatchesDetected, Bool.and_eq_true]
        exact ⟨decide_eq_true hhint, decide_eq_true hmem⟩
      rw [if_neg hsame, if_neg (by simp [hdetected]), if_pos ⟨hdetected, honly, hmatches⟩]

/-! ## Sections -/

section Sections

variable {codec : Codec} {decodeHeaderBytes : Bytes → List Char} {sectorCount : Option Nat}

theorem foldlM_optionalSection (name : SectionName) (payload : Option Bytes)
    (metadata : SegmentMetadata) :
    (optionalSection name payload).foldlM (readEntry codec decodeHeaderBytes sectorCount) metadata =
      payload.elim (.ok metadata) fun payload =>
        readEntry codec decodeHeaderBytes sectorCount metadata ⟨name, payload⟩ := by
  cases payload with
  | none => rfl
  | some payload => exact bind_pure _

theorem exists_ewf1MetadataPayload (codec : Codec) (data : Bytes) :
    ∃ payload, ewf1MetadataPayload codec .zlib data = .ok payload := by
  unfold ewf1MetadataPayload
  rw [if_neg (by simp)]
  dsimp only
  split <;> exact ⟨_, rfl⟩

/-- A header section is read, whatever is in it. -/
theorem readsHeaders_section {name : SectionName}
    (hname : name = .header ∨ name = .header2 ∨ name = .xheader) (payload : Option Bytes)
    {metadata : SegmentMetadata} (hsmart : metadata.profile.profile ≠ .smart) :
    ∃ read, (optionalSection name payload).foldlM
        (readEntry codec decodeHeaderBytes sectorCount) metadata = .ok read ∧
      ReadsHeaders metadata read := by
  rw [foldlM_optionalSection]
  cases payload with
  | none => exact ⟨metadata, rfl, readsHeaders_refl metadata⟩
  | some data =>
    obtain ⟨payload, hpayload⟩ := exists_ewf1MetadataPayload codec data
    dsimp only [Option.elim]
    rcases hname with rfl | rfl | rfl
    · have hread : readEntry codec decodeHeaderBytes sectorCount metadata ⟨.header, data⟩ =
          .ok (if metadata.detectedFromHeader2 then metadata else metadata.detect
            (detectEwf1HeaderProfile (decodeHeaderBytes payload) 1) false) := by
        change (ewf1MetadataPayload codec .zlib data >>= _) = _
        rw [hpayload]
        rfl
      refine ⟨_, hread, ?_⟩
      by_cases hdetected : metadata.detectedFromHeader2 = true
      · rw [if_pos hdetected]
        exact readsHeaders_refl metadata
      · rw [if_neg hdetected]
        exact readsHeaders_detect false hsmart fun named hnamed =>
          detectEwf1HeaderProfile_mem hnamed
    · have hread : readEntry codec decodeHeaderBytes sectorCount metadata ⟨.header2, data⟩ =
          .ok (metadata.detect ((decodeUtf16le payload).bind (detectEwf1HeaderProfile · 2))
            true) := by
        change (ewf1MetadataPayload codec .zlib data >>= _) = _
        rw [hpayload]
        rfl
      refine ⟨_, hread, readsHeaders_detect true hsmart fun named hnamed => ?_⟩
      obtain ⟨text, -, hfound⟩ := Option.bind_eq_some_iff.mp hnamed
      exact detectEwf1HeaderProfile_mem hfound
    · have hread : readEntry codec decodeHeaderBytes sectorCount metadata ⟨.xheader, data⟩ =
          .ok metadata := by
        change (ewf1MetadataPayload codec .zlib data >>= _) = _
        rw [hpayload]
        rfl
      exact ⟨_, hread, readsHeaders_refl metadata⟩

/-- The sessions and tracks of a writer are read. -/
theorem exists_parseSessionData {sessions tracks : List SectorRange} {mediaSectorCount : Nat}
    {payload : Bytes}
    (hsessions : validateSessionRanges "sessions" sessions mediaSectorCount = .ok ())
    (htracks : validateSessionRanges "tracks" tracks mediaSectorCount = .ok ())
    (hpayload : sessionPayload 1 sessions tracks = .ok (some payload)) :
    ∃ ranges, parseSessionData payload 1 mediaSectorCount = .ok ranges := by
  obtain ⟨hsessionStarts, hsessionFit⟩ := validated_starts hsessions
  obtain ⟨htrackStarts, htrackFit⟩ := validated_starts htracks
  have hsorted := precedes_sessionEntries hsessionStarts htrackStarts
  rw [parseSessionData_of_sessionPayload mediaSectorCount hpayload
    (fit_sessionEntries hsessionFit htrackFit)]
  cases hentries : sessionEntries sessions tracks with
  | nil => exact ⟨{}, rfl⟩
  | cons first rest =>
    rw [hentries] at hsorted
    obtain ⟨scan, hscan⟩ := exists_scan_of_precedes hsorted
    exact ⟨scan.finish mediaSectorCount, by rw [sessionRanges, hscan, ok_bind, pure_eq_ok]⟩

theorem readSession_written {options : WriteOptions} {mediaSectorCount : Nat} {chosen : Bool}
    {payload : Option Bytes}
    (hsessions : validateSessionRanges "sessions" options.sessions mediaSectorCount = .ok ())
    (htracks : validateSessionRanges "tracks" options.tracks mediaSectorCount = .ok ())
    (hpayload : Selected options chosen
      (fun options => sessionPayload 1 options.sessions options.tracks) payload)
    (metadata : SegmentMetadata) :
    ∃ sessions tracks, (optionalSection .session payload).foldlM
        (readEntry codec decodeHeaderBytes (some mediaSectorCount)) metadata =
      .ok { metadata with sessions, tracks } := by
  rw [foldlM_optionalSection]
  cases payload with
  | none => exact ⟨metadata.sessions, metadata.tracks, rfl⟩
  | some data =>
    cases chosen with
    | false => cases hpayload
    | true =>
      obtain ⟨ranges, hranges⟩ := exists_parseSessionData hsessions htracks hpayload
      refine ⟨metadata.sessions ++ ranges.sessions, metadata.tracks ++ ranges.tracks, ?_⟩
      change (parseSessionData data 1 mediaSectorCount >>= _) = _
      rw [hranges]
      rfl

theorem readError2_written {options : WriteOptions} {chosen : Bool} {payload : Option Bytes}
    (hpayload : Selected options chosen
      (fun options => ewf1Error2Payload options.acquisitionErrors) payload)
    (metadata : SegmentMetadata) :
    (optionalSection .error2 payload).foldlM
        (readEntry codec decodeHeaderBytes sectorCount) metadata =
      .ok { metadata with
        acquisitionErrors := metadata.acquisitionErrors ++
          if chosen then options.acquisitionErrors else [] } := by
  rw [foldlM_optionalSection]
  cases chosen with
  | false =>
    cases hpayload
    dsimp only [Option.elim]
    rw [if_neg (by simp), List.append_nil]
  | true =>
    cases payload with
    | none =>
      have hnone : options.acquisitionErrors = [] := by
        change ewf1Error2Payload options.acquisitionErrors = .ok none at hpayload
        unfold ewf1Error2Payload at hpayload
        by_contra hne
        rw [if_neg hne] at hpayload
        simp only [bind_eq_ok, pure_eq_ok, Except.ok.injEq] at hpayload
        obtain ⟨_, -, _, -, hcontra⟩ := hpayload
        cases hcontra
      dsimp only [Option.elim]
      rw [hnone, ite_self, List.append_nil]
    | some data =>
      change (parseError2Data data >>= _) = _
      rw [parse_ewf1Error2Payload hpayload]
      rfl

/-- The digests that the last segment gives back; no other one has any. -/
def ReadsHashes (codec : Codec) (options : WriteOptions) (last : Bool) (stored : StoredHashes) :
    Prop :=
  if last then ∃ digest xhash, digestPayload options.hashes = some digest ∧
    xhashPayload (codec.zlibEncode options.compressionValues.level) options.hashes = some xhash ∧
    segmentHashes (ewf1MetadataPayload codec .zlib) [.ewf1Digest digest, .ewf1Xhash xhash] =
      .ok stored
  else stored = {}

theorem readHashes_written {options : WriteOptions} {last : Bool} {stored : StoredHashes}
    {digest xhash : Option Bytes} (h : ReadsHashes codec options last stored)
    (hdigest : Selected options last (fun options => .ok (digestPayload options.hashes)) digest)
    (hxhash : Selected options last (fun options =>
      .ok (xhashPayload (codec.zlibEncode options.compressionValues.level) options.hashes)) xhash)
    {metadata : SegmentMetadata} (hempty : metadata.storedHashes = {}) :
    (optionalSection .digest digest ++ optionalSection .xhash xhash).foldlM
        (readEntry codec decodeHeaderBytes sectorCount) metadata =
      .ok { metadata with storedHashes := stored } := by
  rw [List.foldlM_append, foldlM_optionalSection]
  simp only [foldlM_optionalSection]
  cases last with
  | false =>
    cases hdigest
    cases hxhash
    obtain rfl : stored = {} := h
    rw [← hempty]
    rfl
  | true =>
    obtain ⟨digestData, xhashData, hdigest', hxhash', hread⟩ := h
    have hsome := hdigest'.symm.trans (Except.ok.inj hdigest)
    have hsome' := hxhash'.symm.trans (Except.ok.inj hxhash)
    rw [← hsome, ← hsome']
    dsimp only [Option.elim]
    have hsection : ∀ (name : SectionName) (data : Bytes) (found : HashSection)
        (state : SegmentMetadata),
        readEntry codec decodeHeaderBytes sectorCount state ⟨name, data⟩ =
          readHashSection codec .zlib state found →
        readEntry codec decodeHeaderBytes sectorCount state ⟨name, data⟩ =
          ((found.entries (ewf1MetadataPayload codec .zlib)).bind
            (insertAll state.storedHashes)).map fun storedHashes =>
              { state with storedHashes } := by
      intro name data found state hentry
      rw [hentry, readHashSection]
      cases found.entries (ewf1MetadataPayload codec .zlib) with
      | error e => rfl
      | ok entries =>
        change (insertAll state.storedHashes entries >>= _) = 
          (insertAll state.storedHashes entries).map _
        cases insertAll state.storedHashes entries <;> rfl
    rw [hsection .digest digestData (.ewf1Digest digestData) metadata rfl, hempty]
    rw [segmentHashes, List.foldlM_cons, bind_eq_ok] at hread
    obtain ⟨middle, hmiddle, hread⟩ := hread
    rw [List.foldlM_cons, bind_eq_ok] at hread
    obtain ⟨final, hfinal, hread⟩ := hread
    rw [List.foldlM_nil, pure_eq_ok] at hread
    obtain rfl := Except.ok.inj hread
    have hfirst : ((HashSection.ewf1Digest digestData).entries
        (ewf1MetadataPayload codec .zlib)).bind (insertAll {}) = .ok middle := hmiddle
    have hsecond : ((HashSection.ewf1Xhash xhashData).entries
        (ewf1MetadataPayload codec .zlib)).bind (insertAll middle) = .ok final := hfinal
    rw [hfirst]
    change readEntry codec decodeHeaderBytes sectorCount
      { metadata with storedHashes := middle } ⟨.xhash, xhashData⟩ = _
    rw [hsection .xhash xhashData (.ewf1Xhash xhashData) _ rfl]
    dsimp only
    rw [hsecond]
    rfl

variable (decodeHeaderBytes) in
/-- The metadata sections of a written segment are read. -/
theorem exists_foldlM_metadataSections
    {header header2 xheader ltree : WriteOptions → Result (Option Bytes)} {options : WriteOptions}
    {first last : Bool} {metadata : Ewf1Metadata} {start : ProfileState} {stored : StoredHashes}
    {mediaSectorCount : Nat}
    (henc : metadata.Encoded (ewf1PayloadEncoders codec header header2 xheader ltree) options
      (.forSegment first last))
    (hsessions : validateSessionRanges "sessions" options.sessions mediaSectorCount = .ok ())
    (htracks : validateSessionRanges "tracks" options.tracks mediaSectorCount = .ok ())
    (hsmart : start.profile ≠ .smart) (hstored : ReadsHashes codec options last stored) :
    ∃ read, (metadataSections metadata).foldlM
        (readEntry codec decodeHeaderBytes (some mediaSectorCount)) { profile := start } =
          .ok read ∧
      Detects start read.profile ∧ (first = false → read.profile = start) ∧
      read.acquisitionErrors = (if first then options.acquisitionErrors else []) ∧
      read.storedHashes = stored := by
  obtain ⟨behindHeader, hheader, hreadsHeader⟩ := @readsHeaders_section codec decodeHeaderBytes
    (some mediaSectorCount) .header (.inl rfl) metadata.header { profile := start } hsmart
  have hsmartHeader := hreadsHeader.detects.ne_smart hsmart
  obtain ⟨behindHeader2, hheader2, hreadsHeader2⟩ := @readsHeaders_section codec decodeHeaderBytes
    (some mediaSectorCount) .header2 (.inr (.inl rfl)) metadata.header2 behindHeader hsmartHeader
  have hreads := hreadsHeader.trans hreadsHeader2
  obtain ⟨behindXheader, hxheader, hreadsXheader⟩ := @readsHeaders_section codec decodeHeaderBytes
    (some mediaSectorCount) .xheader (.inr (.inr rfl)) metadata.xheader behindHeader2
      (hreads.detects.ne_smart hsmart)
  have hreads := hreads.trans hreadsXheader
  have hframe := hreads.frame
  have hnone : first = false → behindXheader.profile = start := by
    rintro rfl
    have hsections : metadata.header = none ∧ metadata.header2 = none ∧
        metadata.xheader = none := by
      exact ⟨(Except.ok.inj henc.header).symm, (Except.ok.inj henc.header2).symm,
        (Except.ok.inj henc.xheader).symm⟩
    rw [hsections.1] at hheader
    rw [hsections.2.1] at hheader2
    rw [hsections.2.2] at hxheader
    cases hheader
    cases hheader2
    cases hxheader
    rfl
  obtain ⟨sessions, tracks, hsession⟩ := @readSession_written codec decodeHeaderBytes options
    mediaSectorCount first metadata.session hsessions htracks henc.session behindXheader
  have hltree : ∀ state, (optionalSection .ltree metadata.ltree).foldlM
      (readEntry codec decodeHeaderBytes (some mediaSectorCount)) state = .ok state := fun state =>
    foldlM_readEntry_of_other (fun entry hentry => by
      rw [name_of_mem_optionalSection hentry]
      exact (by decide : SectionName.ltree.type ∉ metadataSectionTypes)) state
  have herror2 := @readError2_written codec decodeHeaderBytes (some mediaSectorCount) options first
    metadata.error2 henc.error2 { behindXheader with sessions, tracks }
  have hempty : behindXheader.storedHashes = {} := by rw [hframe]
  have hnoErrors : behindXheader.acquisitionErrors = [] := by rw [hframe]
  have hhashes := @readHashes_written codec decodeHeaderBytes (some mediaSectorCount) options last
    stored metadata.digest metadata.xhash hstored henc.digest henc.xhash
    { behindXheader with
      sessions
      tracks
      acquisitionErrors := behindXheader.acquisitionErrors ++
        if first then options.acquisitionErrors else [] } hempty
  have hsplit : metadataSections metadata = optionalSection .header metadata.header ++
      (optionalSection .header2 metadata.header2 ++ (optionalSection .xheader metadata.xheader ++
        (optionalSection .session metadata.session ++ (optionalSection .ltree metadata.ltree ++
          (optionalSection .error2 metadata.error2 ++ (optionalSection .digest metadata.digest ++
            optionalSection .xhash metadata.xhash)))))) := by
    simp only [metadataSections, sectionsBehind, List.append_assoc]
  refine ⟨{ behindXheader with
    sessions
    tracks
    acquisitionErrors := behindXheader.acquisitionErrors ++
      if first then options.acquisitionErrors else []
    storedHashes := stored }, ?_, hreads.detects, hnone, ?_, rfl⟩
  · rw [hsplit, List.foldlM_append, hheader, ok_bind, List.foldlM_append, hheader2, ok_bind,
      List.foldlM_append, hxheader, ok_bind, List.foldlM_append, hsession, ok_bind,
      List.foldlM_append, hltree, ok_bind, List.foldlM_append, herror2, ok_bind]
    exact hhashes
  · rw [hnoErrors, List.nil_append]

end Sections

end EwfImage
