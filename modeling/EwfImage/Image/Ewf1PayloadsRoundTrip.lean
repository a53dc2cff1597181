import EwfImage.Image.Opening
import EwfImage.Image.StoredHashesOrder
import EwfImage.Metadata.SessionRoundTrip
import EwfImage.Metadata.XmlPayloadsRoundTrip
import EwfImage.Writer.Ewf1Payloads
import EwfImage.Writer.Geometry

/-!
# Reading the payloads of EWF1 metadata sections

The error section of a writer lists its acquisition errors. The sections with the digests agree
with each other, and the digests that are stored from them are those of the writer.

The main result is `openStoredHashes_written`. A typed digest of zeros stands for an absent one
in the format, and the texts of the digests are those of `hexString`; tags of other digests are
names of elements, as `WriteHashes.Readable` asks for.
-/

namespace EwfImage

open Fallible Ewf1 LittleEndian Slice Text Word

/-! ## Acquisition errors -/

theorem length_ewf1Error2Header (count : Nat) : (ewf1Error2Header count).length = 516 := by
  rw [ewf1Error2Header, List.length_append, length_toLE, List.length_replicate]

theorem length_ewf1Error2Entries {errors : List AcquisitionError} {entries : Bytes}
    (h : ewf1Error2Entries errors = .ok entries) : entries.length = errors.length * 8 := by
  induction errors generalizing entries with
  | nil =>
    cases h
    rfl
  | cons error errors ih =>
    simp only [ewf1Error2Entries, bind_eq_ok, pure_eq_ok, Except.ok.injEq] at h
    obtain ⟨_, -, _, -, rest, hrest, rfl⟩ := h
    rw [List.length_append, List.length_append, length_toLE, length_toLE, ih hrest,
      List.length_cons]
    omega

/-- The entries behind anything are the errors. -/
theorem map_ewf1Error2Entries {errors : List AcquisitionError} {entries : Bytes}
    (pre post : Bytes) (h : ewf1Error2Entries errors = .ok entries) :
    (List.range errors.length).map (fun index =>
      (⟨leAt (pre ++ (entries ++ post)) (pre.length + index * 8) 4,
        leAt (pre ++ (entries ++ post)) (pre.length + index * 8 + 4) 4⟩ : AcquisitionError)) =
      errors := by
  induction errors generalizing pre entries with
  | nil => rfl
  | cons error errors ih =>
    simp only [ewf1Error2Entries, bind_eq_ok, rejectIf_eq_ok, pure_eq_ok, Except.ok.injEq] at h
    obtain ⟨_, hfirst, _, hcount, rest, hrest, rfl⟩ := h
    have hfirst' : error.firstSector < 256 ^ 4 := by
      simpa [u32Limit] using Nat.lt_of_not_le hfirst
    have hcount' : error.sectorCount < 256 ^ 4 := by
      simpa [u32Limit] using Nat.lt_of_not_le hcount
    have hfield : ∀ offset, leAt (pre ++ (toLE 4 error.firstSector ++ toLE 4 error.sectorCount ++
        rest ++ post)) (pre.length + offset) 4 =
          leAt (toLE 4 error.firstSector ++ (toLE 4 error.sectorCount ++ (rest ++ post))) offset 4 := by
      intro offset
      rw [leAt, slice_append_right (by omega), Nat.add_sub_cancel_left, leAt]
      simp only [List.append_assoc]
    have hothers := ih (pre ++ (toLE 4 error.firstSector ++ toLE 4 error.sectorCount)) hrest
    have hsplit : pre ++ (toLE 4 error.firstSector ++ toLE 4 error.sectorCount) ++ (rest ++ post) =
        pre ++ (toLE 4 error.firstSector ++ toLE 4 error.sectorCount ++ rest ++ post) := by
      simp only [List.append_assoc]
    rw [hsplit] at hothers
    rw [List.length_cons, List.range_succ_eq_map, List.map_cons, List.map_map]
    congr 1
    · rw [Nat.zero_mul, hfield 0, Nat.add_zero, hfield 4, leAt_toLE _ hfirst',
        leAt_toLE_skip _ (by omega), Nat.sub_self, leAt_toLE _ hcount']
    · refine Eq.trans (List.map_congr_left fun index _ => ?_) hothers
      have hnext : pre.length + (index + 1) * 8 =
          (pre ++ (toLE 4 error.firstSector ++ toLE 4 error.sectorCount)).length + index * 8 := by
        rw [List.length_append, List.length_append, length_toLE, length_toLE]
        omega
      dsimp only [Function.comp]
      rw [Nat.succ_eq_add_one, hnext]

theorem parse_ewf1Error2Payload {errors : List AcquisitionError} {payload : Bytes}
    (h : ewf1Error2Payload errors = .ok (some payload)) : parseError2Data payload = .ok errors := by
  unfold ewf1Error2Payload at h
  split at h
  · cases h
  · rename_i hne
    simp only [bind_eq_ok, rejectIf_eq_ok, pure_eq_ok, Except.ok.injEq, Option.some.injEq] at h
    obtain ⟨_, hcount, entries, hentries, rfl⟩ := h
    have hheader := length_ewf1Error2Header errors.length
    have hlength := length_ewf1Error2Entries hentries
    have hpositive : errors.length ≠ 0 := fun hzero => hne (List.length_eq_zero_iff.mp hzero)
    have hlimits : u32Limit * 8 + 524 < u64Limit := by decide
    have hcount' : errors.length < 256 ^ 4 := by simpa [u32Limit] using Nat.lt_of_not_le hcount
    have htotal : (ewf1Error2Header errors.length ++ toLE 4 (adler32 (ewf1Error2Header
        errors.length)) ++ entries ++ toLE 4 (adler32 entries)).length =
          520 + errors.length * 8 + 4 := by
      simp only [List.length_append, length_toLE, hheader, hlength]
    generalize hdata : ewf1Error2Header errors.length ++ toLE 4 (adler32 (ewf1Error2Header
      errors.length)) ++ entries ++ toLE 4 (adler32 entries) = data at htotal ⊢
    have htake : data.take 516 = ewf1Error2Header errors.length := by
      rw [← hdata, ← hheader]
      simp only [List.append_assoc]
      exact List.take_left
    have hheaderSum : leAt data 516 4 = adler32 (data.take 516) := by
      have hmiddle := slice_append_middle (ewf1Error2Header errors.length)
        (toLE 4 (adler32 (ewf1Error2Header errors.length))) (entries ++ toLE 4 (adler32 entries))
      rw [hheader, length_toLE, ← List.append_assoc, hdata] at hmiddle
      rw [leAt, hmiddle, fromLE_toLE_of_lt (adler32_lt _), htake]
    have hcountField : leAt data 0 4 = errors.length := by
      rw [← hdata, ewf1Error2Header]
      simp only [List.append_assoc]
      exact leAt_toLE _ hcount'
    have hstored : slice data 520 (errors.length * 8) = entries := by
      have hmiddle := slice_append_middle (ewf1Error2Header errors.length ++
        toLE 4 (adler32 (ewf1Error2Header errors.length))) entries (toLE 4 (adler32 entries))
      rw [List.length_append, hheader, length_toLE, hdata, hlength] at hmiddle
      exact hmiddle
    have hsum : leAt data (520 + errors.length * 8) 4 = adler32 entries := by
      have hmiddle := slice_append_middle (ewf1Error2Header errors.length ++
        toLE 4 (adler32 (ewf1Error2Header errors.length)) ++ entries) (toLE 4 (adler32 entries)) []
      rw [List.append_nil, List.length_append, List.length_append, hheader, length_toLE, length_toLE,
        hlength, hdata] at hmiddle
      rw [leAt, hmiddle, fromLE_toLE_of_lt (adler32_lt _)]
    have hread := map_ewf1Error2Entries (ewf1Error2Header errors.length ++
      toLE 4 (adler32 (ewf1Error2Header errors.length))) (toLE 4 (adler32 entries)) hentries
    rw [List.length_append, hheader, length_toLE, ← List.append_assoc, hdata] at hread
    unfold parseError2Data parseErrorTableData
    change (Except.ok (520, 8, 4, 516, 516) >>= _) = _
    rw [ok_bind]
    dsimp only
    rw [rejectIf_neg _ (by omega), ok_bind, rejectIf_neg _ (not_not.mpr hheaderSum), ok_bind,
      hcountField, if_neg hpositive, checkedMul_of_lt (by omega), okOr_some, ok_bind,
      checkedAdd_of_lt (by omega), okOr_some, ok_bind, checkedAdd_of_lt (by omega), okOr_some,
      ok_bind, rejectIf_neg _ (by omega), ok_bind, rejectIf_neg _ (by rw [hsum, hstored]; simp),
      ok_bind, pure_eq_ok]
    exact congrArg Except.ok hread

/-! ## Digests -/

/-- The digests of a writer that is done: both typed ones, and texts of which the known ones are
digests under their own names. -/
structure WriteHashes.Complete (hashes : WriteHashes) (md5 sha1 : Bytes) : Prop where
  length_md5 : md5.length = 16
  length_sha1 : sha1.length = 20
  md5 : hashes.md5 = some md5
  sha1 : hashes.sha1 = some sha1
  unique : ∀ pair ∈ hashes.hashValues, hashes.hashValues.get pair.1 = some pair.2
  known : ∀ pair ∈ hashes.hashValues, ∀ canonical, canonicalIdentifier pair.1 = some canonical →
    pair.1 = canonical ∧ (parseHexArray (digestSize canonical) pair.2).isSome = true

theorem HashValues.unique_orInsert {values : HashValues} {identifier value : String}
    (h : ∀ pair ∈ values, values.get pair.1 = some pair.2) :
    ∀ pair ∈ values.orInsert identifier value,
      (values.orInsert identifier value).get pair.1 = some pair.2 := by
  intro pair hpair
  rw [HashValues.get_orInsert]
  rcases HashValues.mem_orInsert hpair with rfl | hold
  · cases hget : values.get identifier with
    | none => rw [if_pos rfl, Option.none_or]
    | some old =>
      have hsame : values.orInsert identifier value = values := by
        rw [HashValues.orInsert, hget]
        rfl
      rw [hsame] at hpair
      rw [← hget, h _ hpair, Option.some_or]
  · rw [h pair hold, Option.some_or]

/-- What is kept of the digests of the caller while they are checked. -/
structure StoredHashes.Checked (hashes : StoredHashes) : Prop where
  md5 : ∀ digest, hashes.md5 = some digest → digest.length = 16
  sha1 : ∀ digest, hashes.sha1 = some digest → digest.length = 20
  unique : ∀ pair ∈ hashes.hashValues, hashes.hashValues.get pair.1 = some pair.2
  known : ∀ pair ∈ hashes.hashValues, ∀ canonical, canonicalIdentifier pair.1 = some canonical →
    pair.1 = canonical ∧ (parseHexArray (digestSize canonical) pair.2).isSome = true

theorem checked_insertStoredHash {hashes stored : StoredHashes} {identifier value : String}
    (h : hashes.Checked) (hinsert : insertStoredHash hashes identifier value = .ok stored) :
    stored.Checked := by
  unfold insertStoredHash at hinsert
  cases hcanonical : canonicalIdentifier identifier with
  | none =>
    rw [hcanonical] at hinsert
    cases hinsert
    refine ⟨h.md5, h.sha1, HashValues.unique_orInsert h.unique, ?_⟩
    intro pair hpair canonical hknown
    rcases HashValues.mem_orInsert hpair with rfl | hold
    · rw [hcanonical] at hknown
      cases hknown
    · exact h.known pair hold canonical hknown
  | some canonical =>
    rw [hcanonical] at hinsert
    simp only [bind_eq_ok, pure_eq_ok, Except.ok.injEq] at hinsert
    obtain ⟨_, hvalid, _, _, md5, hmd5, sha1, hsha1, rfl⟩ := hinsert
    have hsize : ∀ size digest, parseHexArray size value = some digest → digest.length = size :=
      fun size digest hparse => (parseHexArray_eq_some_iff.mp hparse).1
    have htyped : ∀ {target typed : Option Bytes} {size : Nat}, mergeTyped target
        (parseHexArray size value) canonical = .ok typed → typed = parseHexArray size value := by
      intro target typed size hmerge
      obtain ⟨_, _, hmerge⟩ := bind_eq_ok.mp hmerge
      exact (Except.ok.inj hmerge).symm
    refine ⟨?_, ?_, HashValues.unique_orInsert h.unique, ?_⟩
    · intro digest hdigest
      split at hmd5
      · rw [htyped hmd5] at hdigest
        exact hsize 16 digest hdigest
      · rw [← Except.ok.inj hmd5] at hdigest
        exact h.md5 digest hdigest
    · intro digest hdigest
      split at hsha1
      · rw [htyped hsha1] at hdigest
        exact hsize 20 digest hdigest
      · rw [← Except.ok.inj hsha1] at hdigest
        exact h.sha1 digest hdigest
    · intro pair hpair known hknown
      rcases HashValues.mem_orInsert hpair with rfl | hold
      · have hself := canonicalIdentifier_canonical hcanonical
        rw [hself, Option.some.injEq] at hknown
        rw [validateDigest, hself, rejectIf_eq_ok, Bool.not_eq_false] at hvalid
        rw [← hknown]
        exact ⟨rfl, hvalid⟩
      · exact h.known pair hold known hknown

/-- The lengths that digests have. -/
structure Digests.Sized (digests : Digests) : Prop where
  md5 : ∀ data, (digests.md5 data).length = 16
  sha1 : ∀ data, (digests.sha1 data).length = 20
  sha256 : ∀ data, (digests.sha256 data).length = 32

/-- The lengths that the digests of a caller have. -/
structure WriteHashes.Sized (hashes : WriteHashes) : Prop where
  md5 : ∀ digest, hashes.md5 = some digest → digest.length = 16
  sha1 : ∀ digest, hashes.sha1 = some digest → digest.length = 20

theorem complete_of_effectiveWriteHashes {requested hashes : WriteHashes}
    {md5 sha1 sha256 : Bytes} (hrequested : requested.Sized) (hmd5 : md5.length = 16)
    (hsha1 : sha1.length = 20) (hsha256 : sha256.length = 32)
    (h : effectiveWriteHashes requested md5 sha1 sha256 = .ok hashes) :
    ∃ md5' sha1', hashes.Complete md5' sha1' := by
  simp only [effectiveWriteHashes, validatedWriteHashes, bind_eq_ok, pure_eq_ok,
    Except.ok.injEq] at h
  obtain ⟨_, ⟨stored, hstored, rfl⟩, rfl⟩ := h
  have hchecked : stored.Checked := by
    refine foldlM_invariant (I := StoredHashes.Checked)
      (fun stored entry stored' hstored _ hinsert => checked_insertStoredHash hstored hinsert) ?_
      hstored
    exact ⟨hrequested.md5, hrequested.sha1, fun pair hpair => absurd hpair List.not_mem_nil,
      fun pair hpair => absurd hpair List.not_mem_nil⟩
  have hor : ∀ {typed : Option Bytes} {computed : Bytes} {size : Nat},
      (∀ digest, typed = some digest → digest.length = size) → computed.length = size →
      ∃ digest, typed.or (some computed) = some digest ∧ digest.length = size := by
    intro typed computed size htyped hcomputed
    cases typed with
    | none => exact ⟨computed, rfl, hcomputed⟩
    | some digest => exact ⟨digest, rfl, htyped digest rfl⟩
  obtain ⟨md5', hmd5', hlengthMd5⟩ := hor hchecked.md5 hmd5
  obtain ⟨sha1', hsha1', hlengthSha1⟩ := hor hchecked.sha1 hsha1
  refine ⟨md5', sha1', hlengthMd5, hlengthSha1, hmd5', hsha1',
    HashValues.unique_orInsert hchecked.unique, ?_⟩
  intro pair hpair canonical hknown
  rcases HashValues.mem_orInsert hpair with rfl | hold
  · have hself : canonicalIdentifier "SHA256" = some "SHA256" := by decide
    rw [hself, Option.some.injEq] at hknown
    have hparse := parseHexArray_hexString sha256
    rw [hsha256] at hparse
    rw [← hknown]
    refine ⟨rfl, ?_⟩
    change (parseHexArray 32 (hexString sha256)).isSome = true
    rw [hparse]
    rfl
  · exact hchecked.known pair hold canonical hknown

/-- The digest section of a writer holds its typed digests, but for digests of zeros. -/
theorem entries_digestPayload {hashes : WriteHashes} {md5 sha1 payload : Bytes}
    (h : hashes.Complete md5 sha1) (hpayload : digestPayload hashes = some payload)
    (metadataPayload : Bytes → Result Bytes) :
    (HashSection.ewf1Digest payload).entries metadataPayload =
      .ok (hashEntry "MD5" (parseNonzeroHash 16 md5) ++
        hashEntry "SHA1" (parseNonzeroHash 20 sha1)) := by
  have hmd5 := h.length_md5
  have hsha1 := h.length_sha1
  unfold digestPayload at hpayload
  rw [h.md5, h.sha1, if_neg (by simp)] at hpayload
  simp only [Option.elim_some, Option.some.injEq] at hpayload
  generalize hdigest : patch (patch (List.replicate 76 0) 0 md5) 16 sha1 = digest at hpayload
  have hlength : digest.length = 76 := by
    rw [← hdigest, length_patch, length_patch, List.length_replicate]
  have hfirst : slice digest 0 16 = md5 := by
    have hself := @slice_patch_self (List.replicate 76 0) md5 0
      (by rw [List.length_replicate]; omega)
    rw [← hdigest, slice_patch_of_disjoint (.inl (by omega)), ← hmd5, hself]
  have hsecond : slice digest 16 20 = sha1 := by
    have hself := @slice_patch_self (patch (List.replicate 76 0) 0 md5) sha1 16
      (by rw [length_patch, List.length_replicate]; omega)
    rw [← hdigest, ← hsha1, hself]
  have htotal : payload.length = 80 := by
    rw [← hpayload, List.length_append, length_toLE, hlength]
  have htake : payload.take 76 = digest := by
    rw [← hpayload, ← hlength]
    exact List.take_left
  have hsum : leAt payload 76 4 = adler32 digest := by
    have hmiddle := slice_append_middle digest (toLE 4 (adler32 digest)) []
    rw [List.append_nil, hlength, length_toLE, hpayload] at hmiddle
    rw [leAt, hmiddle, fromLE_toLE_of_lt (adler32_lt _)]
  have hstart : payload.take 16 = md5 := by
    rw [← hpayload, List.take_append_of_le_length (by omega), ← hfirst]
    rfl
  have hbehind : slice payload 16 20 = sha1 := by
    rw [← hpayload, slice_append_left (by omega), hsecond]
  unfold HashSection.entries
  dsimp only
  rw [validateHashSectionSize, rejectIf_neg _ (by omega), ok_bind, validateAdler32ChecksumValue,
    htake, hsum, rejectIf_neg _ (by simp), ok_bind, hstart, hbehind, pure_eq_ok]

/-- What the sections of a writer store. -/
def writtenEntries (hashes : WriteHashes) (md5 sha1 : Bytes) : List (String × String) :=
  hashEntry "MD5" (parseNonzeroHash 16 md5) ++ hashEntry "SHA1" (parseNonzeroHash 20 sha1) ++
    (hashes.typedPairs ++ hashes.otherPairs.filterMap trimmedPair)

theorem mem_hashEntry {identifier : String} {size : Nat} {digest : Bytes} {entry : String × String}
    (hlength : digest.length = size)
    (h : entry ∈ hashEntry identifier (parseNonzeroHash size digest)) :
    entry = (identifier, hexString digest) := by
  obtain ⟨found, hfound, rfl⟩ := List.mem_map.mp h
  rw [Option.mem_toList, parseNonzeroHash, Option.ite_none_right_eq_some, ← hlength,
    List.take_length] at hfound
  rw [← Option.some.inj hfound.2]

/-- What the sections of a writer say of one of the known algorithms. -/
theorem known_of_mem_writtenEntries {hashes : WriteHashes} {md5 sha1 : Bytes}
    (h : hashes.Complete md5 sha1) (hwords : WordDigests hashes.hashValues)
    {entry : String × String} {canonical : String}
    (hentry : entry ∈ writtenEntries hashes md5 sha1)
    (hknown : canonicalIdentifier entry.1 = some canonical) :
    (canonical = "MD5" ∧ entry.2 = hexString md5) ∨
      (canonical = "SHA1" ∧ entry.2 = hexString sha1) ∨
      (canonical ≠ "MD5" ∧ canonical ≠ "SHA1" ∧ hashes.hashValues.get canonical = some entry.2 ∧
        (parseHexArray (digestSize canonical) entry.2).isSome = true) := by
  have hnames : canonicalIdentifier "MD5" = some "MD5" ∧ canonicalIdentifier "md5" = some "MD5" ∧
      canonicalIdentifier "SHA1" = some "SHA1" ∧ canonicalIdentifier "sha1" = some "SHA1" := by
    decide
  obtain ⟨hMd5, hmd5, hSha1, hsha1⟩ := hnames
  rcases List.mem_append.mp hentry with hdigest | hxhash
  · rcases List.mem_append.mp hdigest with hentry | hentry
    · rw [mem_hashEntry h.length_md5 hentry] at hknown ⊢
      rw [hMd5] at hknown
      exact .inl ⟨(Option.some.inj hknown).symm, rfl⟩
    · rw [mem_hashEntry h.length_sha1 hentry] at hknown ⊢
      rw [hSha1] at hknown
      exact .inr (.inl ⟨(Option.some.inj hknown).symm, rfl⟩)
  · rcases List.mem_append.mp hxhash with htyped | hother
    · rw [WriteHashes.typedPairs, h.md5, h.sha1] at htyped
      rcases List.mem_append.mp htyped with htyped | htyped
      · rw [List.mem_singleton.mp htyped] at hknown ⊢
        rw [hmd5] at hknown
        exact .inl ⟨(Option.some.inj hknown).symm, rfl⟩
      · rw [List.mem_singleton.mp htyped] at hknown ⊢
        rw [hsha1] at hknown
        exact .inr (.inl ⟨(Option.some.inj hknown).symm, rfl⟩)
    · obtain ⟨⟨tag, value⟩, hpair, htrimmed⟩ := List.mem_filterMap.mp hother
      obtain ⟨hmem, hplain⟩ := List.mem_filter.mp hpair
      rw [trimmedPair_eq, Option.ite_none_left_eq_some] at htrimmed
      obtain ⟨-, htrimmed⟩ := htrimmed
      obtain rfl := Option.some.inj htrimmed
      obtain ⟨rfl, hvalid⟩ := h.known _ hmem canonical hknown
      have hword := trim_eq_self_of_word (hwords _ hmem (by rw [hknown]; simp))
      dsimp only at hword hknown hvalid hplain ⊢
      rw [hword, String.ofList_toList]
      refine .inr (.inr ⟨?_, ?_, h.unique _ hmem, hvalid⟩)
      · rintro rfl
        exact absurd hplain (by decide)
      · rintro rfl
        exact absurd hplain (by decide)

/-- The sections of a writer agree with each other. -/
theorem agree_writtenEntries {hashes : WriteHashes} {md5 sha1 : Bytes}
    (h : hashes.Complete md5 sha1) (hwords : WordDigests hashes.hashValues) :
    Agree (writtenEntries hashes md5 sha1) where
  valid entry hentry canonical hknown := by
    have hhex : ∀ digest : Bytes, ∀ size, digest.length = size →
        (parseHexArray size (hexString digest)).isSome = true := by
      rintro digest size rfl
      rw [parseHexArray_hexString]
      rfl
    rcases known_of_mem_writtenEntries h hwords hentry hknown with
      ⟨rfl, htext⟩ | ⟨rfl, htext⟩ | ⟨-, -, -, hvalid⟩
    · rw [htext]
      exact hhex md5 16 h.length_md5
    · rw [htext]
      exact hhex sha1 20 h.length_sha1
    · exact hvalid
  equal entry hentry other hother canonical hknown hknown' := by
    have hsame : entry.2 = other.2 := by
      rcases known_of_mem_writtenEntries h hwords hentry hknown with
        ⟨rfl, htext⟩ | ⟨rfl, htext⟩ | ⟨hmd5, hsha1, hget, -⟩
      · rcases known_of_mem_writtenEntries h hwords hother hknown' with
          ⟨-, htext'⟩ | ⟨hne, -⟩ | ⟨hne, -⟩
        · rw [htext, htext']
        · exact absurd hne (by decide)
        · exact absurd rfl hne
      · rcases known_of_mem_writtenEntries h hwords hother hknown' with
          ⟨hne, -⟩ | ⟨-, htext'⟩ | ⟨-, hne, -⟩
        · exact absurd hne (by decide)
        · rw [htext, htext']
        · exact absurd rfl hne
      · rcases known_of_mem_writtenEntries h hwords hother hknown' with
          ⟨hne, -⟩ | ⟨hne, -⟩ | ⟨-, -, hget', -⟩
        · exact absurd hne hmd5
        · exact absurd hne hsha1
        · rw [hget] at hget'
          exact Option.some.inj hget'
    rw [hsame]
    exact eqIgnoreAsciiCase_iff.mpr rfl

/-- The texts of digests can be read back: their tags are names of elements, and they fit into what
is decompressed of a section. -/
structure WriteHashes.Readable (hashes : WriteHashes) : Prop where
  tags : ∀ pair ∈ hashes.hashValues, pair.2 ≠ "" → IsElementName "xhash".toList pair.1.toList
  size : ∀ xml, xhashXml hashes = some xml → (xmlBytes xml).length ≤ maxDecompressedMetadata

theorem ewf1MetadataPayload_zlibEncode {codec : Codec} (hlaw : codec.Lawful)
    (level : WriteCompressionLevel) {data : Bytes} (h : data.length ≤ maxDecompressedMetadata) :
    ewf1MetadataPayload codec .zlib (codec.zlibEncode level data) = .ok data := by
  unfold ewf1MetadataPayload
  rw [if_neg (by simp), hlaw.zlib]
  exact if_pos ⟨rfl, h⟩

/-- The text of the known digest of an algorithm is found under its name. -/
theorem firstValue_writtenEntries {hashes : WriteHashes} {md5 sha1 : Bytes}
    (h : hashes.Complete md5 sha1) (hwords : WordDigests hashes.hashValues) :
    firstValue (writtenEntries hashes md5 sha1) "MD5" = some (hexString md5) ∧
      firstValue (writtenEntries hashes md5 sha1) "SHA1" = some (hexString sha1) ∧
      firstValue (writtenEntries hashes md5 sha1) "SHA256" = hashes.hashValues.get "SHA256" := by
  have hnames : canonicalIdentifier "MD5" = some "MD5" ∧ canonicalIdentifier "md5" = some "MD5" ∧
      canonicalIdentifier "SHA1" = some "SHA1" ∧ canonicalIdentifier "sha1" = some "SHA1" ∧
      canonicalIdentifier "SHA256" = some "SHA256" := by
    decide
  obtain ⟨hMd5, hmd5, hSha1, hsha1, hSha256⟩ := hnames
  have hfound : ∀ {canonical tag value : String}, canonicalIdentifier tag = some canonical →
      (tag, value) ∈ writtenEntries hashes md5 sha1 →
      ∃ text, firstValue (writtenEntries hashes md5 sha1) canonical = some text := by
    intro canonical tag value hcanonical hmem
    exact Option.isSome_iff_exists.mp (isSome_firstValue_iff.mpr ⟨(tag, value), hmem,
      (storedIdentifier_eq_iff (canonicalIdentifier_canonical hcanonical)).mpr hcanonical⟩)
  have hvalue : ∀ {canonical text : String}, canonicalIdentifier canonical = some canonical →
      firstValue (writtenEntries hashes md5 sha1) canonical = some text →
      (canonical = "MD5" ∧ text = hexString md5) ∨ (canonical = "SHA1" ∧ text = hexString sha1) ∨
        (canonical ≠ "MD5" ∧ canonical ≠ "SHA1" ∧
          hashes.hashValues.get canonical = some text) := by
    intro canonical text hcanonical hfirst
    obtain ⟨entry, hentry, hstored, rfl⟩ := exists_of_firstValue hfirst
    have hsays := known_of_mem_writtenEntries h hwords hentry
      ((storedIdentifier_eq_iff hcanonical).mp hstored)
    exact hsays.imp_right (Or.imp_right fun hother => ⟨hother.1, hother.2.1, hother.2.2.1⟩)
  have htyped : hashes.typedPairs = [("md5", hexString md5), ("sha1", hexString sha1)] := by
    rw [WriteHashes.typedPairs, h.md5, h.sha1]
    rfl
  refine ⟨?_, ?_, ?_⟩
  · obtain ⟨text, htext⟩ := hfound hmd5 (List.mem_append_right _ (List.mem_append_left _
      (by rw [htyped]; exact List.mem_cons_self)))
    rcases hvalue hMd5 htext with ⟨-, rfl⟩ | ⟨hne, -⟩ | ⟨hne, -⟩
    · exact htext
    · exact absurd hne (by decide)
    · exact absurd rfl hne
  · obtain ⟨text, htext⟩ := hfound hsha1 (List.mem_append_right _ (List.mem_append_left _
      (by rw [htyped]; exact List.mem_cons_of_mem _ List.mem_cons_self)))
    rcases hvalue hSha1 htext with ⟨hne, -⟩ | ⟨-, rfl⟩ | ⟨-, hne, -⟩
    · exact absurd hne (by decide)
    · exact htext
    · exact absurd rfl hne
  · cases hget : hashes.hashValues.get "SHA256" with
    | none =>
      cases hfirst : firstValue (writtenEntries hashes md5 sha1) "SHA256" with
      | none => rfl
      | some text =>
        rcases hvalue hSha256 hfirst with ⟨hne, -⟩ | ⟨hne, -⟩ | ⟨-, -, hsome⟩
        · exact absurd hne (by decide)
        · exact absurd hne (by decide)
        · rw [hget] at hsome
          cases hsome
    | some value =>
      obtain ⟨before, behind, hsplit, -⟩ := List.lookup_eq_some_iff.mp hget
      have hmem : ("SHA256", value) ∈ hashes.hashValues := by
        rw [hsplit]
        exact List.mem_append_right _ List.mem_cons_self
      obtain ⟨-, hvalid⟩ := h.known _ hmem _ hSha256
      have hnonempty : value.toList ≠ [] := by
        intro hnil
        rw [Option.isSome_iff_exists] at hvalid
        obtain ⟨digest, hdigest⟩ := hvalid
        obtain ⟨hlength, hlower⟩ := parseHexArray_eq_some_iff.mp hdigest
        have hdigits := length_flatMap_hexPair digest
        change (lowered value) = _ at hlower
        rw [← hlower, lowered, hnil] at hdigits
        change digest.length = 32 at hlength
        simp only [List.map_nil, List.length_nil] at hdigits
        omega
      have hword := trim_eq_self_of_word (hwords _ hmem (by rw [hSha256]; simp))
      have hplain : ¬ isTypedHashTag "SHA256" = true := by decide
      have hother : ("SHA256", value) ∈ hashes.otherPairs.filterMap trimmedPair := by
        refine List.mem_filterMap.mpr
          ⟨("SHA256", value), List.mem_filter.mpr ⟨hmem, decide_eq_true hplain⟩, ?_⟩
        dsimp only at hword
        rw [trimmedPair_eq, hword, if_neg hnonempty, String.ofList_toList]
      obtain ⟨text, htext⟩ := hfound hSha256 (List.mem_append_right _ (List.mem_append_right _ hother))
      rcases hvalue hSha256 htext with ⟨hne, -⟩ | ⟨hne, -⟩ | ⟨-, -, hsome⟩
      · exact absurd hne (by decide)
      · exact absurd hne (by decide)
      · rw [hget] at hsome
        rw [htext, ← hsome]

/-- The digests of a writer are stored when its sections are read. -/
theorem openStoredHashes_written {codec : Codec} (hlaw : codec.Lawful)
    (level : WriteCompressionLevel) {hashes : WriteHashes} {md5 sha1 : Bytes}
    (h : hashes.Complete md5 sha1) (hwords : WordDigests hashes.hashValues)
    (hreadable : hashes.Readable) :
    ∃ digest xhash segment stored, digestPayload hashes = some digest ∧
      xhashPayload (codec.zlibEncode level) hashes = some xhash ∧
      segmentHashes (ewf1MetadataPayload codec .zlib) [.ewf1Digest digest, .ewf1Xhash xhash] =
        .ok segment ∧
      mergeHashes {} segment = .ok stored ∧ stored.md5 = some md5 ∧ stored.sha1 = some sha1 ∧
      stored.hashValues.get "SHA256" = hashes.hashValues.get "SHA256" := by
  obtain ⟨digest, hdigest⟩ : ∃ digest, digestPayload hashes = some digest := by
    unfold digestPayload
    rw [h.md5, if_neg (by simp)]
    exact ⟨_, rfl⟩
  obtain ⟨xml, hxml⟩ : ∃ xml, xhashXml hashes = some xml := by
    unfold xhashXml
    rw [h.md5, if_neg (by simp)]
    exact ⟨_, rfl⟩
  have hxhash : xhashPayload (codec.zlibEncode level) hashes =
      some (codec.zlibEncode level (xmlBytes xml)) := by
    rw [xhashPayload, hxml]
    rfl
  have hread : [HashSection.ewf1Digest digest,
      .ewf1Xhash (codec.zlibEncode level (xmlBytes xml))].mapM
        (HashSection.entries (ewf1MetadataPayload codec .zlib)) =
      .ok [hashEntry "MD5" (parseNonzeroHash 16 md5) ++ hashEntry "SHA1" (parseNonzeroHash 20 sha1),
        hashes.typedPairs ++ hashes.otherPairs.filterMap trimmedPair] := by
    rw [List.mapM_cons, entries_digestPayload h hdigest, ok_bind, List.mapM_cons, HashSection.entries,
      ewf1MetadataPayload_zlibEncode hlaw level (hreadable.size xml hxml), ok_bind,
      xhashEntries_eq hxml hwords hreadable.tags]
    rfl
  have hagree := agree_writtenEntries h hwords
  have hflatten : [hashEntry "MD5" (parseNonzeroHash 16 md5) ++
      hashEntry "SHA1" (parseNonzeroHash 20 sha1),
        hashes.typedPairs ++ hashes.otherPairs.filterMap trimmedPair].flatten =
      writtenEntries hashes md5 sha1 := by
    rw [writtenEntries, List.flatten_cons, List.flatten_cons, List.flatten_nil, List.append_nil]
  obtain ⟨stored, hstored⟩ := (@exists_openStoredHashes_iff (ewf1MetadataPayload codec .zlib)
    [[.ewf1Digest digest, .ewf1Xhash (codec.zlibEncode level (xmlBytes xml))]]).mpr
      ⟨_, by rw [List.flatten_cons, List.flatten_nil, List.append_nil]; exact hread,
        by rw [hflatten]; exact hagree⟩
  obtain ⟨lists, hlists, -, hget, hmd5, hsha1⟩ := openStoredHashes_eq_ok hstored
  rw [List.flatten_cons, List.flatten_nil, List.append_nil, hread] at hlists
  obtain rfl := Except.ok.inj hlists
  rw [hflatten] at hget
  obtain ⟨hfirstMd5, hfirstSha1, hfirstSha256⟩ := firstValue_writtenEntries h hwords
  have hlower : ∀ data : Bytes, String.ofList (lowered (hexString data)) = hexString data := by
    intro data
    have hsame := hexString_of_parseHexArray (parseHexArray_hexString data)
    exact hsame.symm
  have hMd5 : stored.hashValues.get "MD5" = some (hexString md5) := by
    rw [hget, mergedValue, if_pos (.inl rfl), hfirstMd5, Option.map_some, hlower]
  have hSha1 : stored.hashValues.get "SHA1" = some (hexString sha1) := by
    rw [hget, mergedValue, if_pos (.inr rfl), hfirstSha1, Option.map_some, hlower]
  have hnot : ¬ Typed "SHA256" := by decide
  have hsteps : ∃ segment, segmentHashes (ewf1MetadataPayload codec .zlib)
      [.ewf1Digest digest, .ewf1Xhash (codec.zlibEncode level (xmlBytes xml))] = .ok segment ∧
      mergeHashes {} segment = .ok stored := by
    rw [openStoredHashes, List.foldlM_cons, bind_eq_ok] at hstored
    obtain ⟨merged, hmerged, hrest⟩ := hstored
    rw [List.foldlM_nil, pure_eq_ok, Except.ok.injEq] at hrest
    rw [hrest] at hmerged
    exact bind_eq_ok.mp hmerged
  obtain ⟨segment, hsegment, hmerge⟩ := hsteps
  refine ⟨digest, _, segment, stored, hdigest, hxhash, hsegment, hmerge, ?_, ?_, ?_⟩
  · rw [hmd5, hMd5, Option.bind_some, ← h.length_md5, parseHexArray_hexString]
  · rw [hsha1, hSha1, Option.bind_some, ← h.length_sha1, parseHexArray_hexString]
  · rw [hget, mergedValue, if_neg hnot, hfirstSha256]

end EwfImage
