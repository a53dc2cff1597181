import EwfImage.Image.HexDigests
import EwfImage.Image.StoredHashes
import EwfImage.Lib.Collecting

/-!
# Stored digests in any order

Opening an image succeeds exactly when every section can be read and the digests `Agree`.
What is stored then follows from the digests of all sections in their order (`HoldsEntries`), and
two orders of the same sections store the same up to the identifiers that are not checked.

The main result is `openStoredHashes_spec`, about any number of segments with any digest
sections in any order. Opening succeeds exactly when every section can be read and the digests
of one algorithm agree up to letter case; the typed digests then are those of the texts, and the
order of the sections only decides which text of an identifier stands that nothing checks. The
payloads of the sections are given; parsing them is part of `Image.StoredHashes`.
-/

namespace EwfImage

open Fallible

/-! ## Identifiers -/

/-- The identifier under which a digest is stored. -/
def storedIdentifier (identifier : String) : String :=
  (canonicalIdentifier identifier).getD identifier

theorem canonicalIdentifier_canonical {identifier canonical : String}
    (h : canonicalIdentifier identifier = some canonical) :
    canonicalIdentifier canonical = some canonical := by
  have hmem := List.mem_of_find?_eq_some h
  have hall : ∀ known ∈ ["MD5", "SHA1", "SHA256"], canonicalIdentifier known = some known := by
    decide
  exact hall canonical hmem

theorem canonicalIdentifier_storedIdentifier (identifier : String) :
    canonicalIdentifier (storedIdentifier identifier) = canonicalIdentifier identifier := by
  cases h : canonicalIdentifier identifier with
  | none => rw [storedIdentifier, h, Option.getD_none, h]
  | some canonical =>
    rw [storedIdentifier, h, Option.getD_some]
    exact canonicalIdentifier_canonical h

theorem storedIdentifier_storedIdentifier (identifier : String) :
    storedIdentifier (storedIdentifier identifier) = storedIdentifier identifier := by
  rw [storedIdentifier, canonicalIdentifier_storedIdentifier]
  cases h : canonicalIdentifier identifier with
  | none => rfl
  | some canonical => rw [Option.getD_some, storedIdentifier, h, Option.getD_some]

/-- Only an identifier of the algorithm is stored under the name of the algorithm. -/
theorem storedIdentifier_eq_iff {identifier canonical : String}
    (h : canonicalIdentifier canonical = some canonical) :
    storedIdentifier identifier = canonical ↔ canonicalIdentifier identifier = some canonical := by
  constructor
  · intro heq
    rw [← canonicalIdentifier_storedIdentifier, heq]
    exact h
  · intro heq
    rw [storedIdentifier, heq, Option.getD_some]

/-! ## Texts by identifier -/

theorem HashValues.get_insert (values : HashValues) (identifier value key : String) :
    (values.insert identifier value).get key =
      if key = identifier then some value else values.get key := by
  induction values with
  | nil =>
    rw [insert, get, List.lookup_cons, get]
    by_cases hkey : key = identifier
    · rw [if_pos hkey, hkey, beq_self_eq_true]
    · rw [if_neg hkey, beq_eq_false_iff_ne.mpr hkey]
  | cons entry rest ih =>
    obtain ⟨stored, old⟩ := entry
    rw [insert]
    by_cases heq : identifier = stored
    · rw [if_pos heq, get, get, List.lookup_cons, List.lookup_cons, heq]
      by_cases hkey : key = stored
      · rw [if_pos hkey, hkey, beq_self_eq_true]
      · rw [if_neg hkey, beq_eq_false_iff_ne.mpr hkey]
    · rw [if_neg heq]
      by_cases hlt : identifier < stored
      · rw [if_pos hlt, get, get, List.lookup_cons]
        by_cases hkey : key = identifier
        · rw [if_pos hkey, hkey, beq_self_eq_true]
        · rw [if_neg hkey, beq_eq_false_iff_ne.mpr hkey]
      · rw [if_neg hlt, get, List.lookup_cons, get, List.lookup_cons]
        by_cases hkey : key = stored
        · have hne : key ≠ identifier := fun h => heq (h.symm.trans hkey)
          rw [if_neg hne, hkey, beq_self_eq_true]
        · rw [beq_eq_false_iff_ne.mpr hkey]
          exact ih

theorem HashValues.mem_insert {values : HashValues} {identifier value : String}
    {stored : String × String} (h : stored ∈ values.insert identifier value) :
    stored = (identifier, value) ∨ stored ∈ values := by
  induction values with
  | nil => exact .inl (List.mem_singleton.mp h)
  | cons entry rest ih =>
    obtain ⟨key, old⟩ := entry
    rw [insert] at h
    by_cases heq : identifier = key
    · rw [if_pos heq, ← heq] at h
      rcases List.mem_cons.mp h with hfirst | hrest
      · exact .inl hfirst
      · exact .inr (List.mem_cons_of_mem _ hrest)
    · rw [if_neg heq] at h
      by_cases hlt : identifier < key
      · rw [if_pos hlt] at h
        exact List.mem_cons.mp h
      · rw [if_neg hlt] at h
        rcases List.mem_cons.mp h with hfirst | hrest
        · exact .inr (hfirst ▸ List.mem_cons_self)
        · exact (ih hrest).imp_right (List.mem_cons_of_mem _)

/-- A text that is there stays. -/
theorem HashValues.get_orInsert (values : HashValues) (identifier value key : String) :
    (values.orInsert identifier value).get key =
      (values.get key).or (if identifier = key then some value else none) := by
  rw [orInsert]
  by_cases hkey : identifier = key
  · subst hkey
    rw [if_pos rfl]
    cases hget : values.get identifier with
    | none =>
      rw [Option.isSome_none, if_neg (by decide), get_insert, if_pos rfl, Option.none_or]
    | some old => rw [Option.isSome_some, if_pos rfl, hget, Option.some_or]
  · rw [if_neg hkey, Option.or_none]
    split
    · rfl
    · rw [get_insert, if_neg (Ne.symm hkey)]

theorem HashValues.mem_orInsert {values : HashValues} {identifier value : String}
    {stored : String × String} (h : stored ∈ values.orInsert identifier value) :
    stored = (identifier, value) ∨ stored ∈ values := by
  rw [orInsert] at h
  split at h
  · exact .inr h
  · exact mem_insert h

/-! ## Entries -/

/-- The text of the first entry for an identifier. -/
def firstValue (entries : List (String × String)) (identifier : String) : Option String :=
  (entries.find? fun entry => storedIdentifier entry.1 = identifier).map Prod.snd

theorem firstValue_append (entries others : List (String × String)) (identifier : String) :
    firstValue (entries ++ others) identifier =
      (firstValue entries identifier).or (firstValue others identifier) := by
  rw [firstValue, List.find?_append, firstValue, firstValue]
  cases entries.find? fun entry => storedIdentifier entry.1 = identifier with
  | none => rfl
  | some entry => rfl

theorem firstValue_singleton (entry : String × String) (identifier : String) :
    firstValue [entry] identifier =
      if storedIdentifier entry.1 = identifier then some entry.2 else none := by
  rw [firstValue, List.find?_singleton]
  by_cases h : storedIdentifier entry.1 = identifier <;> simp [h]

theorem exists_of_firstValue {entries : List (String × String)} {identifier value : String}
    (h : firstValue entries identifier = some value) :
    ∃ entry ∈ entries, storedIdentifier entry.1 = identifier ∧ entry.2 = value := by
  obtain ⟨entry, hfind, hvalue⟩ := Option.map_eq_some_iff.mp h
  have hkey := List.find?_some hfind
  exact ⟨entry, List.mem_of_find?_eq_some hfind, of_decide_eq_true hkey, hvalue⟩

theorem isSome_firstValue_iff {entries : List (String × String)} {identifier : String} :
    (firstValue entries identifier).isSome = true ↔
      ∃ entry ∈ entries, storedIdentifier entry.1 = identifier := by
  rw [firstValue, Option.isSome_map, List.find?_isSome]
  simp only [decide_eq_true_eq]

/-- What entries say of an algorithm, the letter case left out. -/
def States (entries : List (String × String)) (canonical : String) (digits : List Char) : Prop :=
  ∃ entry ∈ entries, canonicalIdentifier entry.1 = some canonical ∧ lowered entry.2 = digits

theorem states_append {entries others : List (String × String)} {canonical : String}
    {digits : List Char} :
    States (entries ++ others) canonical digits ↔
      States entries canonical digits ∨ States others canonical digits := by
  simp only [States, List.mem_append, or_and_right, exists_or]

/-- Entries that can be stored together: the digests of the known algorithms are hexadecimal of the
required length, and those of one algorithm differ at most in letter case. -/
structure Agree (entries : List (String × String)) : Prop where
  valid : ∀ entry ∈ entries, ∀ canonical, canonicalIdentifier entry.1 = some canonical →
    (parseHexArray (digestSize canonical) entry.2).isSome = true
  equal : ∀ entry ∈ entries, ∀ other ∈ entries, ∀ canonical,
    canonicalIdentifier entry.1 = some canonical → canonicalIdentifier other.1 = some canonical →
      eqIgnoreAsciiCase entry.2 other.2 = true

theorem Agree.of_subset {entries others : List (String × String)} (h : Agree others)
    (hsub : entries ⊆ others) : Agree entries where
  valid entry hentry := h.valid entry (hsub hentry)
  equal entry hentry other hother := h.equal entry (hsub hentry) other (hsub hother)

theorem agree_nil : Agree [] where
  valid _ h := absurd h List.not_mem_nil
  equal _ h := absurd h List.not_mem_nil

/-- Whether entries agree follows from what they say. -/
theorem agree_iff_states {entries : List (String × String)} :
    Agree entries ↔
      (∀ canonical digits, States entries canonical digits →
        ∃ digest : Bytes, digest.length = digestSize canonical ∧ digits = digest.flatMap hexPair) ∧
      (∀ canonical digits digits', States entries canonical digits →
        States entries canonical digits' → digits = digits') := by
  constructor
  · intro h
    constructor
    · rintro canonical digits ⟨entry, hentry, hcanonical, rfl⟩
      obtain ⟨digest, hdigest⟩ := Option.isSome_iff_exists.mp
        (h.valid entry hentry canonical hcanonical)
      exact ⟨digest, parseHexArray_eq_some_iff.mp hdigest⟩
    · rintro canonical _ _ ⟨entry, hentry, hcanonical, rfl⟩ ⟨other, hother, hcanonical', rfl⟩
      exact eqIgnoreAsciiCase_iff.mp
        (h.equal entry hentry other hother canonical hcanonical hcanonical')
  · rintro ⟨hvalid, hequal⟩
    constructor
    · intro entry hentry canonical hcanonical
      obtain ⟨digest, hdigest⟩ := hvalid canonical _ ⟨entry, hentry, hcanonical, rfl⟩
      rw [parseHexArray_eq_some_iff.mpr hdigest]
      rfl
    · intro entry hentry other hother canonical hcanonical hcanonical'
      exact eqIgnoreAsciiCase_iff.mpr (hequal canonical _ _ ⟨entry, hentry, hcanonical, rfl⟩
        ⟨other, hother, hcanonical', rfl⟩)

theorem agree_congr {entries others : List (String × String)}
    (h : ∀ canonical digits, States entries canonical digits ↔ States others canonical digits) :
    Agree entries ↔ Agree others := by
  rw [agree_iff_states, agree_iff_states]
  simp only [h]

/-- One more entry agrees with the entries that agree exactly when it is valid and equal to the one
that is stored. -/
theorem agree_concat_iff {entries : List (String × String)} {identifier value canonical : String}
    (h : Agree entries) (hcanonical : canonicalIdentifier identifier = some canonical) :
    Agree (entries ++ [(identifier, value)]) ↔
      (parseHexArray (digestSize canonical) value).isSome = true ∧
        ∀ old, firstValue entries canonical = some old → lowered old = lowered value := by
  have hknown := canonicalIdentifier_canonical hcanonical
  constructor
  · intro hall
    have hlast : (identifier, value) ∈ entries ++ [(identifier, value)] := by simp
    refine ⟨hall.valid _ hlast canonical hcanonical, ?_⟩
    intro old hold
    obtain ⟨entry, hentry, hstored, rfl⟩ := exists_of_firstValue hold
    have hsame := (storedIdentifier_eq_iff hknown).mp hstored
    exact eqIgnoreAsciiCase_iff.mp
      (hall.equal entry (List.mem_append_left _ hentry) _ hlast canonical hsame hcanonical)
  · rintro ⟨hvalid, hequal⟩
    have hold : ∀ entry ∈ entries, canonicalIdentifier entry.1 = some canonical →
        lowered entry.2 = lowered value := by
      intro entry hentry hentry'
      have hstored := (storedIdentifier_eq_iff hknown).mpr hentry'
      obtain ⟨old, hfirst⟩ := Option.isSome_iff_exists.mp
        (isSome_firstValue_iff.mpr ⟨entry, hentry, hstored⟩)
      obtain ⟨first, hmem, hfirstKey, rfl⟩ := exists_of_firstValue hfirst
      have hsame := eqIgnoreAsciiCase_iff.mp (h.equal entry hentry first hmem canonical hentry'
        ((storedIdentifier_eq_iff hknown).mp hfirstKey))
      rw [hsame]
      exact hequal _ hfirst
    constructor
    · intro entry hentry other hother
      rcases List.mem_append.mp hentry with hmem | hmem
      · exact h.valid entry hmem other hother
      · rw [List.mem_singleton.mp hmem, hcanonical] at hother
        cases hother
        rw [List.mem_singleton.mp hmem]
        exact hvalid
    · intro entry hentry other hother known hentryKey hotherKey
      rw [eqIgnoreAsciiCase_iff]
      rcases List.mem_append.mp hentry with hmem | hmem <;>
        rcases List.mem_append.mp hother with hmem' | hmem'
      · exact eqIgnoreAsciiCase_iff.mp (h.equal entry hmem other hmem' known hentryKey hotherKey)
      · rw [List.mem_singleton.mp hmem'] at hotherKey ⊢
        rw [hcanonical] at hotherKey
        cases hotherKey
        exact hold entry hmem hentryKey
      · rw [List.mem_singleton.mp hmem] at hentryKey ⊢
        rw [hcanonical] at hentryKey
        cases hentryKey
        exact (hold other hmem' hotherKey).symm
      · rw [List.mem_singleton.mp hmem, List.mem_singleton.mp hmem']

/-- An entry of another algorithm agrees with everything. -/
theorem agree_concat_of_none {entries : List (String × String)} {identifier value : String}
    (h : canonicalIdentifier identifier = none) :
    Agree (entries ++ [(identifier, value)]) ↔ Agree entries := by
  apply agree_congr
  intro canonical digits
  rw [states_append]
  constructor
  · rintro (hstates | ⟨entry, hentry, hcanonical, _⟩)
    · exact hstates
    · rw [List.mem_singleton.mp hentry, h] at hcanonical
      cases hcanonical
  · exact .inl

/-! ## Storing -/

/-- The stored digests are those of the entries; the first text of an identifier stands. -/
structure HoldsEntries (hashes : StoredHashes) (entries : List (String × String)) : Prop where
  get : ∀ identifier, hashes.hashValues.get identifier = firstValue entries identifier
  source : ∀ stored ∈ hashes.hashValues, ∃ entry ∈ entries,
    stored = (storedIdentifier entry.1, entry.2)
  md5 : hashes.md5 = (firstValue entries "MD5").bind (parseHexArray 16)
  sha1 : hashes.sha1 = (firstValue entries "SHA1").bind (parseHexArray 20)

theorem holds_empty : HoldsEntries {} [] where
  get _ := rfl
  source _ h := absurd h List.not_mem_nil
  md5 := rfl
  sha1 := rfl

/-- The typed digest stays the one of the first text. -/
theorem mergeTyped_eq_ok_iff {entries : List (String × String)} {identifier value : String}
    {size : Nat} {typed : Option Bytes}
    (hsame : ∀ old, firstValue entries identifier = some old → lowered old = lowered value) :
    mergeTyped ((firstValue entries identifier).bind (parseHexArray size))
        (parseHexArray size value) identifier = .ok typed ↔
      typed = ((firstValue entries identifier).or (some value)).bind (parseHexArray size) := by
  rw [mergeTyped]
  cases hfirst : firstValue entries identifier with
  | none =>
    rw [Option.bind_none, rejectIf_neg _ (fun h => (by cases h.1)), ok_bind, pure_eq_ok,
      Except.ok.injEq, Option.none_or, Option.bind_some]
    exact eq_comm
  | some old =>
    have hparse : parseHexArray size old = parseHexArray size value :=
      parseHexArray_congr (hsame old hfirst)
    rw [Option.bind_some, hparse, rejectIf_neg _ (fun h => h.2 rfl), ok_bind, pure_eq_ok,
      Except.ok.injEq, Option.some_or, Option.bind_some, hparse]
    exact eq_comm

/-- An entry of another algorithm is always stored. -/
theorem holds_insert_of_none {hashes : StoredHashes} {entries : List (String × String)}
    {identifier value : String} (h : HoldsEntries hashes entries)
    (hnone : canonicalIdentifier identifier = none) :
    HoldsEntries { hashes with hashValues := hashes.hashValues.orInsert identifier value }
      (entries ++ [(identifier, value)]) := by
  have hstored : storedIdentifier identifier = identifier := by
    rw [storedIdentifier, hnone, Option.getD_none]
  have hother : ∀ known, canonicalIdentifier known = some known →
      firstValue (entries ++ [(identifier, value)]) known = firstValue entries known := by
    intro known hknown
    have hne : identifier ≠ known := by
      rintro rfl
      rw [hnone] at hknown
      cases hknown
    rw [firstValue_append, firstValue_singleton, hstored, if_neg hne, Option.or_none]
  constructor
  · intro key
    rw [HashValues.get_orInsert, h.get, firstValue_append, firstValue_singleton, hstored]
  · intro stored hmem
    rcases HashValues.mem_orInsert hmem with rfl | hmem
    · exact ⟨(identifier, value), by simp, by rw [hstored]⟩
    · obtain ⟨entry, hentry, heq⟩ := h.source stored hmem
      exact ⟨entry, List.mem_append_left _ hentry, heq⟩
  · rw [hother "MD5" (by decide)]
    exact h.md5
  · rw [hother "SHA1" (by decide)]
    exact h.sha1

/-- The field of a typed digest after an insertion. -/
theorem typed_insert_iff {entries : List (String × String)} {canonical value name : String}
    {size : Nat} {field typed : Option Bytes}
    (hfield : field = (firstValue entries name).bind (parseHexArray size))
    (hsame : ∀ old, firstValue entries canonical = some old → lowered old = lowered value) :
    (if canonical = name then mergeTyped field (parseHexArray size value) canonical
        else .ok field) = .ok typed ↔
      typed = ((firstValue entries name).or (if canonical = name then some value else none)).bind
        (parseHexArray size) := by
  by_cases hname : canonical = name
  · subst hname
    rw [if_pos rfl, if_pos rfl, hfield]
    exact mergeTyped_eq_ok_iff hsame
  · rw [if_neg hname, if_neg hname, Option.or_none, ← hfield, Except.ok.injEq]
    exact eq_comm

/-- An entry is stored exactly when it agrees with those that are stored. -/
theorem insertStoredHash_spec {hashes : StoredHashes} {entries : List (String × String)}
    (h : HoldsEntries hashes entries) (hagree : Agree entries) (identifier value : String) :
    ((∃ result, insertStoredHash hashes identifier value = .ok result) ↔
        Agree (entries ++ [(identifier, value)])) ∧
      ∀ result, insertStoredHash hashes identifier value = .ok result →
        HoldsEntries result (entries ++ [(identifier, value)]) := by
  rw [insertStoredHash]
  cases hcanonical : canonicalIdentifier identifier with
  | none =>
    rw [agree_concat_of_none hcanonical]
    refine ⟨⟨fun _ => hagree, fun _ => ⟨_, rfl⟩⟩, ?_⟩
    rintro result hresult
    cases hresult
    exact holds_insert_of_none h hcanonical
  | some canonical =>
    have hknown := canonicalIdentifier_canonical hcanonical
    have hstored : storedIdentifier identifier = canonical :=
      (storedIdentifier_eq_iff hknown).mpr hcanonical
    have hrun : ∀ result, (do
          validateDigest canonical value
          rejectIf ((hashes.hashValues.get canonical).any fun old => !eqIgnoreAsciiCase old value)
            (.malformed s!"conflicting stored {canonical} digests")
          let md5 ← (if canonical = "MD5" then
            mergeTyped hashes.md5 (parseHexArray 16 value) canonical else .ok hashes.md5)
          let sha1 ← (if canonical = "SHA1" then
            mergeTyped hashes.sha1 (parseHexArray 20 value) canonical else .ok hashes.sha1)
          return { md5, sha1, hashValues := hashes.hashValues.orInsert canonical value } :
            Result StoredHashes) = .ok result ↔
        Agree (entries ++ [(identifier, value)]) ∧
          result = {
            md5 := (firstValue (entries ++ [(identifier, value)]) "MD5").bind (parseHexArray 16)
            sha1 := (firstValue (entries ++ [(identifier, value)]) "SHA1").bind (parseHexArray 20)
            hashValues := hashes.hashValues.orInsert canonical value } := by
      intro result
      rw [agree_concat_iff hagree hcanonical, firstValue_append, firstValue_append,
        firstValue_singleton, firstValue_singleton, hstored, validateDigest, hknown]
      have hany : ¬ ((hashes.hashValues.get canonical).any
            fun old => !eqIgnoreAsciiCase old value) = true ↔
          ∀ old, firstValue entries canonical = some old → lowered old = lowered value := by
        rw [h.get]
        cases firstValue entries canonical with
        | none => simp
        | some old => simp [eqIgnoreAsciiCase_iff]
      simp only [bind_eq_ok, rejectIf_eq_ok, hany, exists_const, Bool.not_eq_false, pure_eq_ok,
        Except.ok.injEq, and_assoc]
      constructor
      · rintro ⟨hvalid, hsame, md5, hmd5, sha1, hsha1, rfl⟩
        rw [typed_insert_iff h.md5 hsame] at hmd5
        rw [typed_insert_iff h.sha1 hsame] at hsha1
        exact ⟨hvalid, hsame, by rw [hmd5, hsha1]⟩
      · rintro ⟨hvalid, hsame, rfl⟩
        exact ⟨hvalid, hsame, _, (typed_insert_iff h.md5 hsame).mpr rfl, _,
          (typed_insert_iff h.sha1 hsame).mpr rfl, rfl⟩
    refine ⟨⟨?_, fun hall => ⟨_, (hrun _).mpr ⟨hall, rfl⟩⟩⟩, ?_⟩
    · rintro ⟨result, hresult⟩
      exact ((hrun result).mp hresult).1
    · intro result hresult
      obtain ⟨_, rfl⟩ := (hrun result).mp hresult
      refine ⟨?_, ?_, rfl, rfl⟩
      · intro key
        rw [HashValues.get_orInsert, h.get, firstValue_append, firstValue_singleton, hstored]
      · intro stored hmem
        rcases HashValues.mem_orInsert hmem with rfl | hmem
        · exact ⟨(identifier, value), by simp, by rw [hstored]⟩
        · obtain ⟨entry, hentry, heq⟩ := h.source stored hmem
          exact ⟨entry, List.mem_append_left _ hentry, heq⟩

/-- A list of entries is stored exactly when it agrees with what is stored. -/
theorem insertAll_spec {hashes : StoredHashes} {entries : List (String × String)}
    (h : HoldsEntries hashes entries) (hagree : Agree entries) (others : List (String × String)) :
    ((∃ result, insertAll hashes others = .ok result) ↔ Agree (entries ++ others)) ∧
      ∀ result, insertAll hashes others = .ok result → HoldsEntries result (entries ++ others) := by
  induction others generalizing hashes entries with
  | nil =>
    rw [List.append_nil]
    refine ⟨⟨fun _ => hagree, fun _ => ⟨hashes, rfl⟩⟩, ?_⟩
    rintro result hresult
    cases hresult
    exact h
  | cons entry others ih =>
    obtain ⟨identifier, value⟩ := entry
    obtain ⟨haccept, hholds⟩ := insertStoredHash_spec h hagree identifier value
    have happend : entries ++ (identifier, value) :: others =
        (entries ++ [(identifier, value)]) ++ others := by simp
    have hrun : ∀ result, insertAll hashes ((identifier, value) :: others) = .ok result ↔
        ∃ middle, insertStoredHash hashes identifier value = .ok middle ∧
          insertAll middle others = .ok result := by
      intro result
      rw [insertAll, List.foldlM_cons, bind_eq_ok]
      rfl
    rw [happend]
    constructor
    · constructor
      · rintro ⟨result, hresult⟩
        obtain ⟨middle, hmiddle, hrest⟩ := (hrun result).mp hresult
        have hfront := haccept.mp ⟨middle, hmiddle⟩
        exact (ih (hholds middle hmiddle) hfront).1.mp ⟨result, hrest⟩
      · intro hall
        have hfront := hall.of_subset (List.subset_append_left _ _)
        obtain ⟨middle, hmiddle⟩ := haccept.mpr hfront
        obtain ⟨result, hrest⟩ := (ih (hholds middle hmiddle) hfront).1.mpr hall
        exact ⟨result, (hrun result).mpr ⟨middle, hmiddle, hrest⟩⟩
    · intro result hresult
      obtain ⟨middle, hmiddle, hrest⟩ := (hrun result).mp hresult
      have hfront := haccept.mp ⟨middle, hmiddle⟩
      exact (ih (hholds middle hmiddle) hfront).2 result hrest

/-! ## Merging segments -/

/-- The identifiers whose texts are written from the digest when segments are merged. -/
def Typed (identifier : String) : Prop := identifier = "MD5" ∨ identifier = "SHA1"

instance (identifier : String) : Decidable (Typed identifier) :=
  inferInstanceAs (Decidable (_ ∨ _))

/-- The text for an identifier after merging. -/
def mergedValue (entries : List (String × String)) (identifier : String) : Option String :=
  if Typed identifier then (firstValue entries identifier).map fun value =>
    String.ofList (lowered value)
  else firstValue entries identifier

theorem mergedValue_append (entries others : List (String × String)) (identifier : String) :
    mergedValue (entries ++ others) identifier =
      (mergedValue entries identifier).or (mergedValue others identifier) := by
  rw [mergedValue, mergedValue, mergedValue, firstValue_append]
  split
  · cases firstValue entries identifier with
    | none => rfl
    | some value => rfl
  · rfl

/-- The entries that are merged say the same as those of the sections. -/
structure Merges (merged entries : List (String × String)) : Prop where
  states : ∀ canonical digits, States merged canonical digits ↔ States entries canonical digits
  value : ∀ identifier, firstValue merged identifier = mergedValue entries identifier

theorem merges_nil : Merges [] [] where
  states _ _ := Iff.rfl
  value identifier := by
    rw [mergedValue]
    split <;> rfl

theorem Merges.append {merged entries merged' entries' : List (String × String)}
    (h : Merges merged entries) (h' : Merges merged' entries') :
    Merges (merged ++ merged') (entries ++ entries') where
  states canonical digits := by rw [states_append, states_append, h.states, h'.states]
  value identifier := by
    rw [firstValue_append, mergedValue_append, h.value, h'.value]

theorem Merges.agree_iff {merged entries : List (String × String)} (h : Merges merged entries) :
    Agree merged ↔ Agree entries :=
  agree_congr h.states

theorem firstValue_hashEntry (name : String) (hash : Option Bytes) (identifier : String)
    (hname : storedIdentifier name = name) :
    firstValue (hashEntry name hash) identifier =
      if name = identifier then hash.map hexString else none := by
  cases hash with
  | none =>
    rw [Option.map_none, ite_self]
    rfl
  | some digest =>
    change firstValue [(name, hexString digest)] identifier = _
    rw [firstValue_singleton, hname, Option.map_some]

/-- The texts that are kept under stored identifiers are found under them. -/
theorem firstValue_eq_get {values : HashValues}
    (h : ∀ stored ∈ values, storedIdentifier stored.1 = stored.1) (identifier : String) :
    firstValue values identifier = values.get identifier := by
  induction values with
  | nil => rfl
  | cons stored values ih =>
    obtain ⟨key, value⟩ := stored
    have hkey := h (key, value) List.mem_cons_self
    have hrest := ih fun stored hmem => h stored (List.mem_cons_of_mem _ hmem)
    have happend := firstValue_append [(key, value)] values identifier
    rw [List.singleton_append] at happend
    rw [happend, firstValue_singleton, hkey, HashValues.get, List.lookup_cons, hrest]
    by_cases heq : key = identifier
    · rw [if_pos heq, heq, beq_self_eq_true, Option.some_or]
    · rw [if_neg heq, Option.none_or, beq_eq_false_iff_ne.mpr (Ne.symm heq)]
      rfl

/-- The text of a typed digest is the text it was read from, in lower case. -/
theorem map_hexString_typed {entries : List (String × String)} {name : String}
    (hagree : Agree entries) (hname : canonicalIdentifier name = some name) (size : Nat)
    (hsize : digestSize name = size) :
    ((firstValue entries name).bind (parseHexArray size)).map hexString =
      (firstValue entries name).map fun value => String.ofList (lowered value) := by
  cases hfirst : firstValue entries name with
  | none => rfl
  | some value =>
    obtain ⟨entry, hentry, hstored, rfl⟩ := exists_of_firstValue hfirst
    have hvalid := hagree.valid entry hentry name ((storedIdentifier_eq_iff hname).mp hstored)
    rw [hsize] at hvalid
    obtain ⟨digest, hdigest⟩ := Option.isSome_iff_exists.mp hvalid
    rw [Option.bind_some, hdigest, Option.map_some, Option.map_some,
      hexString_of_parseHexArray hdigest]

/-- What a typed digest says is said by an entry of the algorithm. -/
theorem states_of_typed {entries : List (String × String)} {name : String} {size : Nat}
    (hname : canonicalIdentifier name = some name) {stored : String × String}
    (h : stored ∈ hashEntry name ((firstValue entries name).bind (parseHexArray size))) :
    ∃ entry ∈ entries, canonicalIdentifier entry.1 = canonicalIdentifier stored.1 ∧
      lowered entry.2 = lowered stored.2 := by
  rw [hashEntry, List.mem_map] at h
  obtain ⟨digest, hdigest, rfl⟩ := h
  obtain ⟨value, hfirst, hparse⟩ := Option.bind_eq_some_iff.mp (Option.mem_toList.mp hdigest)
  obtain ⟨entry, hentry, hstored, rfl⟩ := exists_of_firstValue hfirst
  refine ⟨entry, hentry, ?_, ?_⟩
  · rw [hname]
    exact (storedIdentifier_eq_iff hname).mp hstored
  · rw [lowered_hexString]
    exact (parseHexArray_eq_some_iff.mp hparse).2

/-- What `merge_hashes` stores of a segment merges the entries of the segment. -/
theorem merges_entries {hashes : StoredHashes} {entries : List (String × String)}
    (h : HoldsEntries hashes entries) (hagree : Agree entries) : Merges hashes.entries entries := by
  have hmd5 : canonicalIdentifier "MD5" = some "MD5" := by decide
  have hsha1 : canonicalIdentifier "SHA1" = some "SHA1" := by decide
  constructor
  · intro canonical digits
    constructor
    · rintro ⟨stored, hmem, hcanonical, rfl⟩
      have hfound : ∃ entry ∈ entries, canonicalIdentifier entry.1 = canonicalIdentifier stored.1 ∧
          lowered entry.2 = lowered stored.2 := by
        rw [StoredHashes.entries, List.mem_append, List.mem_append, h.md5, h.sha1] at hmem
        rcases hmem with (hmem | hmem) | hmem
        · exact states_of_typed hmd5 hmem
        · exact states_of_typed hsha1 hmem
        · obtain ⟨entry, hentry, rfl⟩ := h.source stored hmem
          exact ⟨entry, hentry, (canonicalIdentifier_storedIdentifier _).symm, rfl⟩
      obtain ⟨entry, hentry, hsame, hlower⟩ := hfound
      exact ⟨entry, hentry, hsame.trans hcanonical, hlower⟩
    · rintro ⟨entry, hentry, hcanonical, rfl⟩
      have hknown := canonicalIdentifier_canonical hcanonical
      obtain ⟨value, hfirst⟩ := Option.isSome_iff_exists.mp (isSome_firstValue_iff.mpr
        ⟨entry, hentry, (storedIdentifier_eq_iff hknown).mpr hcanonical⟩)
      obtain ⟨first, hmem, hstored, rfl⟩ := exists_of_firstValue hfirst
      have hget := h.get canonical
      rw [hfirst, HashValues.get] at hget
      obtain ⟨before, behind, hsplit, _⟩ := List.lookup_eq_some_iff.mp hget
      refine ⟨(canonical, first.2), ?_, hknown, ?_⟩
      · rw [StoredHashes.entries, hsplit]
        simp
      · exact eqIgnoreAsciiCase_iff.mp (hagree.equal first hmem entry hentry canonical
          ((storedIdentifier_eq_iff hknown).mp hstored) hcanonical)
  · intro identifier
    have hkeys : ∀ stored ∈ hashes.hashValues, storedIdentifier stored.1 = stored.1 := by
      intro stored hmem
      obtain ⟨entry, _, rfl⟩ := h.source stored hmem
      exact storedIdentifier_storedIdentifier entry.1
    have htext := map_hexString_typed hagree hmd5 16 rfl
    have htext' := map_hexString_typed hagree hsha1 20 rfl
    rw [StoredHashes.entries, firstValue_append, firstValue_append,
      firstValue_hashEntry _ _ _ (by decide), firstValue_hashEntry _ _ _ (by decide),
      firstValue_eq_get hkeys, h.get, h.md5, h.sha1, htext, htext', mergedValue]
    by_cases heq : "MD5" = identifier
    · subst heq
      rw [if_pos rfl, if_neg (by decide), if_pos (.inl rfl), Option.or_none]
      cases firstValue entries "MD5" with
      | none => rfl
      | some value => rfl
    · by_cases heq' : "SHA1" = identifier
      · subst heq'
        rw [if_neg heq, if_pos rfl, if_pos (.inr rfl), Option.none_or]
        cases firstValue entries "SHA1" with
        | none => rfl
        | some value => rfl
      · have hnot : ¬ Typed identifier := fun h => h.elim (fun h => heq h.symm) fun h => heq' h.symm
        rw [if_neg heq, if_neg heq', if_neg hnot, Option.none_or, Option.none_or]

/-! ## Opening -/

theorem segmentHashes_eq_ok_iff {metadataPayload : Bytes → Result Bytes}
    {sections : List HashSection} {hashes : StoredHashes} :
    segmentHashes metadataPayload sections = .ok hashes ↔
      ∃ lists, sections.mapM (HashSection.entries metadataPayload) = .ok lists ∧
        insertAll {} lists.flatten = .ok hashes :=
  foldlM_bind_eq_ok

/-- Opening goes on with the segments that are left. -/
theorem openStoredHashes_run {metadataPayload : Bytes → Result Bytes} {target : StoredHashes}
    {merged entries : List (String × String)} (htarget : HoldsEntries target merged)
    (hagree : Agree merged) (hmerges : Merges merged entries) (segments : List (List HashSection)) :
    let run := segments.foldlM (fun stored sections => do
      let parsed ← segmentHashes metadataPayload sections
      mergeHashes stored parsed) target
    let read := segments.flatten.mapM (HashSection.entries metadataPayload)
    ((∃ hashes, run = .ok hashes) ↔ ∃ lists, read = .ok lists ∧ Agree (entries ++ lists.flatten)) ∧
      ∀ hashes, run = .ok hashes → ∃ lists merged', read = .ok lists ∧ HoldsEntries hashes merged' ∧
        Agree (entries ++ lists.flatten) ∧ Merges merged' (entries ++ lists.flatten) := by
  induction segments generalizing target merged entries with
  | nil =>
    have hentries := hmerges.agree_iff.mp hagree
    constructor
    · refine ⟨fun _ => ⟨[], rfl, ?_⟩, fun _ => ⟨target, rfl⟩⟩
      rw [List.flatten_nil, List.append_nil]
      exact hentries
    · rintro hashes hrun
      cases hrun
      refine ⟨[], merged, rfl, htarget, ?_, ?_⟩
      · rw [List.flatten_nil, List.append_nil]
        exact hentries
      · rw [List.flatten_nil, List.append_nil]
        exact hmerges
  | cons sections segments ih =>
    intro run read
    -- What the first segment adds.
    have hfirst : ∀ lists parsed, sections.mapM (HashSection.entries metadataPayload) = .ok lists →
        segmentHashes metadataPayload sections = .ok parsed →
        Agree lists.flatten ∧ Merges (merged ++ parsed.entries) (entries ++ lists.flatten) ∧
          ((∃ middle, mergeHashes target parsed = .ok middle) ↔
            Agree (merged ++ parsed.entries)) ∧
          ∀ middle, mergeHashes target parsed = .ok middle →
            HoldsEntries middle (merged ++ parsed.entries) := by
      intro lists parsed hlists hparsed
      obtain ⟨lists', hlists', hinsert⟩ := segmentHashes_eq_ok_iff.mp hparsed
      rw [hlists] at hlists'
      cases hlists'
      obtain ⟨haccept, hholds⟩ := insertAll_spec holds_empty agree_nil lists.flatten
      have hall := haccept.mp ⟨parsed, hinsert⟩
      have hparsedMerges := merges_entries (hholds parsed hinsert) hall
      exact ⟨hall, hmerges.append hparsedMerges, insertAll_spec htarget hagree parsed.entries⟩
    have hsplit : ∀ hashes, run = .ok hashes ↔ ∃ parsed middle,
        segmentHashes metadataPayload sections = .ok parsed ∧
          mergeHashes target parsed = .ok middle ∧
          segments.foldlM (fun stored sections => do
            let parsed ← segmentHashes metadataPayload sections
            mergeHashes stored parsed) middle = .ok hashes := by
      intro hashes
      simp only [run, List.foldlM_cons, bind_eq_ok]
      constructor
      · rintro ⟨middle, ⟨parsed, hparsed, hmerge⟩, hrest⟩
        exact ⟨parsed, middle, hparsed, hmerge, hrest⟩
      · rintro ⟨parsed, middle, hparsed, hmerge, hrest⟩
        exact ⟨middle, ⟨parsed, hparsed, hmerge⟩, hrest⟩
    have hread : ∀ lists, read = .ok lists ↔ ∃ first rest,
        sections.mapM (HashSection.entries metadataPayload) = .ok first ∧
          segments.flatten.mapM (HashSection.entries metadataPayload) = .ok rest ∧
          lists = first ++ rest :=
      fun lists => mapM_append_eq_ok
    have hresult : ∀ hashes, run = .ok hashes → ∃ lists merged', read = .ok lists ∧
        HoldsEntries hashes merged' ∧ Agree (entries ++ lists.flatten) ∧
          Merges merged' (entries ++ lists.flatten) := by
      intro hashes hrun
      obtain ⟨parsed, middle, hparsed, hmerge, hrest⟩ := (hsplit hashes).mp hrun
      obtain ⟨first, hlists, _⟩ := segmentHashes_eq_ok_iff.mp hparsed
      obtain ⟨_, hnext, haccept, hholds⟩ := hfirst first parsed hlists hparsed
      have hmiddle := haccept.mp ⟨middle, hmerge⟩
      obtain ⟨rest, merged', hrestRead, hholds', hagree', hmerges'⟩ :=
        (ih (hholds middle hmerge) hmiddle hnext).2 hashes hrest
      refine ⟨first ++ rest, merged', (hread _).mpr ⟨first, rest, hlists, hrestRead, rfl⟩, hholds',
        ?_, ?_⟩
      · rw [List.flatten_append, ← List.append_assoc]
        exact hagree'
      · rw [List.flatten_append, ← List.append_assoc]
        exact hmerges'
    refine ⟨⟨?_, ?_⟩, hresult⟩
    · rintro ⟨hashes, hrun⟩
      obtain ⟨lists, _, hlists, _, hagree', _⟩ := hresult hashes hrun
      exact ⟨lists, hlists, hagree'⟩
    · rintro ⟨lists, hlists, hall⟩
      obtain ⟨first, rest, hfirstRead, hrestRead, rfl⟩ := (hread lists).mp hlists
      rw [List.flatten_append, ← List.append_assoc] at hall
      have hfront := hall.of_subset (List.subset_append_left _ _)
      have hown := hfront.of_subset (List.subset_append_right _ _)
      obtain ⟨parsed, hinsert⟩ := (insertAll_spec holds_empty agree_nil first.flatten).1.mpr hown
      have hparsed := segmentHashes_eq_ok_iff.mpr ⟨first, hfirstRead, hinsert⟩
      obtain ⟨_, hnext, haccept, hholds⟩ := hfirst first parsed hfirstRead hparsed
      have hmiddle := hnext.agree_iff.mpr hfront
      obtain ⟨middle, hmerge⟩ := haccept.mpr hmiddle
      obtain ⟨hashes, hrun⟩ :=
        (ih (hholds middle hmerge) hmiddle hnext).1.mpr ⟨rest, hrestRead, hall⟩
      exact ⟨hashes, (hsplit hashes).mpr ⟨parsed, middle, hparsed, hmerge, hrun⟩⟩

/-! ## Every order -/

/-- Stored digests that differ at most in the letter case of the SHA256 text and in the texts of
identifiers that are not checked. -/
structure SameDigests (hashes hashes' : StoredHashes) : Prop where
  md5 : hashes.md5 = hashes'.md5
  sha1 : hashes.sha1 = hashes'.sha1
  identifiers : ∀ identifier, (hashes.hashValues.get identifier).isSome =
    (hashes'.hashValues.get identifier).isSome
  texts : ∀ identifier, Typed identifier →
    hashes.hashValues.get identifier = hashes'.hashValues.get identifier
  sha256 : (hashes.hashValues.get "SHA256").map lowered =
    (hashes'.hashValues.get "SHA256").map lowered

/-- An image opened: its digests were read and agree, and are stored as in their order. -/
theorem openStoredHashes_eq_ok {metadataPayload : Bytes → Result Bytes}
    {segments : List (List HashSection)} {hashes : StoredHashes}
    (h : openStoredHashes metadataPayload segments = .ok hashes) :
    ∃ lists, segments.flatten.mapM (HashSection.entries metadataPayload) = .ok lists ∧
      Agree lists.flatten ∧
      (∀ identifier, hashes.hashValues.get identifier = mergedValue lists.flatten identifier) ∧
      hashes.md5 = (hashes.hashValues.get "MD5").bind (parseHexArray 16) ∧
      hashes.sha1 = (hashes.hashValues.get "SHA1").bind (parseHexArray 20) := by
  obtain ⟨lists, merged, hlists, hholds, hagree, hmerges⟩ :=
    (openStoredHashes_run holds_empty agree_nil merges_nil segments).2 hashes h
  rw [List.nil_append] at hagree hmerges
  refine ⟨lists, hlists, hagree, ?_, ?_, ?_⟩
  · intro identifier
    rw [hholds.get, hmerges.value]
  · rw [hholds.get]
    exact hholds.md5
  · rw [hholds.get]
    exact hholds.sha1

theorem exists_openStoredHashes_iff {metadataPayload : Bytes → Result Bytes}
    {segments : List (List HashSection)} :
    (∃ hashes, openStoredHashes metadataPayload segments = .ok hashes) ↔
      ∃ lists, segments.flatten.mapM (HashSection.entries metadataPayload) = .ok lists ∧
        Agree lists.flatten := by
  have h := (@openStoredHashes_run metadataPayload _ _ _ holds_empty agree_nil merges_nil segments).1
  simp only [List.nil_append] at h
  exact h

/-- In permuted entries that agree, the first texts of an algorithm differ at most in letter
case. -/
theorem firstValue_perm {entries entries' : List (String × String)} (h : entries.Perm entries')
    (hagree : Agree entries) {canonical : String}
    (hknown : canonicalIdentifier canonical = some canonical) :
    (firstValue entries canonical).map lowered = (firstValue entries' canonical).map lowered := by
  have hsome : (firstValue entries canonical).isSome = (firstValue entries' canonical).isSome := by
    rw [Bool.eq_iff_iff, isSome_firstValue_iff, isSome_firstValue_iff]
    simp only [h.mem_iff]
  cases hfirst : firstValue entries canonical with
  | none =>
    rw [hfirst, Option.isSome_none] at hsome
    have hnone : firstValue entries' canonical = none := Option.isSome_eq_false_iff.mp hsome.symm |>
      Option.isNone_iff_eq_none.mp
    rw [hnone]
  | some value =>
    rw [hfirst] at hsome
    obtain ⟨value', hfirst'⟩ := Option.isSome_iff_exists.mp hsome.symm
    obtain ⟨entry, hentry, hstored, rfl⟩ := exists_of_firstValue hfirst
    obtain ⟨other, hother, hstored', rfl⟩ := exists_of_firstValue hfirst'
    rw [hfirst', Option.map_some, Option.map_some]
    exact congrArg some (eqIgnoreAsciiCase_iff.mp (hagree.equal entry hentry other
      (h.mem_iff.mpr hother) canonical ((storedIdentifier_eq_iff hknown).mp hstored)
      ((storedIdentifier_eq_iff hknown).mp hstored')))

theorem mergedValue_perm {entries entries' : List (String × String)} (h : entries.Perm entries')
    (hagree : Agree entries) {identifier : String} (htyped : Typed identifier) :
    mergedValue entries identifier = mergedValue entries' identifier := by
  have hknown : canonicalIdentifier identifier = some identifier := by
    rcases htyped with rfl | rfl <;> decide
  have hlower := firstValue_perm h hagree hknown
  have hmap : ∀ value : Option String, (value.map fun value => String.ofList (lowered value)) =
      (value.map lowered).map String.ofList := fun value => by cases value <;> rfl
  rw [mergedValue, mergedValue, if_pos htyped, if_pos htyped, hmap, hmap, hlower]

theorem isSome_mergedValue (entries : List (String × String)) (identifier : String) :
    (mergedValue entries identifier).isSome = (firstValue entries identifier).isSome := by
  rw [mergedValue]
  split
  · rw [Option.isSome_map]
  · rfl

theorem isSome_mergedValue_perm {entries entries' : List (String × String)}
    (h : entries.Perm entries') (identifier : String) :
    (mergedValue entries identifier).isSome = (mergedValue entries' identifier).isSome := by
  rw [isSome_mergedValue, isSome_mergedValue, Bool.eq_iff_iff, isSome_firstValue_iff,
    isSome_firstValue_iff]
  simp only [h.mem_iff]

/-- What is stored in two orders of the same sections. -/
theorem sameDigests_of_perm {metadataPayload : Bytes → Result Bytes}
    {segments segments' : List (List HashSection)} (h : segments.flatten.Perm segments'.flatten)
    {hashes hashes' : StoredHashes} (hopen : openStoredHashes metadataPayload segments = .ok hashes)
    (hopen' : openStoredHashes metadataPayload segments' = .ok hashes') :
    SameDigests hashes hashes' := by
  obtain ⟨lists, hlists, hagree, hget, hmd5, hsha1⟩ := openStoredHashes_eq_ok hopen
  obtain ⟨lists', hlists', _, hget', hmd5', hsha1'⟩ := openStoredHashes_eq_ok hopen'
  obtain ⟨permuted, hpermuted, hperm⟩ := mapM_perm h hlists
  rw [hlists'] at hpermuted
  cases hpermuted
  have hflatten : lists.flatten.Perm lists'.flatten := hperm.flatten
  have htexts : ∀ identifier, Typed identifier →
      hashes.hashValues.get identifier = hashes'.hashValues.get identifier := by
    intro identifier htyped
    rw [hget, hget']
    exact mergedValue_perm hflatten hagree htyped
  refine ⟨?_, ?_, ?_, htexts, ?_⟩
  · rw [hmd5, hmd5', htexts "MD5" (.inl rfl)]
  · rw [hsha1, hsha1', htexts "SHA1" (.inr rfl)]
  · intro identifier
    rw [hget, hget']
    exact isSome_mergedValue_perm hflatten identifier
  · rw [hget, hget', mergedValue, mergedValue, if_neg (by decide), if_neg (by decide)]
    exact firstValue_perm hflatten hagree (by decide)

/-- Opening succeeds exactly when the digests of all sections agree, the typed digests are those of
the texts, and another order of the sections changes neither, up to the texts that are not
checked. The first text of an identifier that is not checked stands. -/
theorem openStoredHashes_spec (metadataPayload : Bytes → Result Bytes)
    (segments : List (List HashSection)) :
    ((∃ hashes, openStoredHashes metadataPayload segments = .ok hashes) ↔
      ∃ lists, segments.flatten.mapM (HashSection.entries metadataPayload) = .ok lists ∧
        Agree lists.flatten) ∧
    (∀ hashes, openStoredHashes metadataPayload segments = .ok hashes →
      hashes.md5 = (hashes.hashValues.get "MD5").bind (parseHexArray 16) ∧
      hashes.sha1 = (hashes.hashValues.get "SHA1").bind (parseHexArray 20) ∧
      ∀ lists, segments.flatten.mapM (HashSection.entries metadataPayload) = .ok lists →
        ∀ identifier, ¬ Typed identifier →
          hashes.hashValues.get identifier = firstValue lists.flatten identifier) ∧
    ∀ segments', segments.flatten.Perm segments'.flatten →
      ((∃ hashes, openStoredHashes metadataPayload segments = .ok hashes) ↔
        ∃ hashes', openStoredHashes metadataPayload segments' = .ok hashes') ∧
      ∀ hashes hashes', openStoredHashes metadataPayload segments = .ok hashes →
        openStoredHashes metadataPayload segments' = .ok hashes' → SameDigests hashes hashes' := by
  have hperm : ∀ segments segments' : List (List HashSection),
      segments.flatten.Perm segments'.flatten →
      (∃ hashes, openStoredHashes metadataPayload segments = .ok hashes) →
      ∃ hashes', openStoredHashes metadataPayload segments' = .ok hashes' := by
    intro segments segments' h hopen
    obtain ⟨lists, hlists, hagree⟩ := exists_openStoredHashes_iff.mp hopen
    obtain ⟨lists', hlists', hlistsPerm⟩ := mapM_perm h hlists
    exact exists_openStoredHashes_iff.mpr
      ⟨lists', hlists', hagree.of_subset hlistsPerm.flatten.symm.subset⟩
  refine ⟨exists_openStoredHashes_iff, ?_, ?_⟩
  · intro hashes hopen
    obtain ⟨lists, hlists, _, hget, hmd5, hsha1⟩ := openStoredHashes_eq_ok hopen
    refine ⟨hmd5, hsha1, ?_⟩
    intro read hread identifier hidentifier
    rw [hlists] at hread
    cases hread
    rw [hget, mergedValue, if_neg hidentifier]
  · intro segments' h
    exact ⟨⟨hperm segments segments' h, hperm segments' segments h.symm⟩,
      fun hashes hashes' hopen hopen' => sameDigests_of_perm h hopen hopen'⟩

/-- An XML hash section with the digest of one identifier. -/
def xhashSection (identifier value : String) : HashSection :=
  .ewf1Xhash (utf8Bytes s!"<xhash><{identifier}>{value}</{identifier}></xhash>")

theorem openStoredHashes_spec_swapped :
    [[xhashSection "md5" "000102030405060708090A0B0C0D0E0F"],
      [xhashSection "MD5" "000102030405060708090a0b0c0d0e0f"]].flatten.Perm
        [[xhashSection "MD5" "000102030405060708090a0b0c0d0e0f",
          xhashSection "md5" "000102030405060708090A0B0C0D0E0F"]].flatten ∧
      ((∃ hashes, openStoredHashes .ok [[xhashSection "md5" "000102030405060708090A0B0C0D0E0F"],
          [xhashSection "MD5" "000102030405060708090a0b0c0d0e0f"]] = .ok hashes) ↔
        ∃ hashes', openStoredHashes .ok [[xhashSection "MD5" "000102030405060708090a0b0c0d0e0f",
          xhashSection "md5" "000102030405060708090A0B0C0D0E0F"]] = .ok hashes') := by
  have hperm : [[xhashSection "md5" "000102030405060708090A0B0C0D0E0F"],
      [xhashSection "MD5" "000102030405060708090a0b0c0d0e0f"]].flatten.Perm
        [[xhashSection "MD5" "000102030405060708090a0b0c0d0e0f",
          xhashSection "md5" "000102030405060708090A0B0C0D0E0F"]].flatten := List.Perm.swap _ _ _
  exact ⟨hperm, ((openStoredHashes_spec _ _).2.2 _ hperm).1⟩

/-- Different digests of one identifier are accepted, and the order decides which one is stored. -/
theorem openStoredHashes_ne_swapped :
    ∃ hashes hashes',
      openStoredHashes .ok [[xhashSection "CRC32" "01", xhashSection "CRC32" "02"]] = .ok hashes ∧
      openStoredHashes .ok [[xhashSection "CRC32" "02", xhashSection "CRC32" "01"]] = .ok hashes' ∧
      hashes ≠ hashes' :=
  ⟨{ hashValues := [("CRC32", "01")] }, { hashValues := [("CRC32", "02")] }, by decide,
    by decide, by decide⟩

end EwfImage
