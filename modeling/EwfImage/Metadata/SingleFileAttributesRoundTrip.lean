import EwfImage.Metadata.DateTimeRoundTrip
import EwfImage.Metadata.SingleFileAttributes

/-!
# Round trip of extended attributes

The writer's column of attributes is parsed to the attributes whose names and values are changed
as the fields of a header are (`parse_singleFileAttributesValue`). So a list that the parser gave
comes back exactly when no name and no value holds a tab or a line break, and each fits with its
terminator (`singleFileAttributes_roundTrip_iff`).

The statements are about every list of attributes with any names and values in Unicode. The
parser and the writer are those of the program, with their hexadecimal layer and the UTF-16
texts inside it. That a text changes only where it holds a tab or a line break is
`parse_singleFileAttributesValue`, and `singleFileAttributes_tab` is the smallest case of it.
-/

namespace EwfImage

open Aff4 (parseHexByte hexadecimalDigit parseDigits)
open Fallible LittleEndian Slice Text Word

/-! ## Hexadecimal texts -/

theorem parseHexByte_hexPair (byte : UInt8) :
    parseHexByte (String.ofList (hexPair byte)) = some byte := by
  have hall : ∀ n < 256, (parseDigits hexadecimalDigit 16 256 (hexPair (UInt8.ofNat n))).map
      UInt8.ofNat = some (UInt8.ofNat n) := by
    decide +kernel
  have h := hall byte.toNat byte.toNat_lt
  rw [UInt8.ofNat_toNat] at h
  rw [parseHexByte, String.toList_ofList, h]

theorem parseHexPairs_hexPair (label : String) (bytes : Bytes) :
    parseHexPairs label (bytes.flatMap hexPair) = .ok bytes := by
  induction bytes with
  | nil => rfl
  | cons byte bytes ih =>
    have hbyte := parseHexByte_hexPair byte
    rw [hexPair] at hbyte
    rw [List.flatMap_cons, hexPair, List.cons_append, List.singleton_append, parseHexPairs, hbyte,
      okOr_some, ok_bind, ih, ok_bind, pure_eq_ok]

/-- The bytes of a hexadecimal text of the writer. -/
theorem parseHexByteStream_hexString (bytes : Bytes) (label : String) :
    parseHexByteStream (hexString bytes) label = .ok bytes := by
  have hdigits : ∀ c ∈ bytes.flatMap hexPair, c.toNat < 128 ∧ isWhitespace c = false := by
    intro c hc
    obtain ⟨byte, -, hpair⟩ := List.mem_flatMap.mp hc
    exact of_mem_hexPair hpair
  have hfilter : (bytes.flatMap hexPair).filter (fun c => !isWhitespace c) =
      bytes.flatMap hexPair := by
    refine List.filter_eq_self.mpr fun c hc => ?_
    rw [(hdigits c hc).2]
    rfl
  have hascii : ∀ c ∈ bytes.flatMap hexPair, c.toNat < 128 := fun c hc => (hdigits c hc).1
  have hall : ((bytes.flatMap hexPair).all fun c => c.toNat < 128) = true :=
    List.all_eq_true.mpr fun c hc => decide_eq_true (hascii c hc)
  have heven : ¬ ((bytes.flatMap hexPair).flatMap String.utf8EncodeChar).length % 2 ≠ 0 := by
    rw [flatMap_utf8EncodeChar hascii, List.length_map, length_flatMap_hexPair]
    omega
  rw [parseHexByteStream, toList_hexString, hfilter, rejectIf_neg _ heven, ok_bind,
    rejectIf_neg _ (not_not_intro hall), ok_bind, parseHexPairs_hexPair]

/-! ## Texts -/

/-- A text as it comes back from a record. -/
def storedText (text : Option String) : Option String :=
  text.map fun text => String.ofList (sanitizeHeaderValue text.toList)

/-- The units of a text in a record, with the terminator. -/
def storedUnits : Option String → Nat
  | none => 0
  | some text => (Utf16.encode text.toList).length + 1

theorem length_encode_sanitizeHeaderValue (value : List Char) :
    (Utf16.encode (sanitizeHeaderValue value)).length = (Utf16.encode value).length := by
  refine Utf16.length_encode_map ?_ value
  intro c
  split
  · rename_i hc
    rcases hc with rfl | rfl | rfl <;> rfl
  · rfl

theorem optionalUtf16leNullTerminated_some (text : String) :
    optionalUtf16leNullTerminated (some text) =
      Utf16.toBytes (Utf16.encode (sanitizeHeaderValue text.toList ++ ['\x00'])) := by
  have hzero : Utf16.toBytes (Utf16.encode ['\x00']) = toLE 2 0 := rfl
  rw [Utf16.encode_append, Utf16.toBytes_append, hzero]
  simp only [optionalUtf16leNullTerminated, optionalText, utf16le, Option.map_some,
    Option.getD_some, String.toList_ofList]

theorem length_optionalUtf16leNullTerminated (text : Option String) :
    (optionalUtf16leNullTerminated text).length = storedUnits text * 2 := by
  cases text with
  | none => rfl
  | some text =>
    have hterminator : (Utf16.encode ['\x00']).length = 1 := rfl
    rw [optionalUtf16leNullTerminated_some, Utf16.length_toBytes, Utf16.encode_append,
      List.length_append, length_encode_sanitizeHeaderValue, hterminator, storedUnits]
    omega

/-- The parser reads a text without its terminator. -/
theorem decode_optionalUtf16leNullTerminated {text : Option String} (htext : text ≠ some "")
    (label : String) :
    decodeOptionalUtf16leString (optionalUtf16leNullTerminated text) label =
      .ok (storedText text) := by
  cases text with
  | none => rfl
  | some text =>
    have hlength := length_optionalUtf16leNullTerminated (some text)
    have hne : optionalUtf16leNullTerminated (some text) ≠ [] := by
      intro hnil
      rw [hnil, storedUnits] at hlength
      simp only [List.length_nil] at hlength
      omega
    have heven : ¬ (optionalUtf16leNullTerminated (some text)).length % 2 ≠ 0 := by omega
    have hvalue : sanitizeHeaderValue text.toList ≠ [] := by
      intro hnil
      have htoList : text.toList = [] := List.map_eq_nil_iff.mp hnil
      exact htext (congrArg some (String.toList_eq_nil_iff.mp htoList))
    have hlast : (sanitizeHeaderValue text.toList ++ ['\x00']).getLast? = some '\x00' :=
      List.getLast?_concat
    rw [decodeOptionalUtf16leString, if_neg hne, rejectIf_neg _ heven, ok_bind,
      optionalUtf16leNullTerminated_some, Utf16.ofBytes_toBytes, Utf16.decode_encode, okOr_some,
      ok_bind]
    simp only [if_pos hlast, List.dropLast_concat, if_neg hvalue]
    rfl

/-! ## Records -/

/-- The bytes of the record of an attribute. -/
def attributeRecord (attr : SingleFileAttribute) : Bytes :=
  [0, 0, 0, 0] ++ [0] ++ toLE 4 (storedUnits attr.name) ++ toLE 4 (storedUnits attr.value) ++
    optionalUtf16leNullTerminated attr.name ++ optionalUtf16leNullTerminated attr.value

/-- The names and values of an attribute can be counted with their terminators. -/
def Countable (attr : SingleFileAttribute) : Prop :=
  storedUnits attr.name < u32Limit ∧ storedUnits attr.value < u32Limit

theorem appendSingleFileAttribute_eq_ok {data result : Bytes} {attr : SingleFileAttribute} :
    appendSingleFileAttribute data attr = .ok result ↔
      Countable attr ∧ result = data ++ attributeRecord attr := by
  have hname : (optionalUtf16leNullTerminated attr.name).length / 2 = storedUnits attr.name := by
    rw [length_optionalUtf16leNullTerminated, Nat.mul_div_cancel _ (by decide)]
  have hvalue : (optionalUtf16leNullTerminated attr.value).length / 2 = storedUnits attr.value := by
    rw [length_optionalUtf16leNullTerminated, Nat.mul_div_cancel _ (by decide)]
  simp only [appendSingleFileAttribute, hname, hvalue, bind_eq_ok, rejectIf_eq_ok, pure_eq_ok,
    Except.ok.injEq, Nat.not_le, Countable, attributeRecord]
  constructor
  · rintro ⟨_, hn, _, hv, rfl⟩
    exact ⟨⟨hn, hv⟩, rfl⟩
  · rintro ⟨⟨hn, hv⟩, rfl⟩
    exact ⟨(), hn, (), hv, rfl⟩

theorem length_attributeRecord (attr : SingleFileAttribute) : (attributeRecord attr).length =
    13 + storedUnits attr.name * 2 + storedUnits attr.value * 2 := by
  simp only [attributeRecord, List.length_append, length_toLE, List.length_cons, List.length_nil,
    length_optionalUtf16leNullTerminated]

theorem utf16ByteSize_eq {units : Nat} (h : units < u32Limit) (label : String) :
    utf16ByteSize units label = .ok (units * 2) := by
  have hunits : units < 2 ^ 32 := h
  have hsize : units * 2 < u64Limit := show _ < 2 ^ 64 by omega
  have hlimit : ¬ u64Limit ≤ units := show ¬ 2 ^ 64 ≤ units by omega
  rw [utf16ByteSize, rejectIf_neg _ hlimit, ok_bind, checkedMul_of_lt hsize, okOr_some]

/-- A field of a record, by what is in front of it. -/
theorem slice_field {data : Bytes} {offset size : Nat} (front field rest : Bytes)
    (hoffset : front.length = offset) (hsize : field.length = size)
    (h : data = front ++ field ++ rest) : slice data offset size = field := by
  rw [h, ← hoffset, ← hsize, slice_append_middle]

theorem parse_attributeRecord {attr : SingleFileAttribute} (hcount : Countable attr)
    (hname : attr.name ≠ some "") (hvalue : attr.value ≠ some "") (rest : Bytes) :
    parseExtendedAttributeRecord (attributeRecord attr ++ rest) =
      .ok ({ name := storedText attr.name, value := storedText attr.value, isBranch := false },
        (attributeRecord attr).length) := by
  have hn : storedUnits attr.name < 2 ^ 32 := hcount.1
  have hv : storedUnits attr.value < 2 ^ 32 := hcount.2
  have hlength := length_attributeRecord attr
  have hnameLength := length_optionalUtf16leNullTerminated attr.name
  have hvalueLength := length_optionalUtf16leNullTerminated attr.value
  have hnameUnits : leAt (attributeRecord attr ++ rest) 5 4 = storedUnits attr.name := by
    have hslice : slice (attributeRecord attr ++ rest) 5 4 = toLE 4 (storedUnits attr.name) := by
      refine slice_field ([0, 0, 0, 0] ++ [0]) _ (toLE 4 (storedUnits attr.value) ++
        optionalUtf16leNullTerminated attr.name ++ optionalUtf16leNullTerminated attr.value ++
        rest) rfl (length_toLE 4 _) ?_
      simp only [attributeRecord, List.append_assoc]
    rw [leAt, hslice, fromLE_toLE_of_lt hn]
  have hvalueUnits : leAt (attributeRecord attr ++ rest) 9 4 = storedUnits attr.value := by
    have hslice : slice (attributeRecord attr ++ rest) 9 4 = toLE 4 (storedUnits attr.value) := by
      refine slice_field ([0, 0, 0, 0] ++ [0] ++ toLE 4 (storedUnits attr.name)) _
        (optionalUtf16leNullTerminated attr.name ++ optionalUtf16leNullTerminated attr.value ++
        rest) rfl (length_toLE 4 _) ?_
      simp only [attributeRecord, List.append_assoc]
    rw [leAt, hslice, fromLE_toLE_of_lt hv]
  have hnameText : slice (attributeRecord attr ++ rest) 13 (storedUnits attr.name * 2) =
      optionalUtf16leNullTerminated attr.name := by
    refine slice_field ([0, 0, 0, 0] ++ [0] ++ toLE 4 (storedUnits attr.name) ++
      toLE 4 (storedUnits attr.value)) _ (optionalUtf16leNullTerminated attr.value ++ rest)
      rfl hnameLength ?_
    simp only [attributeRecord, List.append_assoc]
  have hvalueText : slice (attributeRecord attr ++ rest) (13 + storedUnits attr.name * 2)
      (storedUnits attr.value * 2) = optionalUtf16leNullTerminated attr.value := by
    refine slice_field ([0, 0, 0, 0] ++ [0] ++ toLE 4 (storedUnits attr.name) ++
      toLE 4 (storedUnits attr.value) ++ optionalUtf16leNullTerminated attr.name) _ rest ?_
      hvalueLength ?_
    · simp only [List.length_append, length_toLE, hnameLength, List.length_cons, List.length_nil]
    · simp only [attributeRecord, List.append_assoc]
  have hbranch : (attributeRecord attr ++ rest).getD 4 0 = 0 := rfl
  have htotal : (attributeRecord attr ++ rest).length =
      13 + storedUnits attr.name * 2 + storedUnits attr.value * 2 + rest.length := by
    rw [List.length_append, hlength]
  have hvalueOffset : 13 + storedUnits attr.name * 2 < u64Limit := show _ < 2 ^ 64 by omega
  have hendOffset : 13 + storedUnits attr.name * 2 + storedUnits attr.value * 2 < u64Limit :=
    show _ < 2 ^ 64 by omega
  rw [parseExtendedAttributeRecord, rejectIf_neg _ (by omega), ok_bind]
  simp only [hnameUnits, hvalueUnits, hbranch]
  rw [utf16ByteSize_eq hcount.1, ok_bind, utf16ByteSize_eq hcount.2, ok_bind,
    checkedAdd_of_lt hvalueOffset, okOr_some, ok_bind, checkedAdd_of_lt hendOffset, okOr_some,
    ok_bind, rejectIf_neg _ (by omega), ok_bind, hnameText, hvalueText,
    decode_optionalUtf16leNullTerminated hname, ok_bind,
    decode_optionalUtf16leNullTerminated hvalue, ok_bind, hlength]
  rfl

/-! ## The loop over the records -/

theorem parseExtendedAttributesFrom_record (front : Bytes) {record rest : Bytes}
    {attr : ParsedExtendedAttribute}
    (h : parseExtendedAttributeRecord (record ++ rest) = .ok (attr, record.length)) :
    parseExtendedAttributesFrom (front ++ record ++ rest) front.length = (do
      let attributes ←
        parseExtendedAttributesFrom (front ++ record ++ rest) (front ++ record).length
      return if attr.isBranch then attributes
        else { name := attr.name, value := attr.value } :: attributes) := by
  have hsize := size_of_parseExtendedAttributeRecord h
  have hdrop : (front ++ record ++ rest).drop front.length = record ++ rest := by
    rw [List.append_assoc, List.drop_left]
  have hlt : front.length < (front ++ record ++ rest).length := by
    simp only [List.length_append] at hsize ⊢
    omega
  rw [parseExtendedAttributesFrom, dif_pos hlt]
  split
  · rename_i hread
    rw [hdrop, h] at hread
    cases hread
  · rename_i hread
    rw [hdrop, h] at hread
    cases hread
    rw [List.length_append]

/-- An attribute as it comes back from its record. -/
def storedAttribute (attr : SingleFileAttribute) : SingleFileAttribute :=
  { name := storedText attr.name, value := storedText attr.value }

/-- No name or value of an attribute is the empty text. -/
def Parsed (attr : SingleFileAttribute) : Prop := attr.name ≠ some "" ∧ attr.value ≠ some ""

theorem parse_appendSingleFileAttribute {attributes : List SingleFileAttribute} {front data : Bytes}
    (h : attributes.foldlM appendSingleFileAttribute front = .ok data)
    (hparsed : ∀ attr ∈ attributes, Parsed attr) :
    ∃ rest, data = front ++ rest ∧
      parseExtendedAttributesFrom data front.length = .ok (attributes.map storedAttribute) := by
  induction attributes generalizing front with
  | nil =>
    cases h
    refine ⟨[], (List.append_nil _).symm, ?_⟩
    rw [parseExtendedAttributesFrom, dif_neg (Nat.lt_irrefl _)]
    rfl
  | cons attr attributes ih =>
    rw [List.foldlM_cons, bind_eq_ok] at h
    obtain ⟨next, hnext, hrest⟩ := h
    obtain ⟨hcount, rfl⟩ := appendSingleFileAttribute_eq_ok.mp hnext
    obtain ⟨rest, rfl, hparse⟩ := ih hrest fun attr hattr =>
      hparsed attr (List.mem_cons_of_mem _ hattr)
    have htexts := hparsed attr List.mem_cons_self
    have hrecord := parse_attributeRecord hcount htexts.1 htexts.2 rest
    refine ⟨attributeRecord attr ++ rest, List.append_assoc _ _ _, ?_⟩
    rw [parseExtendedAttributesFrom_record front hrecord, hparse]
    rfl

theorem appendSingleFileAttribute_isOk {attributes : List SingleFileAttribute} (front : Bytes) :
    (∃ data, attributes.foldlM appendSingleFileAttribute front = .ok data) ↔
      ∀ attr ∈ attributes, Countable attr := by
  induction attributes generalizing front with
  | nil => exact ⟨fun _ attr hattr => absurd hattr List.not_mem_nil, fun _ => ⟨front, rfl⟩⟩
  | cons attr attributes ih =>
    rw [List.forall_mem_cons, ← ih (front ++ attributeRecord attr)]
    constructor
    · rintro ⟨data, h⟩
      rw [List.foldlM_cons, bind_eq_ok] at h
      obtain ⟨next, hnext, hrest⟩ := h
      obtain ⟨hcount, rfl⟩ := appendSingleFileAttribute_eq_ok.mp hnext
      exact ⟨hcount, data, hrest⟩
    · rintro ⟨hcount, data, hrest⟩
      refine ⟨data, ?_⟩
      rw [List.foldlM_cons, appendSingleFileAttribute_eq_ok.mpr ⟨hcount, rfl⟩, ok_bind, hrest]

/-! ## The column -/

/-- The header is the record of a branch. -/
theorem parse_extendedAttributesHeader (rest : Bytes) :
    parseExtendedAttributeRecord (extendedAttributesHeader ++ rest) =
      .ok ({ name := some "Attributes", value := none, isBranch := true },
        extendedAttributesHeader.length) := by
  have hlength : (extendedAttributesHeader ++ rest).length = 37 + rest.length :=
    List.length_append
  have hnameText : slice (extendedAttributesHeader ++ rest) 13 (11 * 2) =
      slice extendedAttributesHeader 13 22 := rfl
  have hvalueText : slice (extendedAttributesHeader ++ rest) 35 (1 * 2) = [0, 0] := rfl
  have hname : decodeOptionalUtf16leString (slice extendedAttributesHeader 13 22)
      "extended attribute name" = .ok (some "Attributes") := by
    decide
  have hvalue : decodeOptionalUtf16leString [0, 0] "extended attribute value" = .ok none := by
    decide
  have hnameUnits : leAt (extendedAttributesHeader ++ rest) 5 4 = 11 := rfl
  have hvalueUnits : leAt (extendedAttributesHeader ++ rest) 9 4 = 1 := rfl
  have hbranch : (extendedAttributesHeader ++ rest).getD 4 0 = 1 := rfl
  rw [parseExtendedAttributeRecord, rejectIf_neg _ (by omega), ok_bind]
  simp only [hnameUnits, hvalueUnits, hbranch]
  rw [utf16ByteSize_eq (by decide), ok_bind, utf16ByteSize_eq (by decide), ok_bind,
    checkedAdd_of_lt (by decide), okOr_some, ok_bind, checkedAdd_of_lt (by decide), okOr_some,
    ok_bind, rejectIf_neg _ (by omega), ok_bind, hnameText, hname, ok_bind, hvalueText, hvalue,
    ok_bind]
  rfl

theorem parseExtendedAttributes_hexString {rest : Bytes} {attributes : List SingleFileAttribute}
    (h : parseExtendedAttributesFrom (extendedAttributesHeader ++ rest)
      extendedAttributesHeader.length = .ok attributes) :
    parseExtendedAttributes (hexString (extendedAttributesHeader ++ rest)) = .ok attributes := by
  have hne : extendedAttributesHeader ++ rest ≠ [] := List.cons_ne_nil _ _
  have hheader : ¬ ((extendedAttributesHeader ++ rest).length < extendedAttributesHeader.length ∨
      (extendedAttributesHeader ++ rest).take extendedAttributesHeader.length ≠
        extendedAttributesHeader) := by
    rw [List.take_left, List.length_append]
    rintro (hshort | hother)
    · omega
    · exact hother rfl
  have hfirst := parseExtendedAttributesFrom_record []
    (parse_extendedAttributesHeader rest)
  rw [parseExtendedAttributes, parseHexByteStream_hexString, ok_bind, if_neg hne,
    rejectIf_neg _ hheader, ok_bind]
  simp only [List.nil_append, List.length_nil] at hfirst
  rw [hfirst, h]
  rfl

/-- A column with one record behind the header. -/
theorem parseExtendedAttributes_record {record : Bytes} {attr : ParsedExtendedAttribute}
    (h : parseExtendedAttributeRecord record = .ok (attr, record.length))
    (hbranch : attr.isBranch = false) :
    parseExtendedAttributes (hexString (extendedAttributesHeader ++ record)) =
      .ok [{ name := attr.name, value := attr.value }] := by
  refine parseExtendedAttributes_hexString ?_
  have hrecord : parseExtendedAttributeRecord (record ++ []) = .ok (attr, record.length) := by
    rw [List.append_nil, h]
  have hend : parseExtendedAttributesFrom (extendedAttributesHeader ++ record)
      (extendedAttributesHeader ++ record).length = .ok [] := by
    rw [parseExtendedAttributesFrom, dif_neg (Nat.lt_irrefl _)]
    rfl
  have hfirst := parseExtendedAttributesFrom_record extendedAttributesHeader hrecord
  rw [List.append_nil, hend, ok_bind, hbranch] at hfirst
  exact hfirst

/-- The parser gives the attributes of the writer's column back with changed texts. -/
theorem parse_singleFileAttributesValue {attributes : List SingleFileAttribute} {text : String}
    (h : singleFileAttributesValue attributes = .ok text)
    (hparsed : ∀ attr ∈ attributes, Parsed attr) :
    parseExtendedAttributes text = .ok (attributes.map storedAttribute) := by
  by_cases hnil : attributes = []
  · subst hnil
    cases h
    rfl
  · rw [singleFileAttributesValue, if_neg hnil, bind_eq_ok] at h
    obtain ⟨data, hdata, htext⟩ := h
    cases htext
    obtain ⟨rest, rfl, hparse⟩ := parse_appendSingleFileAttribute hdata hparsed
    exact parseExtendedAttributes_hexString hparse

theorem singleFileAttributesValue_isOk {attributes : List SingleFileAttribute} :
    (∃ text, singleFileAttributesValue attributes = .ok text) ↔
      ∀ attr ∈ attributes, Countable attr := by
  rw [← appendSingleFileAttribute_isOk extendedAttributesHeader]
  by_cases hnil : attributes = []
  · subst hnil
    exact ⟨fun _ => ⟨_, rfl⟩, fun _ => ⟨_, rfl⟩⟩
  · rw [singleFileAttributesValue, if_neg hnil]
    constructor
    · rintro ⟨text, h⟩
      obtain ⟨data, hdata, -⟩ := bind_eq_ok.mp h
      exact ⟨data, hdata⟩
    · rintro ⟨data, hdata⟩
      exact ⟨hexString data, by rw [hdata, ok_bind, pure_eq_ok]⟩

/-! ## Attributes of the parser -/

theorem decodeOptionalUtf16leString_ne {data : Bytes} {label : String} {text : Option String}
    (h : decodeOptionalUtf16leString data label = .ok text) : text ≠ some "" := by
  unfold decodeOptionalUtf16leString at h
  split at h
  · cases h
    intro hnone
    cases hnone
  · simp only [bind_eq_ok, pure_eq_ok, Except.ok.injEq] at h
    obtain ⟨-, -, decoded, -, rfl⟩ := h
    intro hempty
    rw [ite_eq_iff] at hempty
    rcases hempty with ⟨-, hnone⟩ | ⟨hne, hsome⟩
    · cases hnone
    · exact hne (String.ofList_eq_empty_iff.mp (Option.some.inj hsome))

theorem parsed_of_parseExtendedAttributeRecord {data : Bytes} {attr : ParsedExtendedAttribute}
    {readSize : Nat} (h : parseExtendedAttributeRecord data = .ok (attr, readSize)) :
    attr.name ≠ some "" ∧ attr.value ≠ some "" := by
  simp only [parseExtendedAttributeRecord, bind_eq_ok, pure_eq_ok, Except.ok.injEq,
    Prod.mk.injEq] at h
  obtain ⟨-, -, _, -, _, -, _, -, _, -, -, -, name, hname, value, hvalue, rfl, -⟩ := h
  exact ⟨decodeOptionalUtf16leString_ne hname, decodeOptionalUtf16leString_ne hvalue⟩

theorem parsed_of_parseExtendedAttributesFrom {data : Bytes} {offset : Nat}
    {attributes : List SingleFileAttribute}
    (h : parseExtendedAttributesFrom data offset = .ok attributes) :
    ∀ attr ∈ attributes, Parsed attr := by
  fun_induction parseExtendedAttributesFrom data offset generalizing attributes with
  | case1 offset hlt e hread => cases h
  | case2 offset hlt attr readSize hread ih =>
    obtain ⟨rest, hrest, hresult⟩ := bind_eq_ok.mp h
    have hparsed := ih hrest
    cases hresult
    split
    · exact hparsed
    · exact List.forall_mem_cons.mpr ⟨parsed_of_parseExtendedAttributeRecord hread, hparsed⟩
  | case3 offset hlt =>
    cases h
    exact fun attr hattr => absurd hattr List.not_mem_nil

theorem parsed_of_parseExtendedAttributes {value : String} {attributes : List SingleFileAttribute}
    (h : parseExtendedAttributes value = .ok attributes) : ∀ attr ∈ attributes, Parsed attr := by
  obtain ⟨data, -, hdata⟩ := bind_eq_ok.mp h
  split at hdata
  · cases hdata
    exact fun attr hattr => absurd hattr List.not_mem_nil
  · obtain ⟨-, -, hfrom⟩ := bind_eq_ok.mp hdata
    exact parsed_of_parseExtendedAttributesFrom hfrom

/-! ## Round trip -/

/-- No character of the text is a tab or part of a line break. -/
def PlainText (text : Option String) : Prop :=
  ∀ value ∈ text, ∀ c ∈ value.toList, ¬ (c = '\t' ∨ c = '\n' ∨ c = '\r')

theorem sanitizeHeaderValue_eq_self_iff {value : List Char} :
    sanitizeHeaderValue value = value ↔ ∀ c ∈ value, ¬ (c = '\t' ∨ c = '\n' ∨ c = '\r') := by
  refine ⟨fun h c hc hbreak => ?_, sanitizeHeaderValue_eq⟩
  rw [← h] at hc
  obtain ⟨first, -, hfirst⟩ := List.mem_map.mp hc
  split at hfirst
  · subst hfirst
    rcases hbreak with hblank | hblank | hblank <;> cases hblank
  · rename_i hplain
    exact hplain (hfirst ▸ hbreak)

theorem storedText_eq_self_iff {text : Option String} :
    storedText text = text ↔ PlainText text := by
  cases text with
  | none => exact ⟨fun _ value hvalue => (by cases hvalue), fun _ => rfl⟩
  | some value =>
    have hvalue : storedText (some value) = some value ↔
        sanitizeHeaderValue value.toList = value.toList := by
      rw [storedText, Option.map_some, Option.some.injEq, ← String.toList_inj, String.toList_ofList]
    rw [hvalue, sanitizeHeaderValue_eq_self_iff]
    constructor
    · intro h other hother
      cases hother
      exact h
    · exact fun h => h value rfl

theorem map_storedAttribute_eq_self_iff {attributes : List SingleFileAttribute} :
    attributes.map storedAttribute = attributes ↔
      ∀ attr ∈ attributes, PlainText attr.name ∧ PlainText attr.value := by
  have hone (attr : SingleFileAttribute) :
      storedAttribute attr = attr ↔ PlainText attr.name ∧ PlainText attr.value := by
    rw [← storedText_eq_self_iff, ← storedText_eq_self_iff, storedAttribute,
      SingleFileAttribute.mk.injEq]
  induction attributes with
  | nil => simp
  | cons attr attributes ih =>
    rw [List.map_cons, List.cons.injEq, List.forall_mem_cons, hone]
    exact and_congr_right fun _ => ih

/-- A record with the name `a` and one character as the value. -/
def letterRecord (low high : UInt8) : Bytes :=
  [0, 0, 0, 0, 0, 2, 0, 0, 0, 2, 0, 0, 0, 0x61, 0, 0, 0, low, high, 0, 0]

/-- A value that is a tab comes back as a blank. -/
theorem singleFileAttributes_tab :
    ∃ value attributes, parseExtendedAttributes value = .ok attributes ∧
      ¬ ∃ text, singleFileAttributesValue attributes = .ok text ∧
        parseExtendedAttributes text = .ok attributes := by
  have hrecord : parseExtendedAttributeRecord (letterRecord 9 0) =
      .ok ({ name := some "a", value := some "\t", isBranch := false },
        (letterRecord 9 0).length) := by
    decide
  have hparse := parseExtendedAttributes_record hrecord rfl
  refine ⟨_, _, hparse, ?_⟩
  rintro ⟨text, htext, hback⟩
  have hstored := parse_singleFileAttributesValue htext (parsed_of_parseExtendedAttributes hparse)
  rw [hback] at hstored
  revert hstored
  decide

/-- Attributes of the parser are written and parsed back exactly when their names and values hold
no tab or line break, and fit into the records. -/
theorem singleFileAttributes_roundTrip_iff {value : String} {attributes : List SingleFileAttribute}
    (h : parseExtendedAttributes value = .ok attributes) :
    (∃ text, singleFileAttributesValue attributes = .ok text ∧
      parseExtendedAttributes text = .ok attributes) ↔
    ∀ attr ∈ attributes, (PlainText attr.name ∧ PlainText attr.value) ∧ Countable attr := by
  have hparsed := parsed_of_parseExtendedAttributes h
  rw [forall₂_and, ← map_storedAttribute_eq_self_iff, ← singleFileAttributesValue_isOk]
  constructor
  · rintro ⟨text, htext, hback⟩
    rw [parse_singleFileAttributesValue htext hparsed] at hback
    exact ⟨Except.ok.inj hback, text, htext⟩
  · rintro ⟨hstored, text, htext⟩
    exact ⟨text, htext, by rw [parse_singleFileAttributesValue htext hparsed, hstored]⟩

theorem singleFileAttributes_roundTrip_plain :
    (∃ text, singleFileAttributesValue [⟨some "a", some "ä"⟩] = .ok text ∧
      parseExtendedAttributes text = .ok [⟨some "a", some "ä"⟩]) ↔
    ∀ attr ∈ [SingleFileAttribute.mk (some "a") (some "ä")],
      (PlainText attr.name ∧ PlainText attr.value) ∧ Countable attr := by
  have hrecord : parseExtendedAttributeRecord (letterRecord 0xE4 0) =
      .ok ({ name := some "a", value := some "ä", isBranch := false },
        (letterRecord 0xE4 0).length) := by
    decide
  exact singleFileAttributes_roundTrip_iff (parseExtendedAttributes_record hrecord rfl)

end EwfImage
