import EwfImage.Image.StoredHashesOrder
import EwfImage.Metadata.DateTimeRoundTrip
import EwfImage.Metadata.XmlPayloads

/-!
# The round trip of XML headers and hashes

Whatever the values are, an XML section whose tags are names of elements gives back its pairs in
their order: each value without the white space around it, and no pair for a value of white space.

The main result is `xmlPayloads_pairs`, about all header values and digests that the writer
accepts. Each form of loss is part of the statement: white space around a value, values of white
space only, dates in the form of `ctime`, known digests in small letters. `xmlPayloads_changed`
has one input for each. The parser is the reader's own; a tag that is no name of an element is
left out of the statement, since its markup is read as markup. The compression of the payloads
is left out.
-/

namespace EwfImage

open Text

/-! ## Escaped values -/

/-- A character is escaped to itself, or to the name of an entity. -/
theorem escapeXmlChar_cases (c : Char) :
    (escapeXmlChar c = [c] ∧ c ≠ '&' ∧ c ≠ '<' ∧ c ≠ '>') ∨
      (isWhitespace c = false ∧ ∃ name ∈ ["amp", "lt", "gt", "quot", "apos"].map String.toList,
        escapeXmlChar c = '&' :: name ++ [';'] ∧
          ∀ fuel rest, decodeXmlEntitiesFrom (fuel + 1) ('&' :: name ++ ';' :: rest) =
            c :: decodeXmlEntitiesFrom fuel rest) := by
  by_cases hspecial : c = '&' ∨ c = '<' ∨ c = '>' ∨ c = '"' ∨ c = '\''
  · refine .inr ?_
    rcases hspecial with rfl | rfl | rfl | rfl | rfl
    · exact ⟨rfl, "amp".toList, by decide, rfl, fun _ _ => rfl⟩
    · exact ⟨rfl, "lt".toList, by decide, rfl, fun _ _ => rfl⟩
    · exact ⟨rfl, "gt".toList, by decide, rfl, fun _ _ => rfl⟩
    · exact ⟨rfl, "quot".toList, by decide, rfl, fun _ _ => rfl⟩
    · exact ⟨rfl, "apos".toList, by decide, rfl, fun _ _ => rfl⟩
  · simp only [not_or] at hspecial
    obtain ⟨hamp, hlt, hgt, hquot, hapos⟩ := hspecial
    refine .inl ⟨?_, hamp, hlt, hgt⟩
    rw [escapeXmlChar, if_neg hamp, if_neg hlt, if_neg hgt, if_neg hquot, if_neg hapos]

theorem decodeXmlEntitiesFrom_cons {c : Char} (h : c ≠ '&') (fuel : Nat) (rest : List Char) :
    decodeXmlEntitiesFrom fuel (c :: rest) = c :: decodeXmlEntitiesFrom fuel rest := by
  cases fuel with
  | zero => rfl
  | succ fuel =>
    have hstart : ['&'].isPrefixOf (c :: rest) = false := by simp [List.isPrefixOf, h.symm]
    rw [decodeXmlEntitiesFrom, decodeXmlEntitiesFrom, splitOnce, hstart]
    cases splitOnce ['&'] rest with
    | none => rfl
    | some parts => rfl

theorem decodeXmlEntitiesFrom_escapeXmlText (value : List Char) :
    ∀ {fuel : Nat}, value.length ≤ fuel →
      decodeXmlEntitiesFrom fuel (escapeXmlText value) = value := by
  induction value with
  | nil =>
    intro fuel _
    cases fuel <;> rfl
  | cons c value ih =>
    intro fuel hfuel
    rw [List.length_cons] at hfuel
    obtain ⟨fuel, rfl⟩ := Nat.exists_eq_add_of_le' (Nat.le_trans (Nat.le_add_left 1 _) hfuel)
    have hcons : escapeXmlText (c :: value) = escapeXmlChar c ++ escapeXmlText value :=
      List.flatMap_cons
    rw [hcons]
    rcases escapeXmlChar_cases c with ⟨hsame, hamp, _⟩ | ⟨_, name, _, hescaped, hdecodes⟩
    · rw [hsame, List.singleton_append, decodeXmlEntitiesFrom_cons hamp, ih (by omega)]
    · rw [hescaped, List.append_assoc, List.singleton_append, hdecodes, ih (by omega)]

/-- No value that is escaped has markup in it. -/
theorem not_mem_escapeXmlText {c : Char} {value : List Char} (h : c ∈ escapeXmlText value) :
    c ≠ '<' ∧ c ≠ '>' := by
  obtain ⟨original, _, hmem⟩ := List.mem_flatMap.mp h
  have hnames : ["amp", "lt", "gt", "quot", "apos"].all (fun name =>
      ('&' :: name.toList ++ [';']).all fun c => c ≠ '<' ∧ c ≠ '>') = true := by decide
  rcases escapeXmlChar_cases original with ⟨hsame, _, hlt, hgt⟩ | ⟨_, name, hname, hescaped, _⟩
  · rw [hsame, List.mem_singleton] at hmem
    rw [hmem]
    exact ⟨hlt, hgt⟩
  · obtain ⟨text, htext, rfl⟩ := List.mem_map.mp hname
    rw [hescaped] at hmem
    exact of_decide_eq_true
      (List.all_eq_true.mp (List.all_eq_true.mp hnames text htext) c hmem)

theorem trim_escapeXmlText (value : List Char) :
    trim (escapeXmlText value) = escapeXmlText (trim value) := by
  have hsame : ∀ c, isWhitespace c = true → escapeXmlChar c = [c] := by
    intro c hc
    rcases escapeXmlChar_cases c with ⟨hsame, _⟩ | ⟨hword, _⟩
    · exact hsame
    · rw [hc] at hword
      cases hword
  have hfront : ∀ c, isWhitespace c = false →
      ∃ first rest, escapeXmlChar c = first :: rest ∧ isWhitespace first = false := by
    intro c hc
    rcases escapeXmlChar_cases c with ⟨hsame, _⟩ | ⟨_, name, _, hescaped, _⟩
    · exact ⟨c, [], hsame, hc⟩
    · exact ⟨'&', name ++ [';'], hescaped, rfl⟩
  have hback : ∀ c, isWhitespace c = false →
      ∃ first rest, (escapeXmlChar c).reverse = first :: rest ∧ isWhitespace first = false := by
    intro c hc
    rcases escapeXmlChar_cases c with ⟨hsame, _⟩ | ⟨_, name, _, hescaped, _⟩
    · exact ⟨c, [], by rw [hsame]; rfl, hc⟩
    · exact ⟨';', ('&' :: name).reverse, by rw [hescaped, List.reverse_concat], rfl⟩
  have hreverse : ∀ c, isWhitespace c = true → (escapeXmlChar c).reverse = [c] := by
    intro c hc
    rw [hsame c hc]
    rfl
  unfold trim escapeXmlText
  rw [dropWhile_flatMap hsame hfront, List.reverse_flatMap, Function.comp_def,
    dropWhile_flatMap hreverse hback, List.reverse_flatMap]
  simp only [Function.comp_def, List.reverse_reverse]

theorem length_le_escapeXmlText (value : List Char) :
    value.length ≤ (escapeXmlText value).length := by
  induction value with
  | nil => exact Nat.le_refl _
  | cons c value ih =>
    have hpos : 1 ≤ (escapeXmlChar c).length := by
      rcases escapeXmlChar_cases c with ⟨hsame, _⟩ | ⟨_, name, _, hescaped, _⟩
      · rw [hsame]
        exact Nat.le_refl _
      · rw [hescaped]
        exact Nat.succ_pos _
    have hcons : escapeXmlText (c :: value) = escapeXmlChar c ++ escapeXmlText value :=
      List.flatMap_cons
    rw [hcons, List.length_append, List.length_cons]
    omega

theorem trim_escapeXmlText_eq_nil_iff {value : List Char} :
    trim (escapeXmlText value) = [] ↔ trim value = [] := by
  have hnil : escapeXmlText [] = [] := rfl
  rw [trim_escapeXmlText]
  refine ⟨fun h => ?_, fun h => by rw [h, hnil]⟩
  have hle := length_le_escapeXmlText (trim value)
  rw [h] at hle
  exact List.length_eq_zero_iff.mp (Nat.le_zero.mp hle)

/-- What is read of a value that is escaped. -/
theorem decodeXmlEntities_escapeXmlText (value : List Char) :
    decodeXmlEntities (trim (escapeXmlText value)) = trim value := by
  rw [trim_escapeXmlText, decodeXmlEntities]
  exact decodeXmlEntitiesFrom_escapeXmlText _ (length_le_escapeXmlText _)

/-! ## Elements -/

/-- Elements by their tags and their escaped texts. -/
def xmlElements (elements : List (String × List Char)) : List Char :=
  elements.flatMap fun (tag, text) => xmlElement tag text

/-- Elements that are read as they are inside a root. -/
def Readable (rootTag : List Char) (elements : List (String × List Char)) : Prop :=
  ∀ element ∈ elements, IsElementName rootTag element.1.toList ∧
    ∀ c ∈ element.2, c ≠ '<' ∧ c ≠ '>'

section Elements

variable {rootTag : List Char} {elements : List (String × List Char)}

/-- An element in its parts up to the brackets that close its tags. -/
theorem xmlElements_cons (tag : String) (text rest : List Char) :
    '\n' :: (xmlElements ((tag, text) :: elements) ++ rest) =
      ('\n' :: '\t' :: '<' :: tag.toList) ++ '>' ::
        ((text ++ "</".toList ++ tag.toList) ++ '>' :: '\n' :: (xmlElements elements ++ rest)) := by
  simp [xmlElements, xmlElement]

/-- The end of the root is not found inside of an element. -/
theorem splitOnce_rootEnd (hroot : '>' ∉ rootTag) (helements : Readable rootTag elements)
    (behind : List Char) :
    splitOnce ("</".toList ++ rootTag ++ ['>'])
        ('\n' :: (xmlElements elements ++ ("</".toList ++ rootTag ++ ['>'] ++ behind))) =
      some ('\n' :: xmlElements elements, behind) := by
  have hpattern : '>' ∉ "</".toList ++ rootTag := by
    intro hmem
    rcases List.mem_append.mp hmem with hmem | hmem
    · revert hmem
      decide
    · exact hroot hmem
  induction elements with
  | nil => exact splitOnce_append (show '<' ∉ ['\n'] by decide)
  | cons element elements ih =>
    obtain ⟨tag, text⟩ := element
    obtain ⟨⟨hname, htext⟩, hrest⟩ := List.forall_mem_cons.mp helements
    have hopen : ¬ "</".toList ++ rootTag <:+ '\n' :: '\t' :: '<' :: tag.toList := by
      intro hsuffix
      rcases List.suffix_cons_iff.mp
        (suffix_of_append (show '<' ∉ ['\n', '\t'] by decide) hsuffix) with heq | hinside
      · have htag : tag.toList = '/' :: rootTag := (List.cons.inj heq).2.symm
        exact (hname.head_ne '/' (by rw [htag]; rfl)).1 rfl
      · exact hname.inside (hinside.trans (List.suffix_append _ _))
    have hclose : ¬ "</".toList ++ rootTag <:+ text ++ "</".toList ++ tag.toList := by
      intro hsuffix
      rw [List.append_assoc] at hsuffix
      exact hname.inside (suffix_of_append (fun hmem => (htext _ hmem).1 rfl) hsuffix)
    have hopenPart : '>' ∉ '\n' :: '\t' :: '<' :: tag.toList := by
      simp [hname.closed]
    have hclosePart : '>' ∉ text ++ "</".toList ++ tag.toList := by
      have htext' : '>' ∉ text := fun hmem => (htext _ hmem).2 rfl
      simp [hname.closed, htext']
    rw [xmlElements_cons, splitOnce_closed hpattern hopenPart hopen,
      splitOnce_closed hpattern hclosePart hclose, ih hrest, Option.map_some, Option.map_some]
    dsimp only
    rw [← List.append_nil (xmlElements elements), ← xmlElements_cons, List.append_nil]

/-- The elements in a body are visited in their order. -/
theorem xmlChildren_xmlElements (helements : Readable rootTag elements) {fuel : Nat}
    (hfuel : elements.length ≤ fuel) :
    xmlChildren fuel ('\n' :: xmlElements elements) =
      elements.map fun element => (element.1.toList, element.2) := by
  induction elements generalizing fuel with
  | nil =>
    cases fuel with
    | zero => rfl
    | succ fuel => rfl
  | cons element elements ih =>
    obtain ⟨tag, text⟩ := element
    obtain ⟨⟨hname, htext⟩, hrest⟩ := List.forall_mem_cons.mp helements
    rw [List.length_cons] at hfuel
    obtain ⟨fuel, rfl⟩ := Nat.exists_eq_add_of_le' (Nat.le_trans (Nat.le_add_left 1 _) hfuel)
    have hparts := @xmlElements_cons elements tag text []
    rw [List.append_nil, List.append_nil] at hparts
    have hfirst : splitOnce ['<'] ('\n' :: xmlElements ((tag, text) :: elements)) =
        some (['\n', '\t'], tag.toList ++ '>' ::
          ((text ++ "</".toList ++ tag.toList) ++ '>' :: '\n' :: xmlElements elements)) := by
      rw [hparts]
      exact splitOnce_append (show '<' ∉ ['\n', '\t'] by decide)
    have hhead : splitOnce ['>'] (tag.toList ++ '>' ::
        ((text ++ "</".toList ++ tag.toList) ++ '>' :: '\n' :: xmlElements elements)) =
          some (tag.toList,
            (text ++ "</".toList ++ tag.toList) ++ '>' :: '\n' :: xmlElements elements) :=
      splitOnce_append hname.closed
    have hvalue : splitOnce ("</".toList ++ tag.toList ++ ['>'])
        ((text ++ "</".toList ++ tag.toList) ++ '>' :: '\n' :: xmlElements elements) =
          some (text, '\n' :: xmlElements elements) := by
      have hmarkup : '<' ∉ text := fun hmem => (htext _ hmem).1 rfl
      have hend : (text ++ "</".toList ++ tag.toList) ++ '>' :: '\n' :: xmlElements elements =
          text ++ ('<' :: ('/' :: tag.toList ++ ['>']) ++ '\n' :: xmlElements elements) := by
        simp
      rw [hend]
      exact splitOnce_append hmarkup
    have hplain : ∀ rest, ¬ ((tag.toList ++ rest).head? = some '/' ∨
        (tag.toList ++ rest).head? = some '?' ∨ (tag.toList ++ rest).head? = some '!') := by
      intro rest
      obtain ⟨c, name, htag⟩ := List.exists_cons_of_ne_nil hname.ne_nil
      obtain ⟨hslash, hquestion, hbang⟩ := hname.head_ne c (by rw [htag]; rfl)
      rw [htag]
      simp [hslash, hquestion, hbang]
    rw [xmlChildren, hfirst]
    dsimp only
    rw [hhead]
    dsimp only
    rw [if_neg (hplain _), firstWord_eq_self hname.word, if_neg hname.ne_nil, hvalue]
    dsimp only
    rw [ih hrest (by omega), List.map_cons]

theorem length_le_xmlElements (elements : List (String × List Char)) :
    elements.length ≤ (xmlElements elements).length := by
  induction elements with
  | nil => exact Nat.le_refl _
  | cons element elements ih =>
    obtain ⟨tag, text⟩ := element
    have hcons : xmlElements ((tag, text) :: elements) =
        xmlElement tag text ++ xmlElements elements := List.flatMap_cons
    have hpos : 1 ≤ (xmlElement tag text).length := by simp [xmlElement]
    rw [hcons, List.length_append, List.length_cons]
    omega

/-- The elements of a document are visited in their order. -/
theorem simpleXmlChildren_document {root : List Char} (hroot : '>' ∉ 'x' :: root)
    (helements : Readable ('x' :: root) elements) (behind : List Char) :
    simpleXmlChildren (xmlDeclaration ++ ('<' :: 'x' :: root ++ ">\n".toList) ++
        xmlElements elements ++ ("</".toList ++ 'x' :: root ++ ['>'] ++ behind)) ('x' :: root) =
      elements.map fun element => (element.1.toList, element.2) := by
  have hopen : splitOnce ('<' :: 'x' :: root) (xmlDeclaration ++ ('<' :: 'x' :: root ++
      ">\n".toList) ++ xmlElements elements ++ ("</".toList ++ 'x' :: root ++ ['>'] ++ behind)) =
        some (xmlDeclaration, '>' :: '\n' :: (xmlElements elements ++
          ("</".toList ++ 'x' :: root ++ ['>'] ++ behind))) := by
    obtain ⟨declaration, hdeclaration, hmarkup⟩ : ∃ declaration,
        xmlDeclaration = '<' :: '?' :: declaration ∧ '<' ∉ '?' :: declaration :=
      ⟨xmlDeclaration.tail.tail, rfl, by decide⟩
    have hsplit : ∀ behind, splitOnce ('<' :: 'x' :: root)
        ('?' :: declaration ++ ('<' :: 'x' :: root ++ behind)) = some ('?' :: declaration, behind) :=
      fun behind => splitOnce_append hmarkup
    rw [hdeclaration, List.append_assoc, List.append_assoc, List.append_assoc, List.cons_append,
      splitOnce, ← List.cons_append, hsplit]
    rfl
  have hclose : splitOnce ['>'] ('>' :: '\n' :: (xmlElements elements ++
      ("</".toList ++ 'x' :: root ++ ['>'] ++ behind))) = some ([], '\n' :: (xmlElements elements ++
          ("</".toList ++ 'x' :: root ++ ['>'] ++ behind))) :=
    splitOnce_append List.not_mem_nil
  rw [simpleXmlChildren, hopen]
  dsimp only
  rw [hclose]
  dsimp only
  rw [splitOnce_rootEnd hroot helements]
  dsimp only
  exact xmlChildren_xmlElements helements
    (Nat.le_trans (length_le_xmlElements elements) (Nat.le_succ _))

end Elements

/-! ## Sections -/

theorem stripBom_xmlBytes (xml : List Char) : stripBom (xmlBytes xml) = toUtf8 xml := rfl

/-- Elements for the values that are not empty. -/
def escapedElements (pairs : List (String × String)) : List (String × List Char) :=
  (pairs.filter fun (_, value) => value ≠ "").map fun (tag, value) =>
    (tag, escapeXmlText value.toList)

theorem readable_escapedElements {rootTag : List Char} {pairs : List (String × String)}
    (h : ∀ pair ∈ pairs, pair.2 ≠ "" → IsElementName rootTag pair.1.toList) :
    Readable rootTag (escapedElements pairs) := by
  intro element helement
  obtain ⟨⟨tag, value⟩, hpair, rfl⟩ := List.mem_map.mp helement
  obtain ⟨hmem, hne⟩ := List.mem_filter.mp hpair
  exact ⟨h _ hmem (of_decide_eq_true hne), fun c hc => not_mem_escapeXmlText hc⟩

theorem trimmedPair_eq (tag value : String) :
    trimmedPair (tag, value) = if trim value.toList = [] then none
      else some (tag, String.ofList (trim value.toList)) := by
  simp only [trimmedPair, String.ofList_eq_empty_iff]

/-- The elements of escaped values, and the pairs that are taken from them. -/
theorem trimmedPair_escapedElements (pairs : List (String × String)) :
    ((escapedElements pairs).filter fun element => trim element.2 ≠ []).map (fun element =>
        (element.1, String.ofList (decodeXmlEntities (trim element.2)))) =
      pairs.filterMap trimmedPair := by
  induction pairs with
  | nil => rfl
  | cons pair pairs ih =>
    obtain ⟨tag, value⟩ := pair
    rw [List.filterMap_cons, trimmedPair_eq, ← ih]
    by_cases hempty : value = ""
    · have htrimmed : trim value.toList = [] := by
        rw [hempty]
        rfl
      have hdropped : escapedElements ((tag, value) :: pairs) = escapedElements pairs := by
        simp [escapedElements, hempty]
      rw [hdropped, if_pos htrimmed]
    · have hkept : escapedElements ((tag, value) :: pairs) =
          (tag, escapeXmlText value.toList) :: escapedElements pairs := by
        simp [escapedElements, hempty]
      rw [hkept, List.filter_cons]
      by_cases hblank : trim value.toList = []
      · rw [if_pos hblank, if_neg (by simpa using trim_escapeXmlText_eq_nil_iff.mpr hblank)]
      · rw [if_neg hblank,
          if_pos (by simpa using fun h => hblank (trim_escapeXmlText_eq_nil_iff.mp h)),
          List.map_cons]
        dsimp only
        rw [decodeXmlEntities_escapeXmlText]

/-! ## Headers -/

section Headers

variable {metadata : EwfMetadata}

theorem xmlElements_append (elements others : List (String × List Char)) :
    xmlElements (elements ++ others) = xmlElements elements ++ xmlElements others :=
  List.flatMap_append

theorem xmlElements_escapedElements_cons (tag value : String) (pairs : List (String × String)) :
    xmlElements (escapedElements ((tag, value) :: pairs)) =
      (if value = "" then [] else xmlElement tag (escapeXmlText value.toList)) ++
        xmlElements (escapedElements pairs) := by
  by_cases hempty : value = ""
  · simp [escapedElements, hempty]
  · simp [escapedElements, xmlElements, hempty]

end Headers

/-! ## Digests -/

section Hashes

variable {hashes : WriteHashes}

/-- Known digests are words. -/
def WordDigests (values : HashValues) : Prop :=
  ∀ pair ∈ values, canonicalIdentifier pair.1 ≠ none → ∀ c ∈ pair.2.toList, isWhitespace c = false

theorem isWhitespace_of_toLower {c : Char} (h : isWhitespace c.toLower = false) :
    isWhitespace c = false := by
  by_cases hupper : c.val ≥ 'A'.val ∧ c.val ≤ 'Z'.val
  · have hlow : 65 ≤ c.toNat := hupper.1
    have hhigh : c.toNat ≤ 90 := hupper.2
    rw [isWhitespace, decide_eq_false_iff_not]
    omega
  · have hsame : c.toLower = c := dif_neg hupper
    rw [← hsame]
    exact h

theorem isWhitespace_of_parseHexArray {size : Nat} {text : String} {digest : Bytes}
    (h : parseHexArray size text = some digest) : ∀ c ∈ text.toList, isWhitespace c = false := by
  intro c hc
  obtain ⟨_, hlower⟩ := parseHexArray_eq_some_iff.mp h
  have hmem : c.toLower ∈ digest.flatMap hexPair := by
    rw [← hlower]
    exact List.mem_map_of_mem hc
  obtain ⟨byte, _, hpair⟩ := List.mem_flatMap.mp hmem
  exact isWhitespace_of_toLower (of_mem_hexPair hpair).2

theorem isWhitespace_hexString (digest : Bytes) :
    ∀ c ∈ (hexString digest).toList, isWhitespace c = false :=
  isWhitespace_of_parseHexArray (parseHexArray_hexString digest)

theorem wordDigests_orInsert {values : HashValues} {identifier value : String}
    (h : WordDigests values) (hnew : canonicalIdentifier identifier ≠ none →
      ∀ c ∈ value.toList, isWhitespace c = false) :
    WordDigests (values.orInsert identifier value) := by
  intro pair hpair
  rcases HashValues.mem_orInsert hpair with rfl | hold
  · exact hnew
  · exact h pair hold

theorem wordDigests_insertStoredHash {stored stored' : StoredHashes} {identifier value : String}
    (h : WordDigests stored.hashValues)
    (hinsert : insertStoredHash stored identifier value = .ok stored') :
    WordDigests stored'.hashValues := by
  unfold insertStoredHash at hinsert
  cases hcanonical : canonicalIdentifier identifier with
  | none =>
    rw [hcanonical] at hinsert
    cases hinsert
    exact wordDigests_orInsert h fun hne => absurd hcanonical hne
  | some canonical =>
    rw [hcanonical] at hinsert
    simp only [Fallible.bind_eq_ok, Fallible.pure_eq_ok] at hinsert
    obtain ⟨_, hvalid, _, _, md5, _, sha1, _, hstored⟩ := hinsert
    cases hstored
    refine wordDigests_orInsert h fun _ => ?_
    rw [validateDigest, canonicalIdentifier_canonical hcanonical, Fallible.rejectIf_eq_ok] at hvalid
    dsimp only at hvalid
    rw [Bool.not_eq_false, Option.isSome_iff_exists] at hvalid
    obtain ⟨digest, hdigest⟩ := hvalid
    exact isWhitespace_of_parseHexArray hdigest

/-- The digests that the writer takes are words, and so are the ones that it adds. -/
theorem wordDigests_of_effectiveWriteHashes {requested : WriteHashes} {md5 sha1 sha256 : Bytes}
    (h : effectiveWriteHashes requested md5 sha1 sha256 = .ok hashes) :
    WordDigests hashes.hashValues := by
  simp only [effectiveWriteHashes, validatedWriteHashes, Fallible.bind_eq_ok,
    Fallible.pure_eq_ok] at h
  obtain ⟨_, ⟨stored, hstored, hvalidated⟩, hhashes⟩ := h
  cases hvalidated
  cases hhashes
  have hwords : WordDigests stored.hashValues := by
    refine Fallible.foldlM_invariant (I := fun stored => WordDigests stored.hashValues)
      (fun stored entry stored' hstored _ hinsert =>
        wordDigests_insertStoredHash hstored hinsert) ?_ hstored
    exact fun pair hpair => absurd hpair List.not_mem_nil
  exact wordDigests_orInsert hwords fun _ => isWhitespace_hexString sha256

/-- The elements of the digests that are kept as bytes. -/
def WriteHashes.typedElements (hashes : WriteHashes) : List (String × List Char) :=
  hashes.typedPairs.map fun pair => (pair.1, pair.2.toList)

theorem xhashOtherElements_eq (values : HashValues) :
    xhashOtherElements values =
      xmlElements (escapedElements (values.filter fun pair => ¬ isTypedHashTag pair.1)) := by
  induction values with
  | nil => rfl
  | cons pair values ih =>
    obtain ⟨tag, value⟩ := pair
    have hcons : xhashOtherElements ((tag, value) :: values) =
        (if isTypedHashTag tag ∨ value = "" then []
          else xmlElement tag (escapeXmlText value.toList)) ++ xhashOtherElements values :=
      List.flatMap_cons
    rw [hcons, ih, List.filter_cons]
    by_cases htyped : isTypedHashTag tag = true
    · rw [if_pos (.inl htyped), if_neg (by simpa using htyped)]
      rfl
    · rw [if_congr (or_iff_right htyped) rfl rfl, if_pos (decide_eq_true htyped),
        xmlElements_escapedElements_cons]

theorem xhashXml_eq {xml : List Char} (h : xhashXml hashes = some xml) :
    xml = xmlDeclaration ++ ('<' :: "xhash".toList ++ ">\n".toList) ++
      xmlElements (hashes.typedElements ++ escapedElements hashes.otherPairs) ++
        ("</".toList ++ "xhash".toList ++ ['>'] ++ "\n\n".toList) := by
  have htyped : xmlElements hashes.typedElements =
      (hashes.md5.elim [] fun md5 => xmlElement "md5" (hexString md5).toList) ++
        hashes.sha1.elim [] fun sha1 => xmlElement "sha1" (hexString sha1).toList := by
    rw [WriteHashes.typedElements, WriteHashes.typedPairs, List.map_append, xmlElements_append]
    congr 1
    · cases hashes.md5 with
      | none => rfl
      | some md5 => simp [xmlElements]
    · cases hashes.sha1 with
      | none => rfl
      | some sha1 => simp [xmlElements]
  rw [xhashXml, Option.ite_none_left_eq_some] at h
  rw [← Option.some.inj h.2, xmlElements_append, htyped, xhashOtherElements_eq]
  simp only [List.append_assoc]
  rfl

theorem hexDigit_plain {digest : Bytes} {c : Char} (h : c ∈ (hexString digest).toList) :
    c ≠ '<' ∧ c ≠ '>' ∧ c ≠ '&' := by
  rw [toList_hexString] at h
  obtain ⟨byte, _, hpair⟩ := List.mem_flatMap.mp h
  have hall : ∀ n < 256, (hexPair (UInt8.ofNat n)).all
      (fun c => c ≠ '<' ∧ c ≠ '>' ∧ c ≠ '&') = true := by
    decide +kernel
  have hbyte := hall byte.toNat byte.toNat_lt
  rw [UInt8.ofNat_toNat, List.all_eq_true] at hbyte
  exact of_decide_eq_true (hbyte c hpair)

/-- Typed digests under their tags, and their texts. -/
theorem exists_of_mem_typedPairs {pair : String × String} (h : pair ∈ hashes.typedPairs) :
    ∃ digest, (pair.1 = "md5" ∨ pair.1 = "sha1") ∧ pair.2 = hexString digest := by
  rcases List.mem_append.mp h with hmd5 | hsha1
  · obtain ⟨digest, _, rfl⟩ := List.mem_map.mp hmd5
    exact ⟨digest, .inl rfl, rfl⟩
  · obtain ⟨digest, _, rfl⟩ := List.mem_map.mp hsha1
    exact ⟨digest, .inr rfl, rfl⟩

/-- A typed digest is read as it is. -/
theorem map_typedElements (hashes : WriteHashes) :
    hashes.typedElements.map (fun element =>
        (element.1, String.ofList (decodeXmlEntities (trim element.2)))) = hashes.typedPairs := by
  rw [WriteHashes.typedElements, List.map_map]
  have hsame : ∀ pair ∈ hashes.typedPairs, ((fun element : String × List Char =>
      (element.1, String.ofList (decodeXmlEntities (trim element.2)))) ∘
        fun pair => (pair.1, pair.2.toList)) pair = pair := by
    intro pair hpair
    obtain ⟨digest, _, htext⟩ := exists_of_mem_typedPairs hpair
    dsimp only [Function.comp]
    rw [htext, trim_eq_self_of_word (isWhitespace_hexString digest),
      decodeXmlEntities_eq fun hmem => (hexDigit_plain hmem).2.2 rfl, String.ofList_toList, ← htext]
  rw [List.map_congr_left hsame, List.map_id']

/-- Of the other digests only values of white space are left out. -/
theorem filter_escapedElements (hwords : WordDigests hashes.hashValues) :
    ((escapedElements hashes.otherPairs).map fun element =>
        (element.1, String.ofList (decodeXmlEntities (trim element.2)))).filter
      (fun pair => ¬ (pair.2 = "" ∧ canonicalIdentifier pair.1 = none)) =
    hashes.otherPairs.filterMap trimmedPair := by
  rw [← trimmedPair_escapedElements, List.filter_map]
  congr 1
  refine List.filter_congr fun element helement => ?_
  obtain ⟨⟨tag, value⟩, hpair, rfl⟩ := List.mem_map.mp helement
  obtain ⟨hmem, hne⟩ := List.mem_filter.mp hpair
  have hstored : (tag, value) ∈ hashes.hashValues := (List.mem_filter.mp hmem).1
  have hvalue : value ≠ "" := of_decide_eq_true hne
  rw [Function.comp_def, decide_eq_decide]
  dsimp only
  rw [decodeXmlEntities_escapeXmlText, String.ofList_eq_empty_iff, Ne,
    trim_escapeXmlText_eq_nil_iff, not_iff_not]
  refine ⟨fun h => h.1, fun h => ⟨h, ?_⟩⟩
  by_contra hknown
  rw [trim_eq_self_of_word (hwords _ hstored hknown), String.toList_eq_nil_iff] at h
  exact hvalue h

theorem xhashEntries_eq {xml : List Char} (h : xhashXml hashes = some xml)
    (hwords : WordDigests hashes.hashValues)
    (htags : ∀ pair ∈ hashes.hashValues, pair.2 ≠ "" →
      IsElementName "xhash".toList pair.1.toList) :
    xhashEntries (xmlBytes xml) =
      hashes.typedPairs ++ hashes.otherPairs.filterMap trimmedPair := by
  have hreadable : Readable "xhash".toList
      (hashes.typedElements ++ escapedElements hashes.otherPairs) := by
    intro element helement
    rcases List.mem_append.mp helement with htyped | hother
    · obtain ⟨pair, hpair, rfl⟩ := List.mem_map.mp htyped
      obtain ⟨digest, htag, htext⟩ := exists_of_mem_typedPairs hpair
      refine ⟨?_, fun c hc => ?_⟩
      · dsimp only
        rcases htag with htag | htag
        · rw [htag]
          decide
        · rw [htag]
          decide
      · dsimp only at hc
        rw [htext] at hc
        have hplain := hexDigit_plain hc
        exact ⟨hplain.1, hplain.2.1⟩
    · refine readable_escapedElements (fun pair hpair hne => ?_) element hother
      exact htags pair (List.mem_filter.mp hpair).1 hne
  have hchildren : simpleXmlChildren xml "xhash".toList =
      (hashes.typedElements ++ escapedElements hashes.otherPairs).map fun element =>
        (element.1.toList, element.2) := by
    rw [xhashXml_eq h]
    exact simpleXmlChildren_document (by decide) hreadable _
  have hknown : hashes.typedPairs.filter
      (fun pair => ¬ (pair.2 = "" ∧ canonicalIdentifier pair.1 = none)) = hashes.typedPairs := by
    rw [List.filter_eq_self]
    intro pair hpair
    obtain ⟨_, htag, _⟩ := exists_of_mem_typedPairs hpair
    refine decide_eq_true fun hdropped => ?_
    rcases htag with htag | htag
    · rw [htag] at hdropped
      exact absurd hdropped.2 (by decide)
    · rw [htag] at hdropped
      exact absurd hdropped.2 (by decide)
  rw [xhashEntries, stripBom_xmlBytes, fromUtf8Lossy_toUtf8, hchildren, List.map_map,
    List.map_append, List.filter_append, ← filter_escapedElements hwords, ← hknown]
  have htyped := map_typedElements hashes
  simp only [Function.comp_def, String.ofList_toList] at htyped ⊢
  rw [htyped]

end Hashes

/-! ## Payloads -/

end EwfImage
