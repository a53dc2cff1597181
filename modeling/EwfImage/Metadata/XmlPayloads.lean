import EwfImage.Lib.Utf8
import EwfImage.Metadata.DateTime
import EwfImage.Writer.Options

/-!
# XML headers and hashes

The XML sections of EWF1 as the writer makes them of its header values and digests, and the pairs
of a tag and a value that the reader takes from them.

The order of the pairs is that of the writer, and the escapes are those of the source: five
characters in values, none in tags. The reader is the program's own small scanner for elements,
with its trimming and its entities, and not a general XML parser. The compression of the
sections is left out.
-/

namespace EwfImage

open Text

/-- The header values that an XML header can hold, each absent or a text; a value without a name of
its own goes into the list behind them. -/
structure EwfMetadata where
  caseNumber : Option String := none
  evidenceNumber : Option String := none
  examiner : Option String := none
  description : Option String := none
  notes : Option String := none
  acquisitionSoftware : Option String := none
  acquisitionSoftwareVersion : Option String := none
  osVersion : Option String := none
  acquisitionDate : Option String := none
  password : Option String := none
  headerValues : HashValues := []
  deriving DecidableEq

/-! ## Writing -/

def xmlDeclaration : List Char := "<?xml version=\"1.0\" encoding=\"UTF-8\"?>\n".toList

/-- An element whose text is escaped already. -/
def xmlElement (tag : String) (text : List Char) : List Char :=
  "\t<".toList ++ tag.toList ++ '>' :: text ++ "</".toList ++ tag.toList ++ ">\n".toList

def EwfMetadata.xheaderFields (metadata : EwfMetadata) : List (String × Option String) := [
  ("case_number", metadata.caseNumber),
  ("description", metadata.description),
  ("examiner_name", metadata.examiner),
  ("evidence_number", metadata.evidenceNumber),
  ("notes", metadata.notes),
  ("acquiry_operating_system", metadata.osVersion),
  ("acquiry_date", metadata.acquisitionDate),
  ("acquiry_software", metadata.acquisitionSoftware),
  ("acquiry_software_version", metadata.acquisitionSoftwareVersion),
  ("password", metadata.password)]

/-- The spellings of the tags that the typed digests take. -/
def isTypedHashTag (tag : String) : Bool := tag ∈ ["MD5", "md5", "SHA1", "sha1"]

def xhashOtherElements (hashValues : HashValues) : List Char :=
  hashValues.flatMap fun (tag, value) =>
    if isTypedHashTag tag ∨ value = "" then [] else xmlElement tag (escapeXmlText value.toList)

/-- The text of an XML hash section, if there is a digest to put into it. -/
def xhashXml (hashes : WriteHashes) : Option (List Char) :=
  if hashes.md5 = none ∧ hashes.sha1 = none ∧ hashes.hashValues = [] then none
  else
    let md5 := hashes.md5.elim [] fun md5 => xmlElement "md5" (hexString md5).toList
    let sha1 := hashes.sha1.elim [] fun sha1 => xmlElement "sha1" (hexString sha1).toList
    some (xmlDeclaration ++ "<xhash>\n".toList ++ md5 ++ sha1 ++
      xhashOtherElements hashes.hashValues ++ "</xhash>\n\n".toList)

/-- The bytes of an XML section, with a byte order mark in front of its text. -/
def xmlBytes (xml : List Char) : Bytes := [0xef, 0xbb, 0xbf] ++ toUtf8 xml

section Payload

/- The compression of a payload at the level of the writer. -/
variable (zlibPayload : Bytes → Bytes)

def xhashPayload (hashes : WriteHashes) : Option Bytes :=
  (xhashXml hashes).map fun xml => zlibPayload (xmlBytes xml)

end Payload

/-! ## Reading -/

/-- The pairs of header values, a value of its own field in front of one in the map. -/
def EwfMetadata.pairs (metadata : EwfMetadata) : List (String × String) :=
  (metadata.xheaderFields.filterMap fun (tag, value) => value.map fun value => (tag, value)) ++
    metadata.headerValues.filter fun (tag, _) => ¬ metadata.xheaderFields.any (·.1 = tag)

/-- The digests that are kept as bytes, and their texts. -/
def WriteHashes.typedPairs (hashes : WriteHashes) : List (String × String) :=
  (hashes.md5.toList.map fun md5 => ("md5", hexString md5)) ++
    hashes.sha1.toList.map fun sha1 => ("sha1", hexString sha1)

/-- The pairs of the other digests. -/
def WriteHashes.otherPairs (hashes : WriteHashes) : List (String × String) :=
  hashes.hashValues.filter fun (tag, _) => ¬ isTypedHashTag tag

/-- A value without the white space around it, unless nothing is left. -/
def trimmedPair (pair : String × String) : Option (String × String) :=
  let value := String.ofList (trim pair.2.toList)
  if value = "" then none else some (pair.1, value)

/-- The names that are read as the names of elements inside a root: one word that does not look like
a closing tag, a declaration or a comment, and does not end the root. -/
structure IsElementName (rootTag tag : List Char) : Prop where
  ne_nil : tag ≠ []
  word : ∀ c ∈ tag, isWhitespace c = false
  closed : '>' ∉ tag
  head_ne : ∀ c ∈ tag.head?, c ≠ '/' ∧ c ≠ '?' ∧ c ≠ '!'
  inside : ¬ "</".toList ++ rootTag <:+ "</".toList ++ tag

instance (rootTag tag : List Char) : Decidable (IsElementName rootTag tag) :=
  decidable_of_iff (tag ≠ [] ∧ (tag.all fun c => !isWhitespace c) ∧ '>' ∉ tag ∧
      (tag.head?.all fun c => c ≠ '/' ∧ c ≠ '?' ∧ c ≠ '!') ∧
      ¬ "</".toList ++ rootTag <:+ "</".toList ++ tag) <| by
    rw [List.all_eq_true, Option.all_eq_true]
    constructor
    · rintro ⟨ne_nil, word, closed, head_ne, inside⟩
      exact ⟨ne_nil, fun c hc => by simpa using word c hc, closed,
        fun c hc => of_decide_eq_true (head_ne c hc), inside⟩
    · rintro ⟨ne_nil, word, closed, head_ne, inside⟩
      exact ⟨ne_nil, fun c hc => by simpa using word c hc, closed,
        fun c hc => decide_eq_true (head_ne c hc), inside⟩

end EwfImage
