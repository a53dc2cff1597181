import EwfImage.Aff4.Text
import EwfImage.Image.HexDigests
import EwfImage.Lib.Slice
import EwfImage.Lib.Utf16
import EwfImage.Metadata.DateTime

/-!
# Extended attributes of single files

The column of the catalog of single files that holds the extended attributes of an entry: a
hexadecimal text of records, the first of which is the header. The names and values in the
records are UTF-16 texts with a terminator, counted in units.

`size_of_parseExtendedAttributeRecord` is why the parser's loop ends: each record takes at least
its own header. A record whose lengths exceed what is left is an error. The change of texts that
the writer makes is the one of its headers.
-/

namespace EwfImage

open Aff4 (parseHexByte)
open Fallible LittleEndian Slice Text Word

structure SingleFileAttribute where
  name : Option String
  value : Option String
  deriving DecidableEq, Repr

/-- The record of the branch with the name `Attributes`. -/
def extendedAttributesHeader : Bytes :=
  [0x00, 0x00, 0x00, 0x00, 0x01, 0x0b, 0x00, 0x00, 0x00, 0x01, 0x00, 0x00, 0x00, 0x41, 0x00, 0x74,
    0x00, 0x74, 0x00, 0x72, 0x00, 0x69, 0x00, 0x62, 0x00, 0x75, 0x00, 0x74, 0x00, 0x65, 0x00, 0x73,
    0x00, 0x00, 0x00, 0x00, 0x00]

/-! ## The writer -/

def utf16le (text : String) : Bytes := Utf16.toBytes (Utf16.encode text.toList)

def optionalText (value : Option String) : String :=
  (value.map fun value => String.ofList (sanitizeHeaderValue value.toList)).getD ""

def optionalUtf16leNullTerminated : Option String → Bytes
  | none => []
  | some value => utf16le (optionalText (some value)) ++ toLE 2 0

/-- The record of an attribute behind the records in front of it. -/
def appendSingleFileAttribute (data : Bytes) (attr : SingleFileAttribute) : Result Bytes := do
  let name := optionalUtf16leNullTerminated attr.name
  let value := optionalUtf16leNullTerminated attr.value
  rejectIf (u32Limit ≤ name.length / 2)
    (.unsupported "single file attribute name length exceeds u32")
  rejectIf (u32Limit ≤ value.length / 2)
    (.unsupported "single file attribute value length exceeds u32")
  return data ++ ([0, 0, 0, 0] ++ [0] ++ toLE 4 (name.length / 2) ++ toLE 4 (value.length / 2) ++
    name ++ value)

def singleFileAttributesValue (attributes : List SingleFileAttribute) : Result String :=
  if attributes = [] then return ""
  else do
    let data ← attributes.foldlM appendSingleFileAttribute extendedAttributesHeader
    return hexString data

/-! ## The parser -/

/-- The bytes of pairs of hexadecimal digits. -/
def parseHexPairs (label : String) : List Char → Result Bytes
  | high :: low :: rest => do
    let byte ← okOr (.malformed s!"invalid EWF2 single files {label} hexadecimal value")
      (parseHexByte (String.ofList [high, low]))
    let bytes ← parseHexPairs label rest
    return byte :: bytes
  | _ => return []

def parseHexByteStream (value label : String) : Result Bytes := do
  let hex := value.toList.filter fun character => !isWhitespace character
  rejectIf ((hex.flatMap String.utf8EncodeChar).length % 2 ≠ 0)
    (.malformed s!"EWF2 single files {label} has odd hexadecimal size")
  rejectIf (¬ hex.all fun character => character.toNat < 128)
    (.malformed s!"invalid EWF2 single files {label} hexadecimal value")
  parseHexPairs label hex

def utf16ByteSize (units : Nat) (label : String) : Result Nat := do
  rejectIf (u64Limit ≤ units) (.malformed s!"{label} size does not fit usize")
  okOr (.malformed s!"{label} size overflow") (checkedMul units 2)

def decodeOptionalUtf16leString (data : Bytes) (label : String) : Result (Option String) :=
  if data = [] then return none
  else do
    rejectIf (data.length % 2 ≠ 0) (.malformed s!"{label} has odd UTF-16 size")
    let text ← okOr (.malformed s!"{label} is not valid UTF-16LE")
      (Utf16.decode (Utf16.ofBytes data))
    let text := if text.getLast? = some '\x00' then text.dropLast else text
    return if text = [] then none else some (String.ofList text)

structure ParsedExtendedAttribute where
  name : Option String
  value : Option String
  isBranch : Bool
  deriving DecidableEq, Repr

/-- The record at the front of the data, with its size. -/
def parseExtendedAttributeRecord (data : Bytes) : Result (ParsedExtendedAttribute × Nat) := do
  rejectIf (data.length < 13) (.malformed "EWF2 single files extended attribute is truncated")
  let isBranch := data.getD 4 0 ≠ 0
  let nameUnits := leAt data 5 4
  let valueUnits := leAt data 9 4
  let nameSize ← utf16ByteSize nameUnits "extended attribute name"
  let valueSize ← utf16ByteSize valueUnits "extended attribute value"
  let valueOffset ← okOr (.malformed "extended attribute value offset overflow")
    (checkedAdd 13 nameSize)
  let endOffset ← okOr (.malformed "extended attribute end offset overflow")
    (checkedAdd valueOffset valueSize)
  rejectIf (data.length < endOffset)
    (.malformed "EWF2 single files extended attribute is truncated")
  let name ← decodeOptionalUtf16leString (slice data 13 nameSize) "extended attribute name"
  let value ← decodeOptionalUtf16leString (slice data valueOffset valueSize)
    "extended attribute value"
  return ({ name := name, value := value, isBranch := isBranch }, endOffset)

theorem size_of_parseExtendedAttributeRecord {data : Bytes} {attr : ParsedExtendedAttribute}
    {readSize : Nat} (h : parseExtendedAttributeRecord data = .ok (attr, readSize)) :
    13 ≤ readSize ∧ readSize ≤ data.length := by
  simp only [parseExtendedAttributeRecord, bind_eq_ok, rejectIf_eq_ok, okOr_eq_ok,
    checkedAdd_eq_some, pure_eq_ok, Except.ok.injEq, Prod.mk.injEq] at h
  obtain ⟨-, -, nameSize, -, valueSize, -, valueOffset, ⟨-, hvalue⟩, endOffset, ⟨-, hend⟩, -,
    hlength, name, -, value, -, -, rfl⟩ := h
  omega

/-- The attributes of the records from an offset on. An offset in the data does not overflow. -/
def parseExtendedAttributesFrom (data : Bytes) (offset : Nat) :
    Result (List SingleFileAttribute) :=
  if _hoffset : offset < data.length then
    match _hread : parseExtendedAttributeRecord (data.drop offset) with
    | .error e => .error e
    | .ok (attr, readSize) => do
      let attributes ← parseExtendedAttributesFrom data (offset + readSize)
      return if attr.isBranch then attributes
        else { name := attr.name, value := attr.value } :: attributes
  else return []
termination_by data.length - offset
decreasing_by
  have hsize := size_of_parseExtendedAttributeRecord _hread
  omega

def parseExtendedAttributes (value : String) : Result (List SingleFileAttribute) := do
  let data ← parseHexByteStream value "extended attributes"
  if data = [] then return []
  else do
    rejectIf (data.length < extendedAttributesHeader.length ∨
        data.take extendedAttributesHeader.length ≠ extendedAttributesHeader)
      (.malformed "EWF2 single files extended attributes header is unsupported")
    parseExtendedAttributesFrom data 0

end EwfImage
