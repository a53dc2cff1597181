import EwfImage.Error
import EwfImage.Types

/-!
# Stored digests

The validation that digest readers and writers share. Identifiers other than
`MD5`, `SHA1` and `SHA256` are kept as they are; the three known ones are stored
under their canonical name, must be hexadecimal of the required length, and may
not contradict a digest that is already present.

A list of digests is kept in the order of insertion. The text of a known digest is compared
without regard to the case of its letters and stored in small ones, and the typed value beside
it is taken from the text.
-/

namespace EwfImage

open Fallible

def eqIgnoreAsciiCase (left right : String) : Bool :=
  left.toList.map Char.toLower == right.toList.map Char.toLower

def hexNibble (value : UInt8) : Option UInt8 :=
  if 48 ≤ value ∧ value ≤ 57 then some (value - 48)
  else if 97 ≤ value ∧ value ≤ 102 then some (value - 97 + 10)
  else if 65 ≤ value ∧ value ≤ 70 then some (value - 65 + 10)
  else none

def hexPairs : Bytes → Option Bytes
  | high :: low :: rest => do
    let high ← hexNibble high
    let low ← hexNibble low
    let bytes ← hexPairs rest
    return ((high <<< 4) ||| low) :: bytes
  | _ => some []

def utf8Bytes (text : String) : Bytes := text.toUTF8.data.toList

/-- The bytes of a hexadecimal text of `2 * size` digits. -/
def parseHexArray (size : Nat) (text : String) : Option Bytes :=
  if (utf8Bytes text).length = size * 2 then hexPairs (utf8Bytes text) else none

def hexDigit (value : UInt8) : Char :=
  if value < 10 then Char.ofNat (48 + value.toNat) else Char.ofNat (87 + value.toNat)

def hexString (bytes : Bytes) : String :=
  String.ofList (bytes.flatMap fun (byte : UInt8) => [hexDigit (byte >>> 4), hexDigit (byte &&& 0x0f)])

namespace HashValues

def get (values : HashValues) (identifier : String) : Option String :=
  values.lookup identifier

def insert (values : HashValues) (identifier value : String) : HashValues :=
  match values with
  | [] => [(identifier, value)]
  | (key, old) :: rest =>
    if identifier = key then (key, value) :: rest
    else if identifier < key then (identifier, value) :: (key, old) :: rest
    else (key, old) :: insert rest identifier value

def orInsert (values : HashValues) (identifier value : String) : HashValues :=
  if (values.get identifier).isSome then values else values.insert identifier value

end HashValues

def canonicalIdentifier (identifier : String) : Option String :=
  ["MD5", "SHA1", "SHA256"].find? (eqIgnoreAsciiCase identifier)

def digestSize (canonical : String) : Nat :=
  if canonical = "MD5" then 16 else if canonical = "SHA1" then 20 else 32

def validateDigest (identifier value : String) : Result Unit :=
  let valid := match canonicalIdentifier identifier with
    | some canonical => (parseHexArray (digestSize canonical) value).isSome
    | none => true
  rejectIf (valid = false)
    (.malformed s!"invalid {identifier} digest: expected hexadecimal of the required length")

/-- Join a parsed digest with the one already stored. -/
def mergeTyped (target source : Option Bytes) (identifier : String) : Result (Option Bytes) := do
  rejectIf (target.isSome ∧ target ≠ source)
    (.malformed s!"conflicting stored {identifier} digests")
  return source

def insertStoredHash (hashes : StoredHashes) (identifier value : String) : Result StoredHashes :=
  match canonicalIdentifier identifier with
  | none => .ok { hashes with hashValues := hashes.hashValues.orInsert identifier value }
  | some canonical => do
    validateDigest canonical value
    rejectIf ((hashes.hashValues.get canonical).any fun old => !eqIgnoreAsciiCase old value)
      (.malformed s!"conflicting stored {canonical} digests")
    let md5 ← (if canonical = "MD5" then mergeTyped hashes.md5 (parseHexArray 16 value) canonical
      else .ok hashes.md5)
    let sha1 ← (if canonical = "SHA1" then mergeTyped hashes.sha1 (parseHexArray 20 value) canonical
      else .ok hashes.sha1)
    return { md5, sha1, hashValues := hashes.hashValues.orInsert canonical value }

end EwfImage
