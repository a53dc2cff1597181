import EwfImage.Format.Ewf1
import EwfImage.Hashes
import EwfImage.Lib.Fallible
import EwfImage.Lib.Text

/-!
# Stored digests of an image

Opening an image collects the digests of its hash, digest and XML hash sections, first for
each segment and then over the segments. MD5 and SHA1 are kept as bytes and as texts.

A contradiction between two digests of one algorithm is an error of opening; texts that are no
digest are kept for identifiers that nothing checks. The sections are in the order of the file.
What the order matters is the subject of `Image.StoredHashesOrder`.
-/

namespace EwfImage

open Ewf1 Fallible LittleEndian Slice Text Word

/-! ## XML hashes -/

/-- `decode_xml_entities` over at most as many entities as there are characters. -/
def decodeXmlEntitiesFrom : Nat → List Char → List Char
  | 0, rest => rest
  | fuel + 1, rest =>
    match splitOnce ['&'] rest with
    | none => rest
    | some (before, behind) => before ++ match splitOnce [';'] behind with
      | none => '&' :: behind
      | some (name, rest) =>
        (if name = "amp".toList then ['&']
        else if name = "lt".toList then ['<']
        else if name = "gt".toList then ['>']
        else if name = "quot".toList then ['"']
        else if name = "apos".toList then ['\'']
        else '&' :: name ++ [';']) ++ decodeXmlEntitiesFrom fuel rest

def decodeXmlEntities (value : List Char) : List Char := decodeXmlEntitiesFrom value.length value

/-- The elements of `for_each_simple_xml_child` in the body of its root; every turn takes at least
one character. -/
def xmlChildren : Nat → List Char → List (List Char × List Char)
  | 0, _ => []
  | fuel + 1, body =>
    match splitOnce ['<'] body with
    | none => []
    | some (_, body) =>
      match splitOnce ['>'] body with
      | none => []
      | some (head, behind) =>
        if body.head? = some '/' ∨ body.head? = some '?' ∨ body.head? = some '!' then
          xmlChildren fuel behind
        else if firstWord head = [] then xmlChildren fuel behind
        else match splitOnce ("</".toList ++ firstWord head ++ ['>']) behind with
          | none => []
          | some (value, rest) => (firstWord head, value) :: xmlChildren fuel rest

/-- The name and the text of each element that `for_each_simple_xml_child` visits. -/
def simpleXmlChildren (text rootTag : List Char) : List (List Char × List Char) :=
  match splitOnce ('<' :: rootTag) text with
  | none => []
  | some (_, behind) =>
    match splitOnce ['>'] behind with
    | none => []
    | some (_, inside) =>
      match splitOnce ("</".toList ++ rootTag ++ ['>']) inside with
      | none => []
      | some (body, _) => xmlChildren body.length body

def stripBom (raw : Bytes) : Bytes :=
  if [0xef, 0xbb, 0xbf].isPrefixOf raw then raw.drop 3 else raw

/-- The digests that `parse_xhash_data` stores. -/
def xhashEntries (raw : Bytes) : List (String × String) :=
  ((simpleXmlChildren (fromUtf8Lossy (stripBom raw)) "xhash".toList).map fun (tag, value) =>
    (String.ofList tag, String.ofList (decodeXmlEntities (trim value)))).filter fun (tag, value) =>
      ¬ (value = "" ∧ canonicalIdentifier tag = none)

/-! ## Sections -/

/-- The sections that store digests. -/
inductive HashSection
  | ewf1Hash (data : Bytes)
  | ewf1Digest (data : Bytes)
  | ewf1Xhash (data : Bytes)
  | ewf2Md5Hash (data : Bytes)
  | ewf2Sha1Hash (data : Bytes)

def validateHashSectionSize (observed expected : Nat) (label : String) : Result Unit :=
  rejectIf (observed ≠ expected)
    (.malformed s!"{label} hash section has size {observed}, expected {expected}")

/-- `parse_nonzero_hash`; a digest of zeros is a placeholder. -/
def parseNonzeroHash (size : Nat) (data : Bytes) : Option Bytes :=
  if size ≤ data.length ∧ (data.take size).any (· ≠ 0) then some (data.take size) else none

def hashEntry (identifier : String) (hash : Option Bytes) : List (String × String) :=
  hash.toList.map fun hash => (identifier, hexString hash)

/-- The digests that a section stores. `metadataPayload` decompresses the metadata of the image. -/
def HashSection.entries (metadataPayload : Bytes → Result Bytes) :
    HashSection → Result (List (String × String))
  | .ewf1Hash data => do
    validateHashSectionSize data.length 36 "EWF1 MD5"
    validateAdler32ChecksumValue (leAt data 32 4) (data.take 32) "EWF1 MD5 hash"
    return hashEntry "MD5" (parseNonzeroHash 16 data)
  | .ewf1Digest data => do
    validateHashSectionSize data.length 80 "EWF1 digest"
    validateAdler32ChecksumValue (leAt data 76 4) (data.take 76) "EWF1 digest"
    return hashEntry "MD5" (parseNonzeroHash 16 (data.take 16)) ++
      hashEntry "SHA1" (parseNonzeroHash 20 (slice data 16 20))
  | .ewf1Xhash data => do
    let payload ← metadataPayload data
    return xhashEntries payload
  | .ewf2Md5Hash data => do
    validateHashSectionSize data.length 32 "EWF2 MD5"
    validateAdler32ChecksumValue (leAt data 16 4) (data.take 16) "EWF2 MD5 hash"
    return hashEntry "MD5" (parseNonzeroHash 16 data)
  | .ewf2Sha1Hash data => do
    validateHashSectionSize data.length 32 "EWF2 SHA1"
    validateAdler32ChecksumValue (leAt data 20 4) (data.take 20) "EWF2 SHA1 hash"
    return hashEntry "SHA1" (parseNonzeroHash 20 data)

/-! ## Merging -/

/-- Stores digests one after the other. -/
def insertAll (hashes : StoredHashes) (entries : List (String × String)) : Result StoredHashes :=
  entries.foldlM (fun hashes (identifier, value) => insertStoredHash hashes identifier value) hashes

def segmentHashes (metadataPayload : Bytes → Result Bytes) (sections : List HashSection) :
    Result StoredHashes :=
  sections.foldlM (fun hashes found => do
    let entries ← found.entries metadataPayload
    insertAll hashes entries) {}

/-- What `merge_hashes` stores, in its order. -/
def StoredHashes.entries (source : StoredHashes) : List (String × String) :=
  hashEntry "MD5" source.md5 ++ hashEntry "SHA1" source.sha1 ++ source.hashValues

def mergeHashes (target source : StoredHashes) : Result StoredHashes :=
  insertAll target source.entries

/-- The stored digests of an image with these segments. -/
def openStoredHashes (metadataPayload : Bytes → Result Bytes) (segments : List (List HashSection)) :
    Result StoredHashes :=
  segments.foldlM (fun stored sections => do
    let parsed ← segmentHashes metadataPayload sections
    mergeHashes stored parsed) {}

end EwfImage
