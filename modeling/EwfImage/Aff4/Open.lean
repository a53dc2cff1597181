import EwfImage.Aff4.Container

/-!
# Opening a container

What `open_with_limits` does with an admitted archive: it checks the version and the volume
identifier and collects the statements of the metadata members, starting with
`information.turtle` and following its imports.

Opening is a function of the admitted archive and the limits: it makes the container of all
later modules or gives the error of the source. The parser of Turtle is one of the `Libraries`;
what it may return is left open.
-/

namespace EwfImage.Aff4

open Fallible Std

/-- The `White_Space` characters of Unicode. -/
def isWhitespace (c : Char) : Bool :=
  let n := c.toNat
  (9 ≤ n ∧ n ≤ 13) ∨ n = 0x20 ∨ n = 0x85 ∨ n = 0xA0 ∨ n = 0x1680 ∨ (0x2000 ≤ n ∧ n ≤ 0x200A) ∨
    n = 0x2028 ∨ n = 0x2029 ∨ n = 0x202F ∨ n = 0x205F ∨ n = 0x3000

def trimEndMatches (p : Char → Bool) (text : List Char) : List Char :=
  (text.reverse.dropWhile p).reverse

/-- `str::trim`. -/
def trim (text : String) : String :=
  String.ofList (trimEndMatches isWhitespace (text.toList.dropWhile isWhitespace))

/-- `trim_end_matches` of NUL characters, and `trim`. -/
def trimVolume (text : String) : String :=
  trim (String.ofList (trimEndMatches (· = '\x00') text.toList))

/-- `split_once('=')`. -/
def splitField (line : String) : Option (String × String) :=
  if '=' ∈ line.toList then
    some (String.ofList (line.toList.takeWhile (· ≠ '=')),
      String.ofList (line.toList.dropWhile (· ≠ '=')).tail)
  else none

/-- The fields of `version.txt`. -/
def versionFields (text : String) : Result (TreeMap String String) :=
  (lines text).foldlM (fun fields line => match splitField line with
    | none => .ok fields
    | some (key, value) => do
      refuseIf (fields.contains (trim key)) (.malformed "duplicate version field")
      return fields.insert (trim key) (trim value)) ∅

def readVersion (archive : ZipArchive) : Result (Nat × Nat) := do
  let bytes ← archive.member "version.txt" 4096
  let text ← okOr (.malformed "invalid version text") (fromUtf8 bytes)
  let fields ← versionFields text
  let major ← okOr (.malformed "missing or invalid major version")
    (fields["major"]?.bind parseU32)
  let minor ← okOr (.malformed "missing or invalid minor version")
    (fields["minor"]?.bind parseU32)
  refuseIf ((major, minor) ∉ [(1, 0), (1, 1), (2, 1)])
    (.unsupported "container version (supported: 1.0, legacy logical 1.1, draft logical 2.1)")
  return (major, minor)

def readVolume (archive : ZipArchive) : Result String := do
  let comment ← okOr (.malformed "volume comment is not UTF-8") (fromUtf8 archive.comment)
  let comment := trimVolume comment
  let description ← (if archive.hasName "container.description" then do
      let bytes ← archive.member "container.description" 4096
      okOr (.malformed "volume name is not UTF-8") (fromUtf8 bytes)
    else .ok comment)
  let volume := trimVolume description
  refuseIf (¬ startsWith volume "aff4://" ∨ volume.utf8ByteSize ≤ 7)
    (.malformed "missing AFF4 volume URI")
  refuseIf (comment ≠ "" ∧ comment ≠ volume) (.malformed "conflicting volume identifiers")
  return volume

/-! ## Metadata -/

/-- The metadata that has been collected. -/
structure Metadata where
  graph : Graph := ∅
  /-- The members still to be read; the last one is next. -/
  pending : List String
  seen : List String := []
  members : TreeMap String String := ∅
  remaining : Nat
  triples : Nat := 0

section Collecting

variable (libraries : Libraries) (archive : ZipArchive) (limits : Limits) (volume : String)
  (version : Nat × Nat)

def addTriple (metadata : Metadata) (statement : Except String RdfTriple) : Result Metadata := do
  refuseIf (limits.triples ≤ metadata.triples) (.malformed "RDF triple limit exceeded")
  let triple ← (match statement with
    | .error e => .error (.malformed s!"Turtle: {e}")
    | .ok triple => .ok triple)
  let property := triple.property
  let pending ← (if isProperty triple.predicate "imports" then do
      refuseIf property.datatype.isSome (.malformed "metadata import must be an IRI")
      let name ← storageName archive volume property.value version
      return metadata.pending ++ [name]
    else .ok metadata.pending)
  return { metadata with
    graph := metadata.graph.insert triple.subject.text
      (metadata.graph.getD triple.subject.text [] ++ [property])
    pending
    triples := metadata.triples + 1 }

def addMember (metadata : Metadata) (name : String) : Result Metadata := do
  let turtle ← archive.member name metadata.remaining
  (libraries.turtle turtle).foldlM (addTriple archive limits volume version) { metadata with
    seen := name :: metadata.seen
    remaining := metadata.remaining - turtle.length
    members := metadata.members.insert name (hex (libraries.sha256 turtle)) }

/-- The loop over the metadata members; every import is a statement, so their limit bounds the
turns. -/
def collect : Nat → Metadata → Result Metadata
  | 0, metadata => .ok metadata
  | fuel + 1, metadata =>
    match metadata.pending.getLast? with
    | none => .ok metadata
    | some name => do
      let metadata := { metadata with pending := metadata.pending.dropLast }
      if name ∈ metadata.seen then collect fuel metadata
      else
        let metadata ← addMember libraries archive limits volume version metadata name
        collect fuel metadata

end Collecting

/-- `open_with_limits`, for the archive that was admitted and the bytes of its file. -/
def openContainer (libraries : Libraries) (archive : ZipArchive) (storedSource : Bytes)
    (limits : Limits) : Result Container := do
  refuseIf (¬ archive.fileNames.Nodup) (.malformed "duplicate ZIP member name")
  let version ← readVersion archive
  let volume ← readVolume archive
  let metadata ← collect libraries archive limits volume version (limits.triples + 2)
    { pending := ["information.turtle"], remaining := limits.metadataBytes }
  return {
    libraries
    archive
    storedSource
    volume
    graph := metadata.graph
    limits
    version
    metadataMembers := metadata.members }

/-! ## Plain containers

Containers of stored members, for examples: their metadata is one Turtle document with the given
statements.
-/

/-- A member that is stored as it is. -/
def ZipFile.plain (name : String) (bytes : Bytes) : ZipFile where
  name
  size := bytes.length
  compressedSize := bytes.length
  stored := true
  encrypted := false
  dataStart := none
  contents := .ok ⟨bytes, none⟩

def ZipArchive.plain (turtle : String) (members : List (String × Bytes)) : ZipArchive where
  files := [.plain "version.txt" (utf8Bytes "major=1\nminor=0\n"),
    .plain "container.description" (utf8Bytes "aff4://v"),
    .plain "information.turtle" (utf8Bytes turtle)] ++
      members.map fun member => .plain member.1 member.2
  comment := []
  centralDirectoryStart := 0

/-- Libraries that decode nothing, for a document with the given statements. -/
def Libraries.plain (sha256 : Bytes → Bytes) (statements : List RdfTriple) : Libraries where
  base64Decode _ := none
  snappyDecompressLen _ := .error "snappy: corrupt input"
  snappyDecompress _ := .error "snappy: corrupt input"
  zlibDecoder _ := ⟨[], some (.io "corrupt deflate stream")⟩
  deflateDecoder _ := ⟨[], some (.io "corrupt deflate stream")⟩
  lz4DecompressInto _ _ := .error "lz4: corrupt input"
  md5 _ := []
  sha1 _ := []
  sha256
  sha512 _ := []
  blake2b _ := []
  turtle _ := statements.map .ok
  jsonDictionary _ := .error "expected value"

/-- The statement that gives a resource a type. -/
def RdfTriple.typed (subject kind : String) : RdfTriple :=
  ⟨.named subject, rdfType, .node (.named (ns ++ kind))⟩

/-- The statement that gives a resource its size. -/
def RdfTriple.sized (subject size : String) : RdfTriple :=
  ⟨.named subject, ns ++ "size",
    .literal size "http://www.w3.org/2001/XMLSchema#integer" none⟩

/-- The statement that gives a resource a data stream. -/
def RdfTriple.references (subject object : String) : RdfTriple :=
  ⟨.named subject, ns ++ "dataStream", .node (.named object)⟩

/-- A volume with a disk of the given size, whose map has the given records and no other target
than zeros. -/
def zeroVolume (volume size : String) (records : Bytes) : Container where
  libraries := .plain (fun _ => []) []
  archive := {
    files := [.plain "aff4%3A%2F%2Fm/map" records,
      .plain "aff4%3A%2F%2Fm/idx" (utf8Bytes (ns ++ "Zero\n"))]
    comment := []
    centralDirectoryStart := 0 }
  storedSource := []
  volume
  graph := TreeMap.ofList [
    ("aff4://d", [(RdfTriple.typed "aff4://d" "DiskImage").property,
      (RdfTriple.references "aff4://d" "aff4://m").property]),
    ("aff4://m", [(RdfTriple.typed "aff4://m" "Map").property,
      (RdfTriple.sized "aff4://m" size).property])]
  limits := .unrestricted
  version := (1, 0)
  metadataMembers := ∅

end EwfImage.Aff4
