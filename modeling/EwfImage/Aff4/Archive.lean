import EwfImage.Lib.Fallible
import EwfImage.Lib.Slice
import EwfImage.Aff4.Text
import Std.Data.TreeMap

/-!
# Archives and libraries

The ZIP archive behind a container as the ZIP library presents it: its members in
directory order, each with the sizes of its entry and the stream that decoding it
delivers. The decompressors, the digests and the parsers of Turtle, JSON and base64 are
a parameter.

A `Libraries` is one such choice. Nothing is assumed of it in general; a result that needs a
property of a digest or a decoder says so. The bytes of the archive file are fixed, so that a
member has the same contents whenever it is asked for. `Libraries.plain` is a small choice for
witnesses.
-/

namespace EwfImage.Aff4

open Fallible Slice Std

/-- What a reader delivers: its bytes, and the failure, if any, that follows them. -/
structure ByteStream where
  output : Bytes
  failure : Option Error

namespace ByteStream

/-- `read_buffer`: the bytes of a stream to its end, at most `limit` of them. -/
def readBuffer (stream : ByteStream) (limit : Nat) : Result Bytes :=
  if limit < stream.output.length then .error (.malformed "decoded member exceeds limit")
  else match stream.failure with
    | some e => .error e
    | none => .ok stream.output

/-- `read_exact` behind the first `offset` bytes. -/
def readExact (stream : ByteStream) (offset length : Nat) : Result Bytes :=
  if length ≤ (stream.output.drop offset).length then .ok (slice stream.output offset length)
  else match stream.failure with
    | some e => .error e
    | none => .error (.io "failed to fill whole buffer")

/-- A read behind the first `offset` bytes, whether it delivers a byte. -/
def hasMore (stream : ByteStream) (offset : Nat) : Result Bool :=
  if offset < stream.output.length then .ok true
  else match stream.failure with
    | some e => .error e
    | none => .ok false

end ByteStream

/-! ## Libraries -/

structure Property where
  predicate : String
  value : String
  /-- Literal datatype; absent for resource references. -/
  datatype : Option String
  language : Option String
  deriving DecidableEq

inductive RdfNode
  | named (iri : String)
  | blank (label : String)
  deriving DecidableEq

/-- The identifier of a node in the graph. -/
def RdfNode.text : RdfNode → String
  | .named iri => iri
  | .blank label => "_:" ++ label

inductive RdfTerm
  | node (node : RdfNode)
  | literal (value datatype : String) (language : Option String)
  deriving DecidableEq

/-- One Turtle statement. -/
structure RdfTriple where
  subject : RdfNode
  predicate : String
  object : RdfTerm
  deriving DecidableEq

/-- The property that a statement gives its subject. -/
def RdfTriple.property (triple : RdfTriple) : Property :=
  match triple.object with
  | .node node => ⟨triple.predicate, node.text, none, none⟩
  | .literal value datatype language => ⟨triple.predicate, value, some datatype, language⟩

/-- The third-party decoders, digests and parsers. -/
structure Libraries where
  base64Decode : String → Option Bytes
  snappyDecompressLen : Bytes → Except String Nat
  snappyDecompress : Bytes → Except String Bytes
  zlibDecoder : Bytes → ByteStream
  deflateDecoder : Bytes → ByteStream
  /-- Decompression into a buffer of the given size. -/
  lz4DecompressInto : Bytes → Nat → Except String Bytes
  md5 : Bytes → Bytes
  sha1 : Bytes → Bytes
  sha256 : Bytes → Bytes
  sha512 : Bytes → Bytes
  blake2b : Bytes → Bytes
  /-- The statements of a Turtle document, up to the first error. -/
  turtle : Bytes → List (Except String RdfTriple)
  /-- A JSON dictionary of texts, in the order of its keys in the document. -/
  jsonDictionary : Bytes → Except String (List (String × String))

/-! ## Archives -/

structure ZipFile where
  name : String
  size : Nat
  compressedSize : Nat
  /-- Whether the member is stored without compression. -/
  stored : Bool
  encrypted : Bool
  dataStart : Option Nat
  /-- The decoded contents, or why the library does not open the member. -/
  contents : Result ByteStream

structure ZipArchive where
  files : List ZipFile
  comment : Bytes
  centralDirectoryStart : Nat

namespace ZipArchive

variable (archive : ZipArchive)

def fileNames : List String := archive.files.map (·.name)

/-- Whether `index_for_name` finds a member. -/
def hasName (name : String) : Bool := archive.files.any (·.name = name)

def byName (name : String) : Result (ZipFile × ByteStream) := do
  let file ← okOr (.zip "specified file not found in archive")
    (archive.files.find? (·.name = name))
  return (file, ← file.contents)

def member (name : String) (limit : Nat) : Result Bytes := do
  let (file, contents) ← archive.byName name
  rejectIf (limit < file.size) (.malformed s!"member exceeds resource limit: {name}")
  contents.readBuffer limit

end ZipArchive

/-- `read_exact_at` of a file. -/
def readFileExactAt (source : Bytes) (offset length : Nat) : Result Bytes :=
  let bytes := slice source offset length
  if bytes.length = length then .ok bytes else .error (.io "failed to fill whole buffer")

end EwfImage.Aff4
