import EwfImage.Aff4.Writer

/-!
# Logical metadata

Folders, metadata of files, case details and substreams of a logical container. Original
paths are never names of archive members: what is not UTF-8, or has control characters, gets
a field with its exact bytes next to a readable form. The records of folders are written when
the container is finished.

The texts are those of the source, statement by statement, since the budget of a collection
counts their bytes. Identifiers come from the environment; the times and the owner of a file are
given.
-/

namespace EwfImage.Aff4.Writing

open Std

/-- Metadata captured from a source. -/
structure LogicalMetadata where
  path : Bytes
  parent : Option String := none
  created : Option Int := none
  modified : Option Int := none
  accessed : Option Int := none
  changed : Option Int := none
  mode : Option Nat := none

structure CaseMetadata where
  caseNumber : String
  evidenceNumber : String
  examiner : String
  notes : String

/-- Relationship of a non-primary file stream to its parent. -/
inductive SubstreamKind
  | alternateDataStream
  | extendedAttribute
  deriving DecidableEq

/-- The part of a path behind its last separator, in bytes. -/
def lastName (path : Bytes) : Bytes :=
  (path.reverse.takeWhile fun byte => byte ≠ 47 ∧ byte ≠ 92).reverse

def percentByte (byte : UInt8) : List Char :=
  if byte < 32 ∨ 127 ≤ byte ∨ byte = 37 then
    '%' :: (hex [byte]).toList.map Char.toUpper
  else [Char.ofNat byte.toNat]

section Texts

variable (libraries : WriterLibraries)

/-- A readable form of a name, and its exact bytes where the form is not the name itself. -/
def normalized (bytes : Bytes) : String × Option String :=
  match (fromUtf8 bytes).filter fun value => !value.toList.any isControl with
  | some value => (value, none)
  | none => (String.ofList (bytes.flatMap percentByte), some (libraries.base64Encode bytes))

def rawProperty (key : String) (value : Option String) : String :=
  match value with
  | some value =>
    s!" l:{key} {libraries.literal value}^^<http://www.w3.org/2001/XMLSchema#base64Binary>;"
  | none => ""

def timeProperty (key : String) (value : Option Int) : Result String :=
  match value with
  | some value => do
    let form ← Fallible.okOr (.malformed "timestamp outside supported calendar")
      (libraries.rfc3339 value)
    let time ← Fallible.okOr (.malformed "timestamp cannot be represented as RFC3339") form
    return s!" a:{key} {libraries.literal time}^^<http://www.w3.org/2001/XMLSchema#dateTime>;"
  | none => return ""

/-- The readable form of the path, and the properties that the metadata gives. -/
def LogicalMetadata.properties (metadata : LogicalMetadata) : Result (String × String) := do
  refuseIf (metadata.path = []) (.malformed "empty original path")
  let (path, rawPath) := normalized libraries metadata.path
  let (_, rawName) := normalized libraries (lastName metadata.path)
  let created ← timeProperty libraries "birthTime" metadata.created
  let modified ← timeProperty libraries "lastWritten" metadata.modified
  let accessed ← timeProperty libraries "lastAccessed" metadata.accessed
  let changed ← timeProperty libraries "recordChanged" metadata.changed
  let mode := match metadata.mode with
    | some mode => s!" l:fileMode {mode};"
    | none => ""
  return (path, s!"l:originalPathName {libraries.literal path};" ++
    rawProperty libraries "originalPathNameRaw" rawPath ++
    rawProperty libraries "fileNameRaw" rawName ++ created ++ modified ++ accessed ++ changed ++
    mode)

end Texts

section Operations

variable {σ : Type} (libraries : WriterLibraries)

def logicalParent (parent : Option String) : Write σ Unit := do
  healthy
  let w ← writer
  if w.profile ≠ .logical then
    throw (.error (.unsupported "logical metadata in physical profile"))
  if parent.any fun parent => !w.folders.contains parent then
    throw (.error (.malformed "parent is not a writer-owned folder"))

/-- `register_child`. -/
def Writer.withChild (w : Writer) (parent : Option String) (id : String) : Writer :=
  match parent with
  | none => { w with roots := w.roots ++ [id] }
  | some parent =>
    match w.folders[parent]? with
    | some folder => { w with
        folders := w.folders.insert parent { folder with children := folder.children ++ [id] } }
    | none => w

def folderProperties (volume : String) (metadata : LogicalMetadata) (path properties : String) :
    String :=
  let (name, _) := normalized libraries (lastName metadata.path)
  s!"a a:Folder, a:FolderImage, a:Image; a:fileName {libraries.literal name}; " ++
    s!"a:originalFileName {libraries.literal path}; {properties} a:stored <{volume}>"

def addFolder (env : Environment σ) (metadata : LogicalMetadata) : Write σ String := do
  logicalParent metadata.parent
  let (path, properties) ← ofResult (metadata.properties libraries)
  let id ← identifier env
  modifyWriter fun w =>
    let w' := w.withChild metadata.parent id
    { w' with
      folders := w'.folders.insert id
        { properties := folderProperties libraries w.volume metadata path properties } }
  return id

def addFileWithMetadata (env : Environment σ) (source : Source σ) (metadata : LogicalMetadata)
    (size : Nat) : Write σ String := do
  logicalParent metadata.parent
  let (path, properties) ← ofResult (metadata.properties libraries)
  let id ← addFileImpl libraries env source path size properties
  modifyWriter fun w => w.withChild metadata.parent id
  return id

def addCaseMetadata (env : Environment σ) (metadata : CaseMetadata) : Write σ String := do
  healthy
  let id ← identifier env
  let w ← writer
  pushMetadata (s!"<{id}> a a:CaseDetails; a:target <{w.volume}>; " ++
    s!"a:caseNumber {libraries.literal metadata.caseNumber}; " ++
    s!"a:evidenceNumber {libraries.literal metadata.evidenceNumber}; " ++
    s!"a:examiner {libraries.literal metadata.examiner}; " ++
    s!"a:notes {libraries.literal metadata.notes} .\n")
  return id

def SubstreamKind.property : SubstreamKind → String
  | .alternateDataStream => "alternateDataStream"
  | .extendedAttribute => "extendedAttribute"

/-- What a substream records of itself. -/
def substreamText (id parent : String) (name bytes : Bytes) : String :=
  let (text, raw) := normalized libraries name
  let raw := match raw with
    | some raw => s!"l:fileNameRaw {libraries.literal raw}" ++
        "^^<http://www.w3.org/2001/XMLSchema#base64Binary>;"
    | none => ""
  let content := libraries.literal (libraries.base64Encode bytes)
  let digest := libraries.literal (hex (libraries.sha256 bytes))
  s!"<{id}> a a:FileSubStream, a:Image; a:target <{parent}>; a:name {libraries.literal text}; " ++
    s!"{raw} a:size {bytes.length}; " ++
    s!"l:dataStream {content}^^<http://www.w3.org/2001/XMLSchema#base64Binary>; " ++
    s!"a:hash {digest}^^a:SHA256 .\n"

def addSubstream (env : Environment σ) (parent : String) (name : Bytes) (kind : SubstreamKind)
    (bytes : Bytes) : Write σ String := do
  healthy
  let w ← writer
  if ¬ w.streams.any (·.id = parent) ∧ ¬ w.folders.contains parent then
    throw (.error (.malformed "substream parent is not writer-owned"))
  if 1024 < bytes.length then
    throw (.error (.unsupported
      "inline substreams are limited to 1 KiB; use a file stream for larger attributes"))
  let id ← identifier env
  pushMetadata (substreamText libraries id parent name bytes)
  pushMetadata s!"<{parent}> l:{kind.property} <{id}> .\n"
  return id

def setPathSeparator (separator : Char) : Write σ Unit := do
  healthy
  if separator ≠ '/' ∧ separator ≠ '\\' then
    throw (.error (.malformed "unsupported path separator"))
  modifyWriter fun w => { w with pathSeparator := separator }

/-! ## The end of a container -/

/-- The record of a folder with its children. -/
def folderRecord (entry : String × Folder) : Bytes :=
  utf8Bytes s!"<{entry.1}> {entry.2.properties}" ++
    entry.2.children.flatMap (fun child => utf8Bytes s!"; a:child <{child}>") ++ utf8Bytes " .\n"

/-- The record of the acquisition roots. -/
def rootsRecord (task : String) (separator : Char) (roots : List String) : Bytes :=
  utf8Bytes (s!"<{task}> a a:LogicalAcquisitionTask; " ++
      s!"l:pathSeparator {libraries.literal separator.toString}") ++
    roots.flatMap (fun root => utf8Bytes s!"; a:filesystemRoot <{root}>") ++ utf8Bytes " .\n"

def finishLogicalMetadata (env : Environment σ) : Write σ Unit := do
  modifyWriter fun w => { w with metadata := w.metadata ++ w.folders.toList.flatMap folderRecord }
  let w ← writer
  if w.roots ≠ [] then do
    let task ← identifier env
    modifyWriter fun w =>
      { w with metadata := w.metadata ++ rootsRecord libraries task w.pathSeparator w.roots }

end Operations

end EwfImage.Aff4.Writing
