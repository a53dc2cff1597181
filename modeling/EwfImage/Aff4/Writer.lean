import EwfImage.Aff4.Container
import EwfImage.Lib.Triples

/-!
# The container writer

A container is acquired member by member into a temporary ZIP archive and published under
its name when it is finished. The ZIP library, the inputs, the callbacks and the identifiers
belong to the environment, which may fail at any time; a hash state is the bytes it has
absorbed. An operation that starts a member poisons the writer until the member is complete.

An operation of the environment is a transition of its own state, with an answer that may be an
error, so a run is determined by the environment that it starts with. The checks of the
destination before anything is written are part of the environment, too.
-/

namespace EwfImage.Aff4.Writing

open LittleEndian Std Word

/-- Why an operation of the writer fails. -/
inductive WriteError
  | error (e : Error)
  | resourceLimit (resource : String) (required limit : Nat)
  | verificationFailed
  | publishedButUnsynced (reason : String)
  deriving DecidableEq

/-- Container profile chosen before any evidence bytes are written. -/
inductive Profile
  | physical
  | logical
  deriving DecidableEq

inductive Compression
  | stored
  | zlib
  | snappy
  | lz4
  deriving DecidableEq

structure WriteOptions where
  chunkBytes : Nat := 32768
  chunksPerBevy : Nat := 1024
  compression : Compression := .zlib
  deriving DecidableEq

/-- Digests of the source bytes accepted for one image or file. -/
structure AcquiredStream where
  id : String
  size : Nat
  md5 : String
  sha1 : String
  sha256 : String
  deriving DecidableEq

/-- The names of the components of an absolute path. -/
abbrev Path := List Bytes

/-- The third-party encoders and texts. -/
structure WriterLibraries extends Libraries where
  zlibEncode : Bytes → Result Bytes
  snappyCompress : Bytes → Except String Bytes
  lz4Compress : Bytes → Bytes
  /-- The Turtle text of a literal. -/
  literal : String → String
  base64Encode : Bytes → String
  /-- Absent outside of the supported calendar; no text where there is no RFC 3339 form. -/
  rfc3339 : Int → Option (Option String)
  display : Path → String

/-- A member of the archive, as far as it has been written. -/
structure Member where
  name : String
  data : Bytes
  deflated : Bool := false
  deriving DecidableEq

/-- A folder, whose record is written when the container is finished. -/
structure Folder where
  properties : String
  children : List String := []
  deriving DecidableEq

structure Writer where
  members : List Member
  path : Path
  profile : Profile
  volume : String
  options : WriteOptions
  metadata : Bytes
  archiveEntries : Nat := 2
  streams : List AcquiredStream := []
  poisoned : Bool := false
  logicalZipThreshold : Nat := 1024 * 1024
  folders : TreeMap String Folder := ∅
  roots : List String := []
  pathSeparator : Char := '/'

/-- `create`; the checks of the destination and the staging beside it belong to the
environment. -/
def Writer.create (path : Path) (profile : Profile) (options : WriteOptions) (volume : String) :
    Result Writer := do
  refuseIf (options.chunkBytes = 0 ∨ 16 * 1024 * 1024 < options.chunkBytes ∨
      options.chunksPerBevy = 0 ∨
      128 * 1024 * 1024 < options.chunkBytes * options.chunksPerBevy)
    (.malformed "invalid writer chunk geometry")
  refuseIf (profile = .logical ∧ options.compression ≠ .stored ∧ options.compression ≠ .zlib)
    (.unsupported "logical ZIP compression must be Stored or Zlib")
  let minor := match profile with
    | .physical => 0
    | .logical => 1
  let version := s!"major=1\nminor={minor}\ntool=aff4-image 0.2.0\n"
  let metadata := "@prefix a: <http://aff4.org/Schema#> .\n" ++
    "@prefix l: <https://aff4.org/Schema/2022/#> .\n" ++ s!"<{volume}> a a:ZipVolume .\n"
  return {
    members := [⟨"container.description", utf8Bytes volume, false⟩,
      ⟨"version.txt", utf8Bytes version, false⟩]
    path, profile, volume, options
    metadata := utf8Bytes metadata }

/-! ## The environment -/

/-- A source of bytes, with the callback of its acquisition. -/
structure Source (σ : Type) where
  readExact : (size : Nat) → σ → Result { bytes : Bytes // bytes.length = size } × σ
  /-- Whether the callback breaks. -/
  progress : Nat → Nat → σ → Bool × σ

/-- The text of a version 4 UUID. -/
structure Uuid where
  text : String
  length : text.utf8ByteSize = 36

/-- Where archives and identifiers come from. -/
structure Environment (σ : Type) where
  uuid : σ → Uuid × σ
  startFile : String → σ → Option Error × σ
  /-- The error of a write, with the number of bytes that the archive has taken. -/
  writeAll : Bytes → σ → Option (Error × Nat) × σ
  /-- The end of the archive is written and synchronized. -/
  finishZip : List Member → σ → Option Error × σ
  /-- The temporary file gets the name of the container, unless the name is in use. -/
  persistNoclobber : List Member → σ → Option Error × σ
  syncPublishedDirectory : σ → Option String × σ
  currentNumThreads : Nat

structure State (σ : Type) where
  world : σ
  writer : Writer

abbrev Write (σ : Type) := EStateM WriteError (State σ)

section Operations

variable {σ : Type}

/-- Use the environment. -/
def ask {α : Type} (operation : σ → α × σ) : Write σ α := fun s =>
  let (answer, world) := operation s.world
  .ok answer { s with world }

def ofWriteResult {α : Type} : Except WriteError α → Write σ α
  | .ok a => pure a
  | .error e => throw e

def ofResult {α : Type} : Result α → Write σ α
  | .ok a => pure a
  | .error e => throw (.error e)

/-- Fails where the environment does. -/
def ofFailure : Option Error → Write σ Unit
  | some e => throw (.error e)
  | none => pure ()

def writer : Write σ Writer := do return (← get).writer

def modifyWriter (change : Writer → Writer) : Write σ Unit :=
  modify fun s => { s with writer := change s.writer }

def setPoisoned (poisoned : Bool) : Write σ Unit := modifyWriter fun w => { w with poisoned }

def pushMetadata (text : String) : Write σ Unit :=
  modifyWriter fun w => { w with metadata := w.metadata ++ utf8Bytes text }

def healthy : Write σ Unit := do
  if (← writer).poisoned then
    throw (.error (.unsupported "acquisition failed; discard this writer"))

/-- `progress(done, size).is_break()` stops the operation. -/
def notify (progress : Nat → Nat → σ → Bool × σ) (done size : Nat) : Write σ Unit := do
  if ← ask (progress done size) then throw (.error .aborted)

def readExact (source : Source σ) (size : Nat) : Write σ { bytes : Bytes // bytes.length = size } :=
  do ofResult (← ask (source.readExact size))

def identifier (env : Environment σ) : Write σ String := do return "aff4://" ++ (← ask env.uuid).text

/-! ## Members -/

/-- The last member takes more bytes. -/
def Writer.extend (w : Writer) (data : Bytes) : Writer :=
  match w.members.getLast? with
  | some last => { w with
      members := w.members.dropLast ++ [{ last with data := last.data ++ data }] }
  | none => w

def startFile (env : Environment σ) (name : String) (deflated : Bool) : Write σ Unit := do
  ofFailure (← ask (env.startFile name))
  modifyWriter fun w => { w with members := w.members ++ [⟨name, [], deflated⟩] }

def writeAll (env : Environment σ) (data : Bytes) : Write σ Unit := do
  match ← ask (env.writeAll data) with
  | some (e, taken) => do
    modifyWriter fun w => w.extend (data.take taken)
    throw (.error e)
  | none => modifyWriter fun w => w.extend data

def writeMember (env : Environment σ) (name : String) (data : Bytes) : Write σ Unit := do
  startFile env name false
  writeAll env data

/-! ## Chunks -/

def WriterLibraries.encode (libraries : WriterLibraries) (data : Bytes) :
    Compression → Result Bytes
  | .stored => .ok data
  | .zlib => libraries.zlibEncode data
  | .snappy => (libraries.snappyCompress data).mapError .malformed
  | .lz4 => .ok (libraries.lz4Compress data)

structure PreparedChunk where
  buffer : Bytes
  encoded : Bytes
  md5 : Bytes
  sha256 : Bytes

variable (libraries : WriterLibraries) (options : WriteOptions)

/-- `prepare` of `prepare_chunks`, for the bytes that a buffer of a chunk has been filled with. -/
def prepareChunk (data : Bytes) : Result PreparedChunk := do
  let buffer := data ++ List.replicate (options.chunkBytes - data.length) 0
  let encoded ← (if options.compression = .stored then .ok []
    else libraries.encode buffer options.compression)
  return { buffer, encoded, md5 := libraries.md5 data, sha256 := libraries.sha256 data }

/-- The bytes that a bevy stores for a chunk. -/
def PreparedChunk.storedBytes (prepared : PreparedChunk) : Bytes :=
  if options.compression ≠ .stored ∧ prepared.encoded.length < prepared.buffer.length - 16 then
    prepared.encoded
  else prepared.buffer

def automaticEncodeBatchChunks (threads : Nat) : Nat :=
  max (min (threads * 2) (max (8 * 1024 * 1024 / options.chunkBytes) 1)) 1

/-- What is collected of a bevy next to its data. -/
structure Bevy where
  bytes : Nat := 0
  index : Bytes := []
  md5Blocks : Bytes := []
  sha256Blocks : Bytes := []

def Bevy.push (bevy : Bevy) (prepared : PreparedChunk) : Bevy where
  bytes := bevy.bytes + (prepared.storedBytes options).length
  index := bevy.index ++ toLE 8 bevy.bytes ++ toLE 4 (prepared.storedBytes options).length
  md5Blocks := bevy.md5Blocks ++ prepared.md5
  sha256Blocks := bevy.sha256Blocks ++ prepared.sha256

/-- How far a stream has been acquired. -/
structure Acquired where
  done : Nat := 0
  chunk : Nat := 0
  hashed : Bytes := []
  md5Tree : Bytes := []
  sha256Tree : Bytes := []
  indexTree : Bytes := []

/-- The chunks of a batch, of which there is room for `room` more. -/
def readBatch (source : Source σ) (size : Nat) : Nat → Nat × List Bytes → Write σ (Nat × List Bytes)
  | 0, taken => pure taken
  | room + 1, (done, buffers) =>
    if done < size then do
      notify source.progress done size
      let length := min (size - done) options.chunkBytes
      let data ← readExact source length
      readBatch source size room (done + length, buffers ++ [data.1])
    else pure (done, buffers)

def writeChunk (env : Environment σ) (bevy : Bevy) (prepared : PreparedChunk) : Write σ Bevy := do
  writeAll env (prepared.storedBytes options)
  return bevy.push options prepared

/-- The loop over the batches of a bevy. Every turn takes a chunk, so there are no more turns than
chunks in a bevy. -/
def fillBevy (env : Environment σ) (source : Source σ) (size bevyEnd : Nat) :
    Nat → Acquired × Bevy → Write σ (Acquired × Bevy)
  | 0, sofar => pure sofar
  | turns + 1, (acquired, bevy) =>
    if acquired.done < size ∧ acquired.chunk < bevyEnd then do
      let batchChunks := min (automaticEncodeBatchChunks options env.currentNumThreads)
        (bevyEnd - acquired.chunk)
      let (done, buffers) ← readBatch options source size batchChunks (acquired.done, [])
      let prepared ← ofResult (buffers.mapM (prepareChunk libraries options))
      let bevy ← prepared.foldlM (writeChunk options env) bevy
      fillBevy env source size bevyEnd turns ({ acquired with
        done
        chunk := acquired.chunk + buffers.length
        hashed := acquired.hashed ++ buffers.flatten }, bevy)
    else pure (acquired, bevy)

/-- One bevy with its index and block digests. -/
def writeBevy (env : Environment σ) (source : Source σ) (size : Nat) (storage : String)
    (acquired : Acquired) : Write σ Acquired := do
  let name := s!"{storage}/{eightDigits (acquired.chunk / options.chunksPerBevy)}"
  startFile env name false
  let (acquired, bevy) ← fillBevy libraries options env source size
    (acquired.chunk + options.chunksPerBevy) options.chunksPerBevy (acquired, {})
  writeMember env (name ++ ".index") bevy.index
  writeMember env (name ++ ".blockHash.md5") bevy.md5Blocks
  writeMember env (name ++ ".blockHash.sha256") bevy.sha256Blocks
  return { acquired with
    md5Tree := acquired.md5Tree ++ bevy.md5Blocks
    sha256Tree := acquired.sha256Tree ++ bevy.sha256Blocks
    indexTree := acquired.indexTree ++ bevy.index }

/-- The loop over the bevies. Every turn takes a byte. -/
def writeBevies (env : Environment σ) (source : Source σ) (size : Nat) (storage : String) :
    Nat → Acquired → Write σ Acquired
  | 0, acquired => pure acquired
  | turns + 1, acquired =>
    if acquired.done < size then do
      let acquired ← writeBevy libraries options env source size storage acquired
      writeBevies env source size storage turns acquired
    else pure acquired

end Operations

/-! ## Images and files -/

section Additions

variable {σ : Type} (libraries : WriterLibraries)

def hashTriples (result : AcquiredStream) : String :=
  s!"a:hash \"{result.md5}\"^^a:MD5, \"{result.sha1}\"^^a:SHA1, \"{result.sha256}\"^^a:SHA256"

/-- `Hashes::finish`. -/
def finishHashes (hashed : Bytes) (id : String) (size : Nat) : AcquiredStream where
  id
  size
  md5 := hex (libraries.md5 hashed)
  sha1 := hex (libraries.sha1 hashed)
  sha256 := hex (libraries.sha256 hashed)

/-- The part of a path behind its last separator. -/
def lastComponent (path : List Char) : List Char :=
  (path.reverse.takeWhile fun c => c ≠ '/' ∧ c ≠ '\\').reverse

/-- The number of members that hold a chunked stream, with those of its map. -/
def chunkedEntries (options : WriteOptions) (size : Nat) (logical : Bool) : Option Nat := do
  let members ← checkedMul (divCeil (divCeil size options.chunkBytes) options.chunksPerBevy) 4
  checkedAdd members (if logical then 0 else 2)

def archiveOverflow : Error := .malformed "archive entry count overflow"

def countEntries (entries : Nat) : Write σ Unit := do
  let w ← writer
  let total ← ofResult (Fallible.okOr archiveOverflow (checkedAdd w.archiveEntries entries))
  modifyWriter fun w => { w with archiveEntries := total }

/-- The names of a chunked stream. -/
structure ChunkedNames where
  id : String
  stream : String
  map : String
  storage : String
  mapStorage : String

def chunkedNames (env : Environment σ) (volume : String) (logical : Bool) :
    Write σ ChunkedNames := do
  let first := (← ask env.uuid).text
  if logical then do
    let map := (← ask env.uuid).text
    return {
      id := s!"{volume}/files/{first}"
      stream := s!"{volume}/files/{first}"
      map := "aff4://" ++ map
      storage := "files/" ++ first
      mapStorage := "aff4%3A%2F%2F" ++ map }
  else do
    let stream := (← ask env.uuid).text
    let map := (← ask env.uuid).text
    return {
      id := "aff4://" ++ first
      stream := "aff4://" ++ stream
      map := "aff4://" ++ map
      storage := "aff4%3A%2F%2F" ++ stream
      mapStorage := "aff4%3A%2F%2F" ++ map }

def compressionProperty : Compression → String
  | .stored => "a:compressionMethod <http://aff4.org/Schema#compression/stored>;"
  | .zlib => "a:compressionMethod <https://www.ietf.org/rfc/rfc1950.txt>;"
  | .snappy => "a:compressionMethod <http://code.google.com/p/snappy/>;"
  | .lz4 => "a:compressionMethod <https://code.google.com/p/lz4/>;"

/-- The only range of a map that covers a stream. -/
def mapPoints (size : Nat) : Bytes :=
  if size = 0 then [] else toLE 8 0 ++ toLE 8 size ++ toLE 8 0 ++ toLE 4 0

/-- What a chunked logical file records of itself. -/
def fileImageText (options : WriteOptions) (volume extraProperties path : String)
    (names : ChunkedNames) (acquired : Acquired) (result : AcquiredStream) : String :=
  let pathLiteral := libraries.literal path
  let name := libraries.literal (String.ofList (lastComponent path.toList))
  let logicalProperties := s!"a:originalFileName {pathLiteral}; a:fileName {name};"
  let indexHash := hex (libraries.sha512 acquired.indexTree)
  let compression := compressionProperty options.compression
  s!"<{names.id}> a a:FileImage, a:Image, a:ImageStream; {extraProperties} {logicalProperties} " ++
    s!"a:size {result.size}; a:chunkSize {options.chunkBytes}; " ++
    s!"a:chunksInSegment {options.chunksPerBevy}; {compression} a:stored <{volume}>; " ++
    s!"a:imageStreamIndexHash \"{indexHash}\"^^a:SHA512; {hashTriples result} .\n"

/-- What a physical image records of its stream, itself and its map. -/
def diskImageText (options : WriteOptions) (volume : String) (names : ChunkedNames)
    (acquired : Acquired) (result : AcquiredStream) : String :=
  let size := result.size
  let points := mapPoints size
  let targetIndex := utf8Bytes s!"{names.stream}\n"
  let trees := if size = 0 then []
    else libraries.sha512 acquired.md5Tree ++ libraries.sha512 acquired.sha256Tree
  let composite := hex (libraries.sha512 (trees ++ libraries.sha512 points ++
    libraries.sha512 targetIndex ++ libraries.sha512 []))
  let indexHash := hex (libraries.sha512 acquired.indexTree)
  let compression := compressionProperty options.compression
  s!"<{names.stream}> a a:ImageStream; a:size {size}; a:chunkSize {options.chunkBytes}; " ++
    s!"a:chunksInSegment {options.chunksPerBevy}; {compression} a:target <{names.map}>; " ++
    s!"a:stored <{volume}>; a:imageStreamIndexHash \"{indexHash}\"^^a:SHA512 .\n" ++
    s!"<{names.id}> a a:Image, a:ContiguousImage, a:DiskImage;  a:size {size}; " ++
    s!"a:dataStream <{names.map}>; a:stored <{volume}>; {hashTriples result}; " ++
    s!"a:hash \"{composite}\"^^a:blockMapHashSHA512 .\n" ++
    s!"<{names.map}> a a:Map; a:size {size}; a:dependentStream <{names.stream}>; " ++
    s!"a:target <{names.id}>; a:stored <{volume}>; " ++
    s!"a:blockMapHash \"{composite}\"^^a:SHA512; " ++
    s!"a:mapPointHash \"{hex (libraries.sha512 points)}\"^^a:SHA512; " ++
    s!"a:mapIdxHash \"{hex (libraries.sha512 targetIndex)}\"^^a:SHA512; " ++
    s!"a:mapPathHash \"{hex (libraries.sha512 [])}\"^^a:SHA512; " ++
    s!"a:mapHash \"{hex (libraries.sha512 (points ++ targetIndex))}\"^^a:SHA512 .\n"

/-- What a stream that is not empty records of its block digests. -/
def blockHashesText (stream : String) (acquired : Acquired) : String :=
  s!"<{stream}/blockhash.md5> a a:BlockHashes; " ++
    s!"a:hash \"{hex (libraries.sha512 acquired.md5Tree)}\"^^a:SHA512 .\n" ++
    s!"<{stream}/blockhash.sha256> a a:BlockHashes; " ++
    s!"a:hash \"{hex (libraries.sha512 acquired.sha256Tree)}\"^^a:SHA512 .\n"

def addChunked (env : Environment σ) (source : Source σ) (size : Nat)
    (logicalPath : Option String) (extraProperties : String) : Write σ String := do
  setPoisoned true
  let w ← writer
  let options := w.options
  let entries ← ofResult
    (Fallible.okOr archiveOverflow (chunkedEntries options size logicalPath.isSome))
  countEntries entries
  let names ← chunkedNames env w.volume logicalPath.isSome
  let acquired ← writeBevies libraries options env source size names.storage size {}
  notify source.progress acquired.done size
  let result := finishHashes libraries acquired.hashed names.id size
  match logicalPath with
  | some path =>
    pushMetadata (fileImageText libraries options w.volume extraProperties path names acquired
      result)
  | none => do
    writeMember env (names.mapStorage ++ "/map") (mapPoints size)
    writeMember env (names.mapStorage ++ "/idx") (utf8Bytes s!"{names.stream}\n")
    pushMetadata (diskImageText libraries options w.volume names acquired result)
  if size ≠ 0 then pushMetadata (blockHashesText libraries names.stream acquired)
  modifyWriter fun w => { w with streams := w.streams ++ [result] }
  setPoisoned false
  return names.id

def addImage (env : Environment σ) (source : Source σ) (size : Nat) : Write σ String := do
  healthy
  if (← writer).profile ≠ .physical then
    throw (.error (.unsupported "physical image in a logical writer"))
  addChunked libraries env source size none ""

def isPowerOfTwo (n : Nat) : Bool := 0 < n && n &&& (n - 1) = 0

def addImageWithSectorSize (env : Environment σ) (source : Source σ) (size sectorSize : Nat) :
    Write σ String := do
  healthy
  if ¬ isPowerOfTwo sectorSize ∨ size = 0 ∨ size % sectorSize ≠ 0 then
    throw (.error (.malformed "invalid physical sector geometry"))
  let id ← addImage libraries env source size
  pushMetadata s!"<{id}> a:blockSize {sectorSize} .\n"
  return id

def setLogicalZipThreshold (bytes : Nat) : Write σ Unit := do
  healthy
  if 1024 * 1024 * 1024 < bytes then throw (.error (.malformed "ZIP threshold exceeds 1 GiB"))
  modifyWriter fun w => { w with logicalZipThreshold := bytes }

/-- The general category of control characters. -/
def isControl (c : Char) : Bool := c.toNat < 32 || (127 ≤ c.toNat && c.toNat < 160)

/-- The bytes of a file go into the member that was started for it, up to 1 MiB at a time. Every
turn but the last takes a byte. -/
def copyFile (env : Environment σ) (source : Source σ) (size : Nat) :
    Nat → Nat × Bytes → Write σ Bytes
  | 0, (_, hashed) => pure hashed
  | turns + 1, (done, hashed) => do
    notify source.progress done size
    if done = size then pure hashed
    else do
      let length := min (size - done) (1024 * 1024)
      let data ← readExact source length
      writeAll env data.1
      copyFile env source size turns (done + length, hashed ++ data.1)

/-- What a file in one member records of itself. -/
def segmentText (volume extraProperties path : String) (result : AcquiredStream) : String :=
  let name := libraries.literal (String.ofList (lastComponent path.toList))
  s!"<{result.id}> a a:FileImage, a:Image, a:zip_segment; {extraProperties} " ++
    s!"a:size {result.size}; a:fileName {name}; " ++
    s!"a:originalFileName {libraries.literal path}; a:stored <{volume}>; {hashTriples result} .\n"

def addFileImpl (env : Environment σ) (source : Source σ) (originalPath : String) (size : Nat)
    (extraProperties : String) : Write σ String := do
  healthy
  let w ← writer
  if w.profile ≠ .logical then
    throw (.error (.unsupported "logical file in a physical writer"))
  if originalPath.toList = [] ∨ originalPath.toList.any isControl then
    throw (.error (.malformed "logical path must be nonempty UTF-8 without control characters"))
  if w.logicalZipThreshold < size then
    addChunked libraries env source size (some originalPath) extraProperties
  else do
    setPoisoned true
    let storage := "files/" ++ (← ask env.uuid).text
    let id := s!"{w.volume}/{storage}"
    countEntries 1
    startFile env storage (w.options.compression ≠ .stored)
    let hashed ← copyFile env source size (size + 1) (0, [])
    let result := finishHashes libraries hashed id size
    pushMetadata (segmentText libraries w.volume extraProperties originalPath result)
    modifyWriter fun w => { w with streams := w.streams ++ [result] }
    setPoisoned false
    return id

def addFile (env : Environment σ) (source : Source σ) (originalPath : String) (size : Nat) :
    Write σ String :=
  addFileImpl libraries env source originalPath size ""

end Additions

end EwfImage.Aff4.Writing
