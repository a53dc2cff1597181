import EwfImage.Aff4.LogicalMetadata

/-!
# Collecting a directory tree

A directory tree is walked with a stack of its entries that are pending. Excluded, unsupported
and unreadable entries become issues of the report. A budget charges what the finished
container will hold: the metadata that stands already, and the records of folders, children,
roots and issues that are written later. A collection that fails poisons the writer.

The environment answers what the operating system is asked: listings in any order, the metadata
of a file, its bytes. A listing is finite, and a file may change between two questions; the
comparison of its metadata before and behind the reading is part of the model.
-/

namespace EwfImage.Aff4.Writing

open Fallible Std Word

/-! ## The budget -/

/-- Discovery bounds and the limits of the reader. -/
structure CollectionLimits where
  reader : Limits
  entries : Nat
  depth : Nat

structure CollectionIssue where
  path : Path
  reason : String
  deriving DecidableEq

structure CollectionReport where
  files : Nat := 0
  folders : Nat := 0
  bytes : Nat := 0
  issues : List CollectionIssue := []
  deriving DecidableEq

structure Budget where
  offset : Nat := 0
  roots : Nat := 0
  metadata : Nat := 0
  triples : Nat := 0
  bytes : Nat := 0
  discovered : Nat := 0

def check (resource : String) (required limit : Nat) : Except WriteError Unit :=
  rejectIf (limit < required) (.resourceLimit resource required limit)

def overflow (what : String) : WriteError := .error (.malformed s!"{what} overflow")

section Texts

variable {σ : Type} (libraries : WriterLibraries)

/-- The record of an issue in that of its collection. -/
def issueMetadata (issue : CollectionIssue) : String :=
  let text := libraries.literal s!"{libraries.display issue.path}: {issue.reason}"
  s!"; a:collectionIssue {text}"

def taskNotes : String :=
  "Portable local collection; links not followed; cross-file snapshot consistency, " ++
    "automatic ADS/xattr/ACL capture not provided"

/-- The record of a collection, without its issues. -/
def taskHeader (task : String) (files bytes : Nat) : String :=
  s!"<{task}> a a:LogicalAcquisitionTask; a:notes {libraries.literal taskNotes}; " ++
    s!"a:filesCollected {files}; a:bytesCollected {bytes}"

def taskMetadata (env : Environment σ) (report : CollectionReport) : Write σ Bytes := do
  let task ← identifier env
  return utf8Bytes (taskHeader libraries task report.files report.bytes) ++
    report.issues.flatMap (fun issue => utf8Bytes (issueMetadata libraries issue)) ++
    utf8Bytes " .\n"

end Texts

namespace Budget

variable {σ : Type} (libraries : WriterLibraries) (limits : CollectionLimits) (budget : Budget)

def discover (depth : Nat) : Except WriteError Budget := do
  check "collection_depth" depth limits.depth
  let discovered ← okOr (overflow "collection entry count") (checkedAdd budget.discovered 1)
  check "collection_entries" discovered limits.entries
  return { budget with discovered }

def charge (bytes triples : Nat) : Except WriteError Budget := do
  let metadata ← okOr (overflow "metadata byte count") (checkedAdd budget.metadata bytes)
  let triples ← okOr (overflow "metadata triple count") (checkedAdd budget.triples triples)
  check "metadata_bytes" metadata limits.reader.metadataBytes
  check "triples" triples limits.reader.triples
  return { budget with metadata, triples }

/-- The prefixes that the metadata of a container starts with. -/
def prefixes : Bytes := utf8Bytes ("@prefix a: <http://aff4.org/Schema#> .\n" ++
  "@prefix l: <https://aff4.org/Schema/2022/#> .\n")

/-- A part of the metadata, with its statements. -/
def fragment (text : Bytes) : Except WriteError Budget := do
  let budget ← budget.charge limits text.length 0
  (libraries.turtle (prefixes ++ text)).foldlM (fun budget triple =>
    match triple with
    | .ok _ => budget.charge limits 0 1
    | .error e => throw (.error (.malformed s!"writer metadata: {e}"))) budget

/-- The first part of the record of the acquisition roots. -/
def rootsHeader (task : String) (separator : Char) : Bytes :=
  utf8Bytes (s!"<{task}> a a:LogicalAcquisitionTask; " ++
    s!"l:pathSeparator {libraries.literal separator.toString} .\n")

def observe (env : Environment σ) : Write σ Budget := do
  let w ← writer
  let budget ← ofWriteResult (budget.fragment libraries limits (w.metadata.drop budget.offset))
  let budget := { budget with offset := w.metadata.length }
  let budget ← (if budget.roots = 0 ∧ w.roots ≠ [] then do
      let task ← identifier env
      ofWriteResult (budget.fragment libraries limits
        (rootsHeader libraries task w.pathSeparator))
    else pure budget)
  let budget ← ofWriteResult ((w.roots.drop budget.roots).foldlM (fun budget root =>
    budget.charge limits (utf8Bytes s!"; a:filesystemRoot <{root}>").length 1) budget)
  return { budget with roots := w.roots.length }

/-- The record of a folder without its children. -/
def bareRecord (id : String) (folder : Folder) : Bytes :=
  utf8Bytes s!"<{id}> {folder.properties} .\n"

def chargeChild (id : String) : Except WriteError Budget :=
  budget.charge limits (utf8Bytes s!"; a:child <{id}>").length 1

def chargeFolder (entry : String × Folder) : Except WriteError Budget := do
  let budget ← budget.fragment libraries limits (bareRecord entry.1 entry.2)
  entry.2.children.foldlM (fun budget child => budget.chargeChild limits child) budget

/-- The members that the container has with another file. -/
def expectedEntries (w : Writer) (size : Option Nat) : Except WriteError Nat := do
  let entries ← okOr (.error archiveOverflow) (checkedAdd w.archiveEntries 2)
  match size with
  | some size => do
    let members ← (if w.logicalZipThreshold < size then
        okOr (.error archiveOverflow) (chunkedEntries w.options size true)
      else return 1)
    okOr (.error archiveOverflow) (checkedAdd entries members)
  | none => return entries

def file (w : Writer) (size : Option Nat) : Except WriteError Budget := do
  let entries ← expectedEntries w size
  let bytes ← okOr (overflow "collection byte count") (checkedAdd budget.bytes (size.getD 0))
  check "archive_entries" entries limits.reader.archiveEntries
  check "verification_bytes" bytes limits.reader.verificationBytes
  return { budget with bytes }

/-- `Budget::new`. -/
def new (env : Environment σ) : Write σ Budget := do
  let budget ← observe libraries limits {} env
  let w ← writer
  let budget ← ofWriteResult (w.folders.toList.foldlM (chargeFolder libraries limits) budget)
  let reserved ← taskMetadata libraries env { files := u64Limit - 1, bytes := u64Limit - 1 }
  let budget ← ofWriteResult (budget.fragment libraries limits reserved)
  let budget ← ofWriteResult (w.streams.foldlM (fun budget stream => do
    let bytes ← okOr (overflow "collection byte count") (checkedAdd budget.bytes stream.size)
    return { budget with bytes }) budget)
  ofWriteResult (budget.file limits w none)

def added (env : Environment σ) (id : String) (folder : Bool) (parent : Option String) :
    Write σ Budget := do
  let budget ← budget.observe libraries limits env
  let w ← writer
  let budget ← (if folder then
      ofWriteResult (budget.fragment libraries limits
        (bareRecord id (w.folders.getD id ⟨"", []⟩)))
    else pure budget)
  if parent.isSome then ofWriteResult (budget.chargeChild limits id) else return budget

def issue (issue : CollectionIssue) : Except WriteError Budget :=
  budget.charge limits (utf8Bytes (issueMetadata libraries issue)).length 1

end Budget

/-! ## The walk -/

inductive FileKind
  | file
  | directory
  | symlink
  | other
  deriving DecidableEq

/-- Times are nanoseconds since the Unix epoch. -/
structure FileMetadata where
  kind : FileKind
  len : Nat
  created : Option Int
  modified : Option Int
  accessed : Option Int
  mode : Nat
  ino : Nat
  dev : Nat
  ctime : Int
  ctimeNsec : Int

/-- A component of a path that is given. -/
inductive Component
  | normal (name : Bytes)
  | curDir
  | parentDir
  | rootDir
  deriving DecidableEq

structure CollectionOptions where
  exclude : List (List Component) := []
  allowPartial : Bool := false

/-- The file system of a collection; `Nat` stands for an open file. -/
structure FileSystem (σ : Type) where
  mainSeparator : Char
  /-- `symlink_metadata` and `canonicalize` of the path that is given as root. -/
  rootMetadata : Bytes → σ → Except String FileMetadata × σ
  canonicalize : Bytes → σ → Except String Path × σ
  isDir : Path → σ → Bool × σ
  symlinkMetadata : Path → σ → Except String FileMetadata × σ
  /-- The names in a directory. -/
  readDir : Path → σ → Except String (List (Except String Bytes)) × σ
  openFile : Path → σ → Except String Nat × σ
  fileMetadata : Nat → σ → Except String FileMetadata × σ
  readFile : Nat → (size : Nat) → σ → Result { bytes : Bytes // bytes.length = size } × σ
  /-- Whether the callback breaks. -/
  progress : Path → Nat → Nat → σ → Bool × σ

def pathBytes (path : Path) : Bytes := if path = [] then [47] else path.flatMap (47 :: ·)

def sourceMetadata (path : Path) (found : FileMetadata) (parent : Option String) :
    LogicalMetadata where
  path := pathBytes path
  parent
  created := found.created
  modified := found.modified
  accessed := found.accessed
  mode := some found.mode
  changed := some (found.ctime * 1000000000 + found.ctimeNsec)

def sameSource (before after : FileMetadata) : Bool :=
  before.len = after.len && before.modified = after.modified && before.ino = after.ino &&
    before.dev = after.dev && before.ctime = after.ctime && before.ctimeNsec = after.ctimeNsec

/-- An exclusion has no parts but names and the current directory. -/
def validExclusion (excluded : List Component) : Bool :=
  excluded ≠ [] && excluded.all fun c => match c with
    | .normal _ => true
    | .curDir => true
    | .parentDir => false
    | .rootDir => false

def isExcluded (options : CollectionOptions) (relative : Path) : Bool :=
  options.exclude.any fun excluded => excluded.isPrefixOf (relative.map .normal)

/-- A collection on its way; the next pending entry comes first. -/
structure Walk where
  budget : Budget
  report : CollectionReport := {}
  pending : List (Path × Option String × Nat)

section Walk

variable {σ : Type} (libraries : WriterLibraries) (env : Environment σ) (fs : FileSystem σ)
  (options : CollectionOptions) (limits : CollectionLimits)

def ofIo {α : Type} : Except String α → Write σ α
  | .ok a => pure a
  | .error reason => throw (.error (.io reason))

def recordIssue (walk : Walk) (path : Path) (reason : String) : Write σ Walk := do
  let budget ← ofWriteResult (walk.budget.issue libraries limits ⟨path, reason⟩)
  return { walk with
    budget
    report := { walk.report with issues := walk.report.issues ++ [⟨path, reason⟩] } }

/-- The children of a directory, or why they are not read any further. -/
def readChildren (path : Path) (depth : Nat) : List (Except String Bytes) → Budget → List Path →
    Write σ (Budget × Except String (List Path))
  | [], budget, children => return (budget, .ok children)
  | entry :: rest, budget, children => do
    notify (fs.progress path) 0 0
    match entry with
    | .error reason => return (budget, .error reason)
    | .ok name => do
      let budget ← ofWriteResult (budget.discover limits (depth + 1))
      readChildren path depth rest budget (children ++ [path ++ [name]])

def openRegular (path : Path) : Write σ Nat := do
  let file ← ofIo (← ask (fs.openFile path))
  let found ← ofIo (← ask (fs.fileMetadata file))
  if found.kind ≠ .file then throw (.error (.unsupported "source is not a regular file"))
  return file

def collectDirectory (walk : Walk) (path : Path) (parent : Option String) (depth : Nat)
    (found : FileMetadata) : Write σ Walk := do
  let id ← addFolder libraries env (sourceMetadata path found parent)
  let budget ← walk.budget.added libraries limits env id true parent
  let report := { walk.report with folders := walk.report.folders + 1 }
  let (budget, children) ← (do
    match ← ask (fs.readDir path) with
    | .error reason => return (budget, .error reason)
    | .ok entries => readChildren fs limits path depth entries budget [])
  let walk := { walk with budget, report }
  match children with
  | .ok children =>
    let sorted := children.mergeSort fun a b => a ≤ b
    return { walk with
      pending := sorted.map (fun child => (child, some id, depth + 1)) ++ walk.pending }
  | .error reason =>
    if options.allowPartial then recordIssue libraries limits walk path reason
    else throw (.error (.io reason))

def collectFile (walk : Walk) (path : Path) (parent : Option String) (found : FileMetadata) :
    Write σ Walk := do
  let file ← openRegular fs path
  let before ← ofIo (← ask (fs.fileMetadata file))
  if !sameSource found before then
    throw (.error (.malformed "source changed before opening"))
  let budget ← ofWriteResult (walk.budget.file limits (← writer) (some before.len))
  let source : Source σ := { readExact := fs.readFile file, progress := fs.progress path }
  let id ← addFileWithMetadata libraries env source (sourceMetadata path before parent) before.len
  let budget ← budget.added libraries limits env id false parent
  let after ← ofIo (← ask (fs.fileMetadata file))
  if !sameSource before after then
    throw (.error (.malformed s!"source changed during collection: {libraries.display path}"))
  let bytes ← ofWriteResult (okOr (overflow "collection byte count")
    (checkedAdd walk.report.bytes before.len))
  return { walk with
    budget
    report := { walk.report with files := walk.report.files + 1, bytes } }

/-- One turn of the loop over the pending entries. -/
def collectEntry (root : Path) (walk : Walk) (path : Path) (parent : Option String) (depth : Nat) :
    Write σ Walk := do
  notify (fs.progress path) 0 0
  if ¬ root.isPrefixOf path then throw (.error (.malformed "source escaped root"))
  if isExcluded options (path.drop root.length) then
    recordIssue libraries limits walk path "excluded by collection policy"
  else match ← ask (fs.symlinkMetadata path) with
    | .error reason =>
      if options.allowPartial then recordIssue libraries limits walk path reason
      else throw (.error (.io reason))
    | .ok found =>
      match found.kind with
      | .directory => collectDirectory libraries env fs options limits walk path parent depth found
      | .file => collectFile libraries env fs limits walk path parent found
      | _ =>
        let reason := "link/reparse point or special file not collected"
        if options.allowPartial then recordIssue libraries limits walk path reason
        else throw (.error (.unsupported s!"{libraries.display path}: {reason}"))

/-- The loop over the pending entries. No more entries are pending than discovered. -/
def collectLoop (root : Path) : Nat → Walk → Write σ Walk
  | 0, walk => pure walk
  | turns + 1, walk =>
    match walk.pending with
    | [] => pure walk
    | (path, parent, depth) :: pending => do
      let walk ← collectEntry libraries env fs options limits root { walk with pending } path parent
        depth
      collectLoop root turns walk

/-- The operation that poisons the writer when it fails. -/
def collect (root : Path) : Write σ Walk := do
  let budget ← Budget.new libraries limits env
  let budget ← ofWriteResult (budget.discover limits 0)
  let walk ← collectLoop libraries env fs options limits root (limits.entries + 1)
    { budget, pending := [(root, none, 0)] }
  let text ← taskMetadata libraries env walk.report
  modifyWriter fun w => { w with metadata := w.metadata ++ text }
  return walk

def collectOrPoison (root : Path) : Write σ Walk :=
  tryCatch (collect libraries env fs options limits root) fun e => do
    setPoisoned true
    throw e

/-- What is checked of the tree behind its root, once the separator is set. -/
def validateTree (root : Bytes) : Write σ Path := do
  let root ← ofIo (← ask (fs.canonicalize root))
  if !(← ask (fs.isDir root)) then
    throw (.error (.malformed "collection source must be a directory"))
  if root.isPrefixOf (← writer).path then
    throw (.error (.malformed "output must be outside the collection tree"))
  if !options.exclude.all validExclusion then
    throw (.error (.malformed
      "exclusions must be nonempty relative paths without parent traversal"))
  return root

def addDirectoryTreeWithLimits (root : Bytes) : Write σ CollectionReport := do
  logicalParent none
  let found ← ofIo (← ask (fs.rootMetadata root))
  if found.kind = .symlink then
    throw (.error (.unsupported "root symlink is not followed"))
  setPathSeparator fs.mainSeparator
  let root ← validateTree fs options root
  let walk ← collectOrPoison libraries env fs options limits root
  return walk.report

end Walk

end EwfImage.Aff4.Writing
