import EwfImage.Aff4.Collect

/-!
# Sessions of a writer

Operations on one writer until it is finished. Finishing consumes the writer; the destination
holds nothing before the archive is persisted under its name.

An operation is a label with its arguments and inputs, and a session is a list of labels with
the writer and the environment that they leave. A failed operation does not end a session: the
next one meets whatever it has left.
-/

namespace EwfImage.Aff4.Writing

structure WriteResult where
  streams : List AcquiredStream
  metadataSha256 : String
  deriving DecidableEq

/-- A writer, and what the destination holds. -/
structure Staged (σ : Type) where
  state : State σ
  published : Option (List Member) := none

abbrev Finish (σ : Type) := EStateM WriteError (Staged σ)

section Finishing

variable {σ : Type} (libraries : WriterLibraries) (env : Environment σ)

/-- A step of the writer leaves the destination alone. -/
def onWriter {α : Type} (x : Write σ α) : Finish σ α := fun s =>
  match x s.state with
  | .ok a state => .ok a { s with state }
  | .error e state => .error e { s with state }

/-- `finish_checked`. -/
def finishChecked (check : List Member → String → Write σ Unit) : Finish σ WriteResult := do
  onWriter healthy
  onWriter (finishLogicalMetadata libraries env)
  let w ← onWriter writer
  onWriter (writeMember env "information.turtle" w.metadata)
  let metadataSha256 := hex (libraries.sha256 w.metadata)
  onWriter (writeMember env "information.turtle.hashes" (utf8Bytes
    ("@prefix a: <http://aff4.org/Schema#> .\n" ++
      s!"<{w.volume}/information.turtle> a:hash \"{metadataSha256}\"^^a:SHA256 .\n")))
  let w ← onWriter writer
  onWriter (do ofFailure (← ask (env.finishZip w.members)))
  onWriter (check w.members metadataSha256)
  onWriter (do ofFailure (← ask (env.persistNoclobber w.members)))
  modify fun s => { s with published := some w.members }
  match ← onWriter (ask env.syncPublishedDirectory) with
  | some reason => throw (.publishedButUnsynced reason)
  | none => return { streams := w.streams, metadataSha256 }

/-- The verification of a staged container. -/
structure StagedVerification (σ : Type) where
  progress : String → Nat → Nat → σ → Bool × σ
  /-- Whether everything in the reopened container matches. -/
  verifyAll : List Member → String → σ → Except WriteError Bool × σ

def verifyStaged (verification : StagedVerification σ) (members : List Member)
    (digest : String) : Write σ Unit := do
  if ← ask (verification.progress "staged verification" 0 0) then throw (.error .aborted)
  let allMatch ← ofWriteResult (← ask (verification.verifyAll members digest))
  if !allMatch then throw .verificationFailed
  if ← ask (verification.progress "before publication" 0 0) then throw (.error .aborted)

def finish : Finish σ WriteResult := finishChecked libraries env fun _ _ => pure ()

def finishVerified (verification : StagedVerification σ) : Finish σ WriteResult :=
  finishChecked libraries env (verifyStaged verification)

end Finishing

/-! ## Operations -/

inductive Operation (σ : Type)
  | addImage (source : Source σ) (size : Nat)
  | addImageWithSectorSize (source : Source σ) (size sectorSize : Nat)
  | addFile (source : Source σ) (originalPath : String) (size : Nat)
  | addFileWithMetadata (source : Source σ) (metadata : LogicalMetadata) (size : Nat)
  | addFolder (metadata : LogicalMetadata)
  | addSubstream (parent : String) (name : Bytes) (kind : SubstreamKind) (bytes : Bytes)
  | addCaseMetadata (metadata : CaseMetadata)
  | setPathSeparator (separator : Char)
  | setLogicalZipThreshold (bytes : Nat)
  | addDirectoryTree (fs : FileSystem σ) (options : CollectionOptions) (limits : CollectionLimits)
      (root : Bytes)

section Sessions

variable {σ : Type} (libraries : WriterLibraries) (env : Environment σ)

def discard {α : Type} (x : Write σ α) : Write σ Unit := do
  let _ ← x

def Operation.perform : Operation σ → Write σ Unit
  | .addImage source size => discard (Writing.addImage libraries env source size)
  | .addImageWithSectorSize source size sectorSize =>
    discard (Writing.addImageWithSectorSize libraries env source size sectorSize)
  | .addFile source originalPath size =>
    discard (Writing.addFile libraries env source originalPath size)
  | .addFileWithMetadata source metadata size =>
    discard (Writing.addFileWithMetadata libraries env source metadata size)
  | .addFolder metadata => discard (Writing.addFolder libraries env metadata)
  | .addSubstream parent name kind bytes =>
    discard (Writing.addSubstream libraries env parent name kind bytes)
  | .addCaseMetadata metadata => discard (Writing.addCaseMetadata libraries env metadata)
  | .setPathSeparator separator => Writing.setPathSeparator separator
  | .setLogicalZipThreshold bytes => Writing.setLogicalZipThreshold bytes
  | .addDirectoryTree fs options limits root =>
    discard (addDirectoryTreeWithLimits libraries env fs options limits root)

inductive Command (σ : Type)
  | operation (op : Operation σ)
  | finish
  | finishVerified (verification : StagedVerification σ)

/-- A writer that is used, until it is finished. -/
structure Session (σ : Type) extends Staged σ where
  opened : Bool := true

def Command.run : Command σ → Finish σ Unit
  | .operation op => onWriter (op.perform libraries env)
  | .finish => do let _ ← Writing.finish libraries env
  | .finishVerified verification => do let _ ← Writing.finishVerified libraries env verification

def Command.consumes : Command σ → Bool
  | .operation _ => false
  | .finish => true
  | .finishVerified _ => true

/-- The state behind a computation. -/
def endOf {ε τ α : Type} : EStateM.Result ε τ α → τ
  | .ok _ s => s
  | .error _ s => s

/-- The session after one more command; a writer that is finished takes none. -/
def Session.next (s : Session σ) (command : Command σ) : Session σ :=
  if s.opened then
    { toStaged := endOf (command.run libraries env s.toStaged)
      opened := !command.consumes }
  else s

/-- The session of a writer that has just been created. -/
def Session.start (world : σ) (w : Writer) : Session σ := { state := { world, writer := w } }

def Session.run (s : Session σ) (commands : List (Command σ)) : Session σ :=
  commands.foldl (Session.next libraries env) s

end Sessions

end EwfImage.Aff4.Writing
