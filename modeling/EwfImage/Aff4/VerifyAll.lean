import EwfImage.Aff4.Sequential

/-!
# Verification of a container

`verify_all` checks the metadata, traverses every data resource and compares the recorded
digests, and then checks the structural references and the block digests subject by
subject. Digests of a traversal are reused: by other resources with the same linear
backing, and by the block checks of the stream that was traversed.

The order of the resources and subjects is the one of the source, by their identifiers. A
listener is told about the progress and may stop at any signal; a verification that is stopped
gives no report.
-/

namespace EwfImage.Aff4

open Fallible Queries Slice Std Word

structure ByteCoverage where
  stored : Nat := 0
  described : Nat := 0
  gapFilled : Nat := 0
  deriving DecidableEq

structure ResourceVerification where
  resource : String
  verification : Option Verification
  coverage : Option ByteCoverage
  error : Option String
  deriving DecidableEq

structure ContainerVerification where
  metadata : Option MetadataVerification
  metadataError : Option String
  resources : List ResourceVerification
  checks : List IntegrityCheck

def ContainerVerification.allMatch (report : ContainerVerification) : Bool :=
  report.metadata.any MetadataVerification.allMatch && report.metadataError.isNone &&
    report.resources.all (fun r => r.verification.isSome && r.coverage.isSome) &&
    report.checks.all (·.outcome = .match)

/-- The types of the resources that `streams` lists. -/
def streamTypes : List String :=
  ["Image", "DiskImage", "ImageStream", "Map", "FileImage", "FileSubStream"]

/-- The predicates of structural references other than digests of block maps. -/
def structuralKeys : List String :=
  ["mapHash", "mapIdxHash", "mapPointHash", "mapPathHash", "blockMapHash", "imageStreamHash",
    "imageStreamIndexHash"]

def blockSuffixes : List (String × String × Nat) :=
  [("md5", "MD5", 16), ("sha1", "SHA1", 20), ("sha256", "SHA256", 32), ("sha512", "SHA512", 64),
    ("blake2b", "Blake2b", 64)]

namespace Container

variable (c : Container)

/-- The identifiers of the `streams`. -/
def streamIds : List String := c.graph.keys.filter fun id => streamTypes.any (c.hasType id)

/-! ## Byte coverage -/

/-- The loop of `byte_coverage` over a map; every turn covers at least a byte. -/
def coverageLoop (cover : String → Nat → Nat → c.Reading ByteCoverage) (map : ResourceMap)
    (stop : Nat) : Nat → Nat → ByteCoverage → c.Reading ByteCoverage
  | 0, _, count => return count
  | fuel + 1, position, count =>
    if position < stop then
      match map.ranges.find? (position < ·.stop) with
      | some range =>
        if range.start ≤ position then do
          let take := min (range.stop - position) (stop - position)
          let child ← cover range.target (range.offset + position - range.start) take
          coverageLoop cover map stop fuel (position + take)
            ⟨count.stored + child.stored, count.described + child.described,
              count.gapFilled + child.gapFilled⟩
        else
          let take := min range.start stop - position
          coverageLoop cover map stop fuel (position + take)
            { count with gapFilled := count.gapFilled + take }
      | none =>
        let take := stop - position
        coverageLoop cover map stop fuel (position + take)
          { count with gapFilled := count.gapFilled + take }
    else return count

/-- `byte_coverage`; the first argument counts the references that may still follow. -/
def byteCoverage : Nat → List String → String → Nat → Nat → c.Reading ByteCoverage
  | 0, _, _, _, _ => throw (.malformed "cyclic or excessively deep stream references")
  | depth + 1, visited, id, offset, length => do
    let visited ← enter id visited
    if id = ns ++ "Zero" ∨ startsWith id (ns ++ "SymbolicStream") then
      return { described := length }
    else
      let inline ← c.inlineData id
      if inline.isSome then return { described := length }
      else match ← c.value id "dataStream" with
        | some target => byteCoverage depth visited target offset length
        | none =>
          if c.hasType id "Map" then
            let map ← c.loadMap id
            let stop ← okOr (Error.malformed "coverage overflow") (checkedAdd offset length)
            c.coverageLoop (byteCoverage depth visited) map stop length offset {}
          else return { stored := length }

/-! ## Structural references -/

/-- The ordinal of the bevy that a block digest member with a tail belongs to. -/
def blockOrdinal (suffix tail : String) : Option Nat := do
  let digits ← (stripSuffix tail (".blockHash." ++ suffix)).orElse fun _ =>
    stripSuffix tail ("." ++ suffix)
  guard (digits.utf8ByteSize = 8 ∧ digits.toList.all Char.isDigit)
  parseU64 digits

/-- The members with the block digests of a stream, by the ordinals of their bevies. -/
def blockNames (id suffix : String) : Result (TreeMap Nat String) := do
  let path ← c.path id
  c.archive.fileNames.foldlM (fun names name =>
    match (stripPrefix name (path ++ "/")).bind (blockOrdinal suffix) with
    | none => .ok names
    | some number => do
      refuseIf (names.contains number) (.malformed "ambiguous block-hash segment aliases")
      return names.insert number name) ∅

def joinMembers (names : List String) : Result Bytes :=
  names.foldlM (fun result name =>
    (result ++ ·) <$> c.archive.member name (c.limits.memberBytes - result.length)) []

/-- The digest of a member list under the outer digest of a block map. -/
def outerDigest (outer : String) (bytes : Bytes) : Bytes :=
  if outer = "SHA512" then c.libraries.sha512 bytes else c.libraries.sha256 bytes

/-- The block digests of the streams that a map index names. -/
def blockMapInput (outer : String) (targets : List String) : Result Bytes := do
  let (input, _) ← targets.foldlM (fun (input, seen) target => do
    if ¬ c.hasType target "ImageStream" then
      refuseIf (¬ (target = ns ++ "Zero" ∨ startsWith target (ns ++ "SymbolicStream")))
        (.unsupported "nested or external block map target")
      return (input, seen)
    else
      let owner ← c.value target "stored"
      refuseIf (owner.any (· ≠ c.volume))
        (.unsupported "cross-volume composite block map digest")
      if target ∈ seen then return (input, seen)
      else
        let input ← blockSuffixes.foldlM (fun input (suffix, _) => do
          let names ← c.blockNames target suffix
          if names.isEmpty then return input
          else return input ++ c.outerDigest outer (← c.joinMembers names.values)) input
        return (input, target :: seen)) (([] : Bytes), ([] : List String))
  return input

/-- The bytes that a reference of a map or a composite covers, and the algorithm. -/
def mapInput (p : Property) (map : String) : Result (Bytes × String) := do
  refuseIf (¬ c.hasType map "Map") (.unsupported "composite digest requires a Map")
  let path ← c.path map
  let points ← c.archive.member (path ++ "/map") c.limits.memberBytes
  let index ← c.archive.member (path ++ "/idx") c.limits.memberBytes
  let order ← (if c.archive.hasName (path ++ "/mapPath") then
    c.archive.member (path ++ "/mapPath") c.limits.memberBytes else .ok [])
  if isProperty p.predicate "mapPointHash" then return (points, algorithm p)
  else if isProperty p.predicate "mapIdxHash" then return (index, algorithm p)
  else if isProperty p.predicate "mapPathHash" then return (order, algorithm p)
  else if isProperty p.predicate "mapHash" then return (points ++ index ++ order, algorithm p)
  else
    let outer ← (if algorithm p = "blockMapHashSHA512" ∨ algorithm p = "SHA512" then .ok "SHA512"
      else if algorithm p = "blockMapHashSHA256" ∨ algorithm p = "SHA256" then .ok "SHA256"
      else .error (Error.unsupported "block map digest algorithm"))
    let targets ← okOr (.malformed "map index UTF8") (fromUtf8 index)
    let input ← c.blockMapInput outer (lines targets)
    return (input ++ c.outerDigest outer points ++ c.outerDigest outer index ++
      c.outerDigest outer order, outer)

/-- `rsplit_once("/blockhash.")`. -/
def splitBlockHashes (id : String) : Option (String × String) :=
  let separator := "/blockhash.".toList
  ((List.range (id.toList.length + 1)).reverse.find? fun n =>
    separator.isPrefixOf (id.toList.drop n)).map fun n =>
      (String.ofList (id.toList.take n), String.ofList (id.toList.drop (n + separator.length)))

def structuralInput (id : String) (p : Property) : Result (Bytes × String) := do
  if c.hasType id "BlockHashes" then
    let (stream, suffix) ← okOr (.malformed "invalid BlockHashes resource") (splitBlockHashes id)
    let names ← c.blockNames stream suffix
    refuseIf names.isEmpty (.malformed "missing block hash members")
    return (← c.joinMembers names.values, algorithm p)
  else if isProperty p.predicate "imageStreamIndexHash" then
    let size ← c.number id "size"
    let chunk ← c.number id "chunkSize"
    let per ← c.number id "chunksInSegment"
    refuseIf (chunk = 0 ∨ per = 0) (.malformed "invalid chunk geometry")
    let count := divCeil (divCeil size chunk) per
    refuseIf (c.archive.files.length < count) (.malformed "missing bevies")
    let path ← c.path id
    return (← c.joinMembers ((List.range count).map fun n =>
      path ++ "/" ++ eightDigits n ++ ".index"), algorithm p)
  else if isProperty p.predicate "imageStreamHash" then
    .error (.unsupported "imageStreamHash semantics require an independent vector")
  else if c.hasType id "Map" then c.mapInput p id
  else
    let map ← okOr (.malformed "missing image map") (← c.value id "dataStream")
    c.mapInput p map

/-- Whether the second part of `verify_all` checks a property of a subject. -/
def isStructural (id : String) (p : Property) : Bool :=
  isProperty p.predicate "hash" &&
      (c.hasType id "BlockHashes" || startsWith (algorithm p) "blockMapHash") ||
    structuralKeys.any (isProperty p.predicate)

def structuralCheck (id : String) (p : Property) : IntegrityCheck :=
  match c.structuralInput id p with
  | .ok (bytes, alg) => c.libraries.compare id p.predicate alg p.value bytes
  | .error e => declined id p e

/-! ## Block digests -/

/-- A computation with the rest of the byte budget, which failures do not give back. Only being
stopped ends it. -/
abbrev Budgeted (α : Type) := ExceptT Error (StateT Nat c.Walking) α

def ofResult {α : Type} (result : Result α) : c.Budgeted α := ExceptT.mk (pure result)

def ofReading {α : Type} (p : c.Reading α) : c.Budgeted α :=
  ExceptT.mk (StateT.lift (Program.quiet p.attempt))

def ofWalking {α : Type} (p : c.Walking α) : c.Budgeted α := ExceptT.lift (StateT.lift p)

/-- Take the bytes of a block out of the budget. -/
def spend (take : Nat) : c.Budgeted Unit := ExceptT.mk fun remaining =>
  if take ≤ remaining then pure (.ok (), remaining - take)
  else pure (.error (.malformed "verification byte limit exceeded"), remaining)

/-- The geometry of the blocks of a stream. -/
structure BlockGeometry where
  size : Nat
  chunk : Nat
  per : Nat

namespace BlockGeometry

variable (geometry : BlockGeometry)

def count : Nat := divCeil geometry.size geometry.chunk

def bevies : Nat := divCeil geometry.count geometry.per

/-- The number of blocks of a bevy. -/
def blocks (bevy : Nat) : Nat := min (geometry.count - bevy * geometry.per) geometry.per

/-- The number of bytes of a block. -/
def take (block : Nat) : Nat := min (geometry.size - block * geometry.chunk) geometry.chunk

end BlockGeometry

def blockGeometry (id : String) : Result BlockGeometry := do
  let size ← c.number id "size"
  let chunk ← c.number id "chunkSize"
  let per ← c.number id "chunksInSegment"
  refuseIf (chunk = 0 ∨ c.limits.chunkBytes < chunk ∨ per = 0)
    (.malformed "invalid block hash geometry")
  return ⟨size, chunk, per⟩

/-- The recorded block digests of a bevy, from the member that must belong to it. -/
def recordedBlocks (geometry : BlockGeometry) (width bevy : Nat) (names : TreeMap Nat String) :
    Result (String × Bytes) := do
  let name ← okOr (.malformed "incomplete block hash bevy set") names.values[bevy]?
  let ordinal ← okOr (.malformed "block bevy number") names.keys[bevy]?
  refuseIf (ordinal ≠ bevy) (.malformed "block hash bevy gap")
  let recorded ← c.archive.member name c.limits.memberBytes
  refuseIf (recorded.length ≠ geometry.blocks bevy * width) (.malformed "block hash count mismatch")
  return (name, recorded)

/-- The check of a bevy before its blocks are compared. -/
def openCheck (id name algorithm : String) (blocks : Nat) : IntegrityCheck :=
  { absent id name with
    algorithm
    outcome := .match
    detail := none
    expected := some s!"{blocks} block digests"
    computed := some s!"{blocks} block digests" }

/-- A check with the outcome for one more block. -/
def noteBlock (check : IntegrityCheck) (outcome : CheckOutcome) (block offset : Nat) :
    IntegrityCheck :=
  if outcome = .match then check
  else { check with
    outcome
    detail := check.detail.or (some s!"first mismatch at chunk {block} (offset {offset})") }

/-- The outcome of comparing a block with its recorded digest. -/
def blockOutcome (id name algorithm : String) (recorded : Bytes) (n width : Nat) (block : Bytes) :
    CheckOutcome :=
  (c.libraries.compare id name algorithm (hex (slice recorded (n * width) width)) block).outcome

/-- The loop over the blocks of a bevy for one kind of digest. -/
def blockLoop (id name algorithm : String) (geometry : BlockGeometry) (recorded : Bytes)
    (width bevy : Nat) : Nat → Nat → IntegrityCheck → c.Budgeted IntegrityCheck
  | 0, _, check => return check
  | fuel + 1, n, check => do
    let block := bevy * geometry.per + n
    let offset := block * geometry.chunk
    c.ofWalking (c.progress id offset geometry.size)
    c.spend (geometry.take block)
    let bytes ← c.ofReading (c.readAtUncached id offset (geometry.take block))
    blockLoop id name algorithm geometry recorded width bevy fuel (n + 1)
      (noteBlock check (c.blockOutcome id name algorithm recorded n width bytes) block offset)

/-- The checks of the bevies for one kind of digest. -/
def suffixLoop (id algorithm : String) (geometry : BlockGeometry) (width : Nat)
    (names : TreeMap Nat String) :
    Nat → Nat → List IntegrityCheck → c.Budgeted (List IntegrityCheck)
  | 0, _, checks => return checks
  | fuel + 1, bevy, checks => do
    let (name, recorded) ← c.ofResult (c.recordedBlocks geometry width bevy names)
    let check ← c.blockLoop id name algorithm geometry recorded width bevy (geometry.blocks bevy) 0
      (openCheck id name algorithm (geometry.blocks bevy))
    suffixLoop id algorithm geometry width names fuel (bevy + 1) (checks ++ [check])

/-- The checks for one kind of digest, if the stream has it. -/
def checkSuffix (id : String) (geometry : BlockGeometry) (kind : String × String × Nat) :
    c.Budgeted (List IntegrityCheck) := do
  let (suffix, algorithm, width) := kind
  let names ← c.ofResult (c.blockNames id suffix)
  if names.isEmpty then return []
  else if names.size ≠ geometry.bevies then
    c.ofResult (.error (.malformed "incomplete block hash bevy set"))
  else c.suffixLoop id algorithm geometry width names names.size 0 []

/-- The checks of every kind of digest, one after the other. -/
def checkSuffixes (id : String) (geometry : BlockGeometry) :
    List (String × String × Nat) → c.Budgeted (List IntegrityCheck)
  | [] => return []
  | kind :: kinds => do
    let checks ← c.checkSuffix id geometry kind
    let rest ← checkSuffixes id geometry kinds
    return checks ++ rest

/-- Whether a stream has block digests of the kinds MD5 and SHA256 and of no other kind, and few
enough of them for a bevy. -/
def hasPairedBlocks (id : String) (geometry : BlockGeometry) (md5 sha256 : TreeMap Nat String) :
    Bool :=
  !md5.isEmpty && !sha256.isEmpty &&
    ["sha1", "sha512", "blake2b"].all (fun suffix =>
      ((c.blockNames id suffix).toOption.map TreeMap.isEmpty).getD false) &&
    (checkedMul (min geometry.count geometry.per) 48).any (· ≤ c.limits.memberBytes)

/-- The digests of a block that is compared: computed before, or of the block as it is read. -/
def pairedOutcomes (id md5Name sha256Name : String) (md5 sha256 : Bytes) (n block : Nat)
    (verified : Option PairedBlockDigests) (bytes : Bytes) : CheckOutcome × CheckOutcome :=
  match verified with
  | some verified =>
    (if slice md5 (n * 16) 16 = verified.md5.getD block [] then .match else .mismatch,
      if slice sha256 (n * 32) 32 = verified.sha256.getD block [] then .match else .mismatch)
  | none =>
    (c.blockOutcome id md5Name "MD5" md5 n 16 bytes,
      c.blockOutcome id sha256Name "SHA256" sha256 n 32 bytes)

/-- The loop over the blocks of a bevy for both kinds of digests. -/
def pairedBlockLoop (id md5Name sha256Name : String) (geometry : BlockGeometry)
    (md5 sha256 : Bytes) (bevy : Nat) (verified : Option PairedBlockDigests) :
    Nat → Nat → IntegrityCheck × IntegrityCheck → c.Budgeted (IntegrityCheck × IntegrityCheck)
  | 0, _, checks => return checks
  | fuel + 1, n, checks => do
    let block := bevy * geometry.per + n
    let offset := block * geometry.chunk
    -- the work limit and the cancellation points of both checks
    c.ofWalking (c.progress id offset geometry.size)
    c.spend (geometry.take block)
    c.ofWalking (c.progress id offset geometry.size)
    c.spend (geometry.take block)
    let bytes ← (if verified.isNone then
      c.ofReading (c.readAtUncached id offset (geometry.take block)) else return [])
    let outcomes := c.pairedOutcomes id md5Name sha256Name md5 sha256 n block verified bytes
    pairedBlockLoop id md5Name sha256Name geometry md5 sha256 bevy verified fuel (n + 1)
      (noteBlock checks.1 outcomes.1 block offset, noteBlock checks.2 outcomes.2 block offset)

/-- The loop over the bevies for both kinds of digests. -/
def pairedLoop (id : String) (geometry : BlockGeometry) (md5Names sha256Names : TreeMap Nat String)
    (verified : Option PairedBlockDigests) :
    Nat → Nat → List IntegrityCheck × List IntegrityCheck → c.Budgeted (List IntegrityCheck)
  | 0, _, checks => return checks.1 ++ checks.2
  | fuel + 1, bevy, checks => do
    let (md5Name, md5) ← c.ofResult (c.recordedBlocks geometry 16 bevy md5Names)
    let (sha256Name, sha256) ← c.ofResult (c.recordedBlocks geometry 32 bevy sha256Names)
    let blocks := geometry.blocks bevy
    let (md5Check, sha256Check) ← c.pairedBlockLoop id md5Name sha256Name geometry md5 sha256 bevy
      verified blocks 0 (openCheck id md5Name "MD5" blocks, openCheck id sha256Name "SHA256" blocks)
    pairedLoop id geometry md5Names sha256Names verified fuel (bevy + 1)
      (checks.1 ++ [md5Check], checks.2 ++ [sha256Check])

/-- `check_md5_sha256_blocks`. -/
def checkMd5Sha256Blocks (id : String) (geometry : BlockGeometry)
    (md5Names sha256Names : TreeMap Nat String) (verified : Option PairedBlockDigests) :
    c.Budgeted (List IntegrityCheck) := do
  c.ofResult (refuseIf (md5Names.size ≠ geometry.bevies ∨ sha256Names.size ≠ geometry.bevies)
    (.malformed "incomplete block hash bevy set"))
  c.ofResult (refuseIf (verified.any fun verified =>
      verified.md5.length ≠ geometry.count ∨ verified.sha256.length ≠ geometry.count)
    (.malformed "verified block digest count mismatch"))
  c.pairedLoop id geometry md5Names sha256Names verified geometry.bevies 0 ([], [])

def checkBlocks (id : String) (verified : Option PairedBlockDigests) :
    c.Budgeted (List IntegrityCheck) := do
  let geometry ← c.ofResult (c.blockGeometry id)
  let md5Names ← c.ofResult (c.blockNames id "md5")
  let sha256Names ← c.ofResult (c.blockNames id "sha256")
  if c.hasPairedBlocks id geometry md5Names sha256Names then
    c.checkMd5Sha256Blocks id geometry md5Names sha256Names verified
  else c.checkSuffixes id geometry blockSuffixes

/-- The block size to hash a stream with while it is traversed, if that can be reused. -/
def pairedBlockSize (id : String) : Option Nat :=
  if c.hasType id "ImageStream" then do
    let geometry ← (c.blockGeometry id).toOption
    let md5Names ← (c.blockNames id "md5").toOption
    let sha256Names ← (c.blockNames id "sha256").toOption
    guard (c.hasPairedBlocks id geometry md5Names sha256Names)
    return geometry.chunk
  else none

/-! ## Linear digests -/

/-- What the traversals of `verify_all` have found so far. -/
structure Progression where
  /-- `remaining`: the rest of the byte budget. -/
  remaining : Nat
  /-- The first fully traversed resource of each backing, by its place in the report. -/
  verifiedBackings : TreeMap String Nat := ∅
  verifiedBlocks : TreeMap String PairedBlockDigests := ∅
  resources : List ResourceVerification := []
  checks : List IntegrityCheck := []

/-- The verification of a backing that was traversed before. -/
def Progression.computed (progression : Progression) (key : String) : Option Verification := do
  let index ← progression.verifiedBackings[key]?
  let resource ← progression.resources[index]?
  resource.verification

/-- The traversal of a resource, or what replaces it when its backing was traversed before. -/
def traverse (progression : Progression) (id key : String) (size : Nat) :
    c.Walking (Verification × Option PairedBlockDigests) := do
  match progression.computed key with
  | some computed =>
    c.progress id 0 size
    let _ ← c.readResource false id 0 0
    c.progress id size size
    let verification ← c.withLinearReferences id computed
    return (verification, none)
  | none =>
    match c.pairedBlockSize key with
    | some blockSize =>
      let (verification, blocks) ← c.verifyWithPairedBlocks id blockSize
      return (verification, some blocks)
    | none =>
      let verification ← c.verify id
      return (verification, none)

/-- What one resource contributes: its verification, the backing that was found, and the rest of
the budget. -/
structure Visit where
  value : Result (Verification × Option PairedBlockDigests)
  backing : Option String
  remaining : Nat

def visit (progression : Progression) (id : String) : c.Walking Visit := do
  match c.size id with
  | .error e => return ⟨.error e, none, progression.remaining⟩
  | .ok size =>
    if progression.remaining < size then
      return ⟨.error (.malformed "verification byte limit exceeded"), none, progression.remaining⟩
    else
      let remaining := progression.remaining - size
      match ← Program.quiet (c.linearBacking id).attempt with
      | .error e => return ⟨.error e, none, remaining⟩
      | .ok key =>
        let value ← (c.traverse progression id key size).attempt
        return ⟨value, some key, remaining⟩

/-- The check of a linear digest. -/
def linearCheck (id : String) (verification : Option Verification) (error : Option String)
    (p : Property) : IntegrityCheck :=
  let check := declined id p (.unsupported "unknown linear digest")
  match verification with
  | none => { check with outcome := .unreadable, detail := error }
  | some v =>
    let computed := match algorithm p with
      | "MD5" => some v.md5
      | "SHA1" => some v.sha1
      | "SHA256" => some v.sha256
      | "SHA512" => some v.sha512
      | "Blake2b" => some v.blake2b
      | "blake2b" => some v.blake2b
      | _ => none
    match computed with
    | none => check
    | some value =>
      { check with
        computed := some value
        detail := none
        outcome := if ¬ isDigestLike p.value value then .unreadable
          else if eqIgnoreAsciiCase value p.value then .match
          else .mismatch }

def hashes (id : String) : List Property :=
  (c.properties id).filter fun p => isProperty p.predicate "hash"

/-- The checks of a resource's linear digests, and of a file that has none. -/
def linearChecks (id : String) (verification : Option Verification) (error : Option String) :
    Result (List IntegrityCheck) := do
  let hashes := c.hashes id
  let checks := (hashes.filter fun p => ¬ startsWith (algorithm p) "blockMapHash").map
    (linearCheck id verification error)
  if hashes = [] ∧ (c.hasType id "FileImage" ∨ c.hasType id "FileSubStream") then
    let inline ← c.inlineData id
    return if inline.isNone then checks ++ [absent id "linear file digest"] else checks
  else return checks

/-- A turn of the loop over the data resources. -/
def linearStep (progression : Progression) (id : String) : c.Walking Progression := do
  let visit ← c.visit progression id
  let (verification, coverage, error) ← (match visit.value with
    | .error .aborted => throw .aborted
    | .error e => return (none, none, some e.text)
    | .ok (value, _) => do
      match ← Program.quiet (c.byteCoverage 32 [] id 0 value.bytesVerified).attempt with
      | .ok coverage => return (some value, some coverage, none)
      | .error e => return (some value, none, some e.text)
    : c.Walking (Option Verification × Option ByteCoverage × Option String))
  let checks ← c.linearChecks id verification error
  let index := progression.resources.length
  return {
    remaining := visit.remaining
    verifiedBackings := match coverage, visit.backing with
      | some _, some key => if progression.verifiedBackings.contains key then
          progression.verifiedBackings else progression.verifiedBackings.insert key index
      | _, _ => progression.verifiedBackings
    verifiedBlocks := match visit.value, visit.backing with
      | .ok (_, some blocks), some key => progression.verifiedBlocks.insert key blocks
      | _, _ => progression.verifiedBlocks
    resources := progression.resources ++ [⟨id, verification, coverage, error⟩]
    checks := progression.checks ++ checks }

/-! ## Subjects -/

/-- The references that a map without a composite digest must have. -/
def mapAbsences (id : String) : Result (List IntegrityCheck) := do
  let properties := c.properties id
  if c.hasType id "Map" ∧ ¬ properties.any (fun p => isProperty p.predicate "hash" ||
      isProperty p.predicate "mapHash" || isProperty p.predicate "blockMapHash") then
    let path ← c.path id
    return ([("map", "mapPointHash"), ("idx", "mapIdxHash"), ("mapPath", "mapPathHash")].filter
      fun (member, key) => (member ≠ "mapPath" ∨ c.archive.hasName (path ++ "/" ++ member)) ∧
        ¬ properties.any fun p => isProperty p.predicate key).map fun (_, key) => absent id key
  else return []

/-- The checks of the block digests of a subject, and the rest of the budget. -/
def streamChecks (id : String) (remaining : Nat) (verified : Option PairedBlockDigests) :
    c.Walking (List IntegrityCheck × Nat) := do
  if c.hasType id "ImageStream" then
    match ← (c.checkBlocks id verified).run.run remaining with
    | (.ok checks, remaining) =>
      if checks = [] ∧ ¬ (c.properties id).any fun p => isProperty p.predicate "hash" then
        return ([absent id "linear or block content digest"], remaining)
      else return (checks, remaining)
    | (.error .aborted, _) => throw .aborted
    | (.error e, remaining) =>
      return ([declined id ⟨"block hashes", "", none, none⟩ e], remaining)
  else return ([], remaining)

/-- A turn of the loop over the subjects. -/
def subjectStep (blocks : TreeMap String PairedBlockDigests) (state : Nat × List IntegrityCheck)
    (id : String) : c.Walking (Nat × List IntegrityCheck) := do
  c.progress id 0 0
  let structural := ((c.properties id).filter (c.isStructural id)).map (c.structuralCheck id)
  let absences ← c.mapAbsences id
  let (checks, remaining) ← c.streamChecks id state.1 blocks[id]?
  return (remaining, state.2 ++ structural ++ absences ++ checks)

/-- The resources that are traversed. -/
def dataResources : List String :=
  c.streamIds.filter fun id => ¬ c.hasType id "Folder" ∧ ¬ c.hasType id "FolderImage"

def verifyAll (expectedMetadataSha256 : Option String) : c.Walking ContainerVerification := do
  c.progress "metadata" 0 0
  let (metadata, metadataError) := match c.verifyMetadata expectedMetadataSha256 with
    | .ok value => (some value, none)
    | .error e => (none, some e.text)
  let linear ← c.dataResources.foldlM c.linearStep { remaining := c.limits.verificationBytes }
  let (_, checks) ← c.graph.keys.foldlM (c.subjectStep linear.verifiedBlocks)
    (linear.remaining, linear.checks)
  return { metadata, metadataError, resources := linear.resources, checks }

end Container

end EwfImage.Aff4
