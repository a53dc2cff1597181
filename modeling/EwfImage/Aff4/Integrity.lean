import EwfImage.Aff4.Container

/-!
# Integrity checks

The outcome of a comparison of bytes with a recorded digest, and the metadata checks of a
container: `information.turtle` against the digests recorded for it and the imported
members against the digests that it records for them.

A digest is recorded as a text with the name of its algorithm, and an algorithm that is not
known makes an outcome of its own. The functions that compute digests belong to the `Libraries`.
-/

namespace EwfImage.Aff4

open Fallible Std

inductive CheckOutcome
  | match
  | mismatch
  | missing
  | unsupported
  | unreadable
  deriving DecidableEq, Repr

structure IntegrityCheck where
  resource : String
  referenceSource : String
  algorithm : String
  expected : Option String
  computed : Option String
  outcome : CheckOutcome
  detail : Option String
  deriving DecidableEq

structure MetadataVerification where
  sha256 : String
  checks : List IntegrityCheck

def MetadataVerification.allMatch (report : MetadataVerification) : Bool :=
  !report.checks.isEmpty && report.checks.all (·.outcome = .match)

/-- Whether a text is a hexadecimal digest as long as another one. -/
def isDigestLike (value expected : String) : Bool :=
  value.utf8ByteSize = expected.utf8ByteSize ∧ value.toList.all isAsciiHexdigit

namespace Libraries

variable (libraries : Libraries)

/-- The digest of bytes under a supported algorithm. -/
def digest (algorithm : String) (bytes : Bytes) : Option Bytes :=
  match algorithm with
  | "MD5" => some (libraries.md5 bytes)
  | "SHA1" => some (libraries.sha1 bytes)
  | "SHA256" => some (libraries.sha256 bytes)
  | "SHA512" => some (libraries.sha512 bytes)
  | "Blake2b" => some (libraries.blake2b bytes)
  | "BLAKE2B" => some (libraries.blake2b bytes)
  | "blake2b" => some (libraries.blake2b bytes)
  | _ => none

/-- The outcome of comparing a computed digest with the recorded one. -/
def outcome (computed : Option String) (expected : String) : CheckOutcome × Option String :=
  match computed with
  | none => (.unsupported, some "unsupported digest algorithm")
  | some value =>
    if ¬ isDigestLike expected value then (.unreadable, some "invalid hexadecimal digest")
    else if eqIgnoreAsciiCase value expected then (.match, none)
    else (.mismatch, none)

def compare (resource source algorithm expected : String) (bytes : Bytes) : IntegrityCheck :=
  let computed := (libraries.digest algorithm bytes).map hex
  let (outcome, detail) := outcome computed expected
  { resource
    referenceSource := source
    algorithm
    expected := some expected
    computed
    outcome
    detail }

end Libraries

def absent (resource source : String) : IntegrityCheck where
  resource
  referenceSource := source
  algorithm := ""
  expected := none
  computed := none
  outcome := .missing
  detail := some "no recorded digest"

def algorithm (p : Property) : String :=
  let datatype := p.datatype.getD ""
  (stripPrefix datatype ns).getD datatype

def declined (id : String) (p : Property) (error : Error) : IntegrityCheck where
  resource := id
  referenceSource := p.predicate
  algorithm := algorithm p
  expected := some p.value
  computed := none
  outcome := match error with
    | .unsupported _ => .unsupported
    | _ => .unreadable
  detail := some error.text

def toAsciiUppercase (text : String) : String := String.ofList (text.toList.map Char.toUpper)

/-- The dictionary of `container.hashes`; a repeated algorithm is an error. -/
def uniqueHashes (entries : List (String × String)) : Result (TreeMap String String) :=
  entries.foldlM (fun values entry => do
    let key := toAsciiUppercase entry.1
    refuseIf (values.contains key) (.malformed "container.hashes: duplicate hash algorithm")
    return values.insert key entry.2) ∅

namespace Container

variable (c : Container)

/-- The check of a statement of `information.turtle.hashes`. -/
def metadataHash (primary : Bytes) (statement : Except String RdfTriple) :
    Result IntegrityCheck := do
  let triple ← (match statement with
    | .error e => .error (.malformed s!"metadata hashes: {e}")
    | .ok triple => .ok triple)
  let subject ← (match triple.subject with
    | .named iri => .ok iri
    | .blank _ => .error (.malformed "hash subject must be an IRI"))
  let name ← storageName c.archive c.volume subject c.version
  refuseIf (name ≠ "information.turtle" ∨ ¬ isProperty triple.predicate "hash")
    (.malformed "unexpected metadata hash statement")
  match triple.object with
  | .node _ => .error (.malformed "hash must be a typed literal")
  | .literal value datatype _ =>
    let algorithm := (stripPrefix datatype ns).getD datatype
    let check := c.libraries.compare name "information.turtle.hashes" algorithm value primary
    if algorithm = "MD5" ∨ algorithm = "SHA1" then
      return { check with
        outcome := .unsupported
        detail := some "draft metadata integrity requires SHA256 or stronger" }
    else return check

/-- The checks of `information.turtle.hashes`, statement by statement. -/
def metadataHashes (primary bytes : Bytes) : Result (List IntegrityCheck) := do
  let statements := c.libraries.turtle bytes
  let checks ← statements.zipIdx.foldlM (fun checks (statement, n) => do
    refuseIf (c.limits.triples < n + 1) (.malformed "hash reference triple limit exceeded")
    return checks ++ [← c.metadataHash primary statement]) []
  return if statements = [] then [absent "information.turtle" "information.turtle.hashes"]
    else checks

/-- The checks of `container.hashes`. -/
def containerHashes (primary bytes : Bytes) : Result (List IntegrityCheck) := do
  let entries ← (match c.libraries.jsonDictionary bytes with
    | .error e => .error (.malformed s!"container.hashes: {e}")
    | .ok entries => .ok entries)
  let values ← uniqueHashes entries
  return if values.isEmpty then [absent "information.turtle" "container.hashes"]
    else values.toList.map fun (algorithm, expected) =>
      c.libraries.compare "information.turtle" "container.hashes" algorithm expected primary

/-- The digests that the primary metadata records for imported members. -/
def importedRefs (primary : Bytes) : Result (List (String × String × String)) := do
  if 1 < c.metadataMembers.size then
    (c.libraries.turtle primary).foldlM (fun refs statement => do
      let triple ← (match statement with
        | .error e => .error (.malformed e)
        | .ok triple => .ok triple)
      match triple.subject, triple.object with
      | .named subject, .literal value datatype _ =>
        match storageName c.archive c.volume subject c.version with
        | .ok name =>
          if isProperty triple.predicate "hash" ∧ name ≠ "information.turtle" ∧
              c.metadataMembers.contains name then
            return refs ++ [(name, datatype, value)]
          else return refs
        | .error _ => return refs
      | _, _ => return refs) []
  else return []

/-- The checks of an imported member. -/
def importedChecks (refs : List (String × String × String)) (name openedHash : String) :
    Result (List IntegrityCheck) := do
  let bytes ← c.archive.member name c.limits.metadataBytes
  refuseIf (hex (c.libraries.sha256 bytes) ≠ openedHash)
    (.malformed "metadata changed after opening")
  let refs := refs.filter (·.1 = name)
  return if refs = [] then [absent name "RDF metadata"]
    else refs.map fun (_, datatype, value) =>
      c.libraries.compare name "information.turtle" ((stripPrefix datatype ns).getD datatype)
        value bytes

/-- The checks of a hash member, if the archive has it. -/
def hashMember (name : String) (checks : Bytes → Result (List IntegrityCheck)) :
    Result (List IntegrityCheck) := do
  if c.archive.hasName name then checks (← c.archive.member name c.limits.metadataBytes)
  else return []

def verifyMetadata (expectedSha256 : Option String) : Result MetadataVerification := do
  let primary ← c.archive.member "information.turtle" c.limits.metadataBytes
  let sha256 := hex (c.libraries.sha256 primary)
  let external := match expectedSha256 with
    | some expected =>
      [c.libraries.compare "information.turtle" "external" "SHA256" expected primary]
    | none => []
  let statements ← c.hashMember "information.turtle.hashes" (c.metadataHashes primary)
  let dictionary ← c.hashMember "container.hashes" (c.containerHashes primary)
  let unrecorded := if c.archive.hasName "information.turtle.hashes" ∨
      c.archive.hasName "container.hashes" then []
    else [absent "information.turtle" "metadata hash files"]
  let refs ← c.importedRefs primary
  let imported ← c.metadataMembers.toList.foldlM (fun checks (name, openedHash) => do
    if name = "information.turtle" then
      refuseIf (sha256 ≠ openedHash) (.malformed "metadata changed after opening")
      return checks
    else return checks ++ (← c.importedChecks refs name openedHash)) []
  return { sha256, checks := external ++ statements ++ dictionary ++ unrecorded ++ imported }

end Container

end EwfImage.Aff4
