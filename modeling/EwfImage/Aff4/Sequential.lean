import EwfImage.Aff4.Integrity
import EwfImage.Aff4.Reader

/-!
# Sequential reads

A sequential traversal replaces a resource by the resource its bytes come from, and decodes
a ZIP segment once instead of once for every buffer. Copying and verifying a resource walk
it in this way; every piece that is handed on is reported, and the listener may stop the
walk.

The programs here and those of `Aff4.Reader` ask the same queries, so that one notion of
coherent caches serves both. A buffer has any length that is not zero.
-/

namespace EwfImage.Aff4

open Fallible Queries Slice

/-- The size of the buffer of a walk. -/
def walkBufferBytes : Nat := 1024 * 1024

/-- A report of progress. -/
structure Signal where
  resource : String
  done : Nat
  size : Nat

structure Verification where
  bytesVerified : Nat
  md5 : String
  sha1 : String
  sha256 : String
  sha512 : String
  blake2b : String
  /-- Whether the supported linear references match; nothing if there are none. -/
  referencesMatch : Option Bool
  unsupportedHashes : List String
  deriving DecidableEq

/-! ## Paired block digests -/

structure PairedBlockDigests where
  md5 : List Bytes
  sha256 : List Bytes
  deriving DecidableEq

/-- The bytes of the block that is not complete, and the digests of the complete ones. -/
structure PairedBlockHasher where
  blockSize : Nat
  used : Bytes := []
  result : PairedBlockDigests := ⟨[], []⟩

namespace PairedBlockHasher

variable (libraries : Libraries)

def finishBlock (hasher : PairedBlockHasher) : PairedBlockHasher :=
  { hasher with
    used := []
    result :=
      ⟨hasher.result.md5 ++ [libraries.md5 hasher.used],
        hasher.result.sha256 ++ [libraries.sha256 hasher.used]⟩ }

/-- The loop of `update`; every turn takes a byte or completes a block. -/
def updateLoop : Nat → PairedBlockHasher → Bytes → PairedBlockHasher
  | 0, hasher, _ => hasher
  | fuel + 1, hasher, bytes =>
    if bytes = [] then hasher
    else
      let take := min bytes.length (hasher.blockSize - hasher.used.length)
      let hasher := { hasher with used := hasher.used ++ bytes.take take }
      if hasher.used.length = hasher.blockSize then
        updateLoop fuel (hasher.finishBlock libraries) (bytes.drop take)
      else updateLoop fuel hasher (bytes.drop take)

def update (hasher : PairedBlockHasher) (bytes : Bytes) : PairedBlockHasher :=
  updateLoop libraries bytes.length hasher bytes

def finish (hasher : PairedBlockHasher) : PairedBlockDigests :=
  if hasher.used = [] then hasher.result else (hasher.finishBlock libraries).result

/-- The digests of the pieces that a walk hands on. -/
def run (blockSize : Nat) (pieces : List Bytes) : PairedBlockDigests :=
  (pieces.foldl (update libraries) { blockSize }).finish libraries

end PairedBlockHasher

namespace Container

variable (c : Container)

/-- A computation that also reports its progress. -/
abbrev Walking (α : Type) := Program (c.Query ⊕ Signal) (Heard (Query.Answer c) Signal) Error α

def progress (resource : String) (done size : Nat) : c.Walking Unit :=
  .signal .aborted ⟨resource, done, size⟩

/-! ## Linear backing -/

/-- The loop of `linear_backing`; the first argument counts the references that may still
follow. -/
def linearBackingLoop : Nat → List String → String → c.Reading String
  | 0, _, _ => throw (.malformed "cyclic or excessively deep stream references")
  | depth + 1, visited, target => do
    let visited ← enter target visited
    let inline ← c.inlineData target
    if inline.isSome then return target
    else match ← c.value target "dataStream" with
      | some next => linearBackingLoop depth visited next
      | none =>
        if c.hasType target "Map" then
          let map ← c.loadMap target
          match map.ranges with
          | [range] =>
            if range.start = 0 ∧ range.offset = 0 then
              let size ← c.size target
              if range.stop = size ∧ (c.size range.target).toOption = some range.stop then
                linearBackingLoop depth visited range.target
              else return target
            else return target
          | _ => return target
        else return target

def linearBacking (id : String) : c.Reading String := c.linearBackingLoop 32 [] id

/-! ## Walks -/

/-- The loop of `walk_bytes` over a ZIP segment; every turn takes at least a byte. -/
def zipLoop (contents : ByteStream) (id : String) (size : Nat) :
    Nat → Nat → List Bytes → c.Walking (List Bytes)
  | 0, _, pieces => return pieces
  | fuel + 1, offset, pieces =>
    if offset < size then do
      let take := min (size - offset) walkBufferBytes
      let bytes ← contents.readExact offset take
      c.progress id (offset + take) size
      zipLoop contents id size fuel (offset + take) (pieces ++ [bytes])
    else return pieces

/-- The loop of `walk_bytes` over positioned reads; every turn takes at least a byte. -/
def positionedLoop (id : String) (size : Nat) :
    Nat → Nat → List Bytes → c.Walking (List Bytes)
  | 0, _, pieces => return pieces
  | fuel + 1, offset, pieces =>
    if offset < size then do
      let bytes ← c.readAtUncached id offset walkBufferBytes
      refuseIf (bytes = []) (.malformed "truncated stream")
      c.progress id (offset + bytes.length) size
      positionedLoop id size fuel (offset + bytes.length) (pieces ++ [bytes])
    else return pieces

/-- `walk_bytes`: the pieces that are handed on. -/
def walkBytes (id : String) : c.Walking (List Bytes) := do
  let size ← c.size id
  c.progress id 0 size
  let _ ← c.readResource false id 0 0
  let target ← c.linearBacking id
  if c.isZipSegment target then
    let path ← c.path target
    let (file, contents) ← c.archive.byName path
    refuseIf (file.size ≠ size) (.malformed "ZIP segment size mismatch")
    let pieces ← c.zipLoop contents id size size 0 []
    let more ← contents.hasMore size
    refuseIf more (.malformed "oversized ZIP segment")
    return pieces
  else c.positionedLoop id size size 0 []

/-- What `sequential_reader` returns. -/
inductive SequentialReader where
  | zip (contents : ByteStream)
  | positioned (id : String)

def sequentialReader (id : String) : c.Reading SequentialReader := do
  let size ← c.size id
  let _ ← c.readResource false id 0 0
  let target ← c.linearBacking id
  if c.isZipSegment target then
    let path ← c.path target
    let (file, contents) ← c.archive.byName path
    refuseIf (file.size ≠ size) (.malformed "ZIP segment size mismatch")
    return .zip contents
  else return .positioned id

/-- A read of the next `length` bytes from a sequential reader. -/
def SequentialReader.read (length position : Nat) : SequentialReader → c.Reading Bytes
  | .zip contents => do
    let more ← contents.hasMore position
    if more then return slice contents.output position length else return []
  | .positioned id => c.readAt id position length

/-! ## Verification of a resource -/

def linearDigest (result : Verification) (datatype : String) : Option String :=
  match stripPrefix datatype ns with
  | some "MD5" => some result.md5
  | some "SHA1" => some result.sha1
  | some "SHA256" => some result.sha256
  | some "SHA512" => some result.sha512
  | some "Blake2b" => some result.blake2b
  | some "blake2b" => some result.blake2b
  | _ => none

def linearReference (result : Verification) (reference : Property) : Result Verification :=
  let datatype := reference.datatype.getD ""
  match linearDigest result datatype with
  | none => .ok { result with unsupportedHashes := result.unsupportedHashes ++ [datatype] }
  | some expected => do
    refuseIf (¬ isDigestLike reference.value expected) (.malformed "invalid linear hash")
    return { result with
      referencesMatch := some (result.referencesMatch.getD true &&
        eqIgnoreAsciiCase reference.value expected) }

def withLinearReferences (id : String) (result : Verification) : Result Verification :=
  ((c.properties id).filter fun p => isProperty p.predicate "hash").foldlM linearReference
    { result with referencesMatch := none, unsupportedHashes := [] }

/-- The digests of the bytes of a resource, before they are compared. -/
def digests (size : Nat) (bytes : Bytes) : Verification where
  bytesVerified := size
  md5 := hex (c.libraries.md5 bytes)
  sha1 := hex (c.libraries.sha1 bytes)
  sha256 := hex (c.libraries.sha256 bytes)
  sha512 := hex (c.libraries.sha512 bytes)
  blake2b := hex (c.libraries.blake2b bytes)
  referencesMatch := none
  unsupportedHashes := []

/-- `copy_verified_impl` with the pieces that it writes. -/
def copyVerifiedImpl (blockSize : Option Nat) (id : String) :
    c.Walking (Verification × Option PairedBlockDigests × List Bytes) := do
  let size ← c.size id
  refuseIf (c.limits.verificationBytes < size) (.malformed "verification byte limit exceeded")
  c.clearCaches
  let _ ← c.readResource false id 0 0
  let pieces ← c.walkBytes id
  let result ← c.withLinearReferences id (c.digests size pieces.flatten)
  return (result, blockSize.map (PairedBlockHasher.run c.libraries · pieces), pieces)

/-- `copy_verified`, with the bytes that it writes. -/
def copyVerified (id : String) : c.Walking (Verification × Bytes) := do
  let (verification, _, pieces) ← c.copyVerifiedImpl none id
  return (verification, pieces.flatten)

def verify (id : String) : c.Walking Verification := do
  let (verification, _) ← c.copyVerified id
  return verification

def verifyWithPairedBlocks (id : String) (blockSize : Nat) :
    c.Walking (Verification × PairedBlockDigests) := do
  let (verification, blocks, _) ← c.copyVerifiedImpl (some blockSize) id
  return (verification, blocks.getD ⟨[], []⟩)

end Container

end EwfImage.Aff4
