import EwfImage.Error
import EwfImage.Lib.Word
import EwfImage.Types
import Mathlib.Data.List.Sort

/-!
# Segment names

Output paths by directory, stem and extension, and the extensions that belong to a
segment set. A later prefix letter continues the numbering of an earlier one, so an
EWF1 set also claims alphabetic extensions behind its own prefix.

The functions on extensions are those of the source. Resolving links is the parameter
`canonicalize`; a directory is the list of its entries in any order. That a stale segment is
chosen by its name alone is in `publicationSegmentPaths`.
-/

namespace EwfImage

structure OutputPath where
  directory : String
  stem : String
  extension : String
  deriving DecidableEq, Repr

def segmentSuffixMatches (chars : List Char) : Bool :=
  chars.length == 2 && (chars.all Char.isDigit || chars.all Char.isAlpha)

def v1SegmentExtensionMatches (chars : List Char) (firstPrefix : Char) : Bool :=
  match chars with
  | candidate :: suffix =>
    let candidatePrefix := candidate.toUpper
    let firstPrefix := firstPrefix.toUpper
    if candidatePrefix = firstPrefix then segmentSuffixMatches suffix
    else firstPrefix.isUpper && firstPrefix < candidatePrefix && candidatePrefix ≤ 'Z' &&
      suffix.all Char.isAlpha
  | [] => false

def v2SegmentExtensionMatches (chars : List Char) (firstPrefix : Char) : Bool :=
  match chars with
  | first :: infixLetter :: suffix =>
    if first.toLower ≠ firstPrefix.toLower then false
    else match infixLetter.toLower with
      | 'x' => segmentSuffixMatches suffix
      | 'y' | 'z' => suffix.all Char.isAlpha
      | _ => false
  | _ => false

def isSegmentExtension (ext : String) (firstPrefix : Char) (isV2 : Bool) : Bool :=
  let chars := ext.toList
  if isV2 then chars.length == 4 && v2SegmentExtensionMatches chars firstPrefix
  else chars.length == 3 && v1SegmentExtensionMatches chars firstPrefix

/-- The prefix letter of a first segment path. -/
def extensionPrefix (first : OutputPath) : Char := first.extension.toList.headD 'E'

/-- `Set::target` accepts the name of `entry` as a segment of the set that starts at `first`. -/
def isSegmentOf (first entry : OutputPath) : Bool :=
  entry.directory = first.directory && entry.stem = first.stem &&
    isSegmentExtension entry.extension (extensionPrefix first) (first.extension.utf8ByteSize == 4)

/-- The destinations of a published set: the written segments, then the stale segments of the
directory. `canonicalize` resolves links and is absent for a missing file. -/
def publicationSegmentPaths (canonicalize : OutputPath → Option OutputPath)
    (directory written : List OutputPath) (isV2 : Bool) : List OutputPath :=
  match written with
  | [] => []
  | first :: _ =>
    let existing := written.filterMap canonicalize
    let stale := directory.filter fun path =>
      path.directory = first.directory && path.stem = first.stem &&
        isSegmentExtension path.extension (extensionPrefix first) isV2 &&
        !(written.contains path || (canonicalize path).any existing.contains)
    written ++ stale.insertionSort fun a b => a.extension ≤ b.extension

/-! ## Numbering -/

open Fallible Word

/-- The two letters behind the prefix of a segment with an alphabetic extension. -/
def alphaSuffix (index : Nat) : String :=
  String.ofList [Char.ofNat (65 + index / 26), Char.ofNat (65 + index % 26)]

/-- `v1_segment_extension`. -/
def v1SegmentExtension (firstPrefix : Char) (segmentNumber : Nat) : Result String :=
  let letter := firstPrefix.toUpper
  if segmentNumber ≤ 99 then
    .ok (String.ofList [letter, Nat.digitChar (segmentNumber / 10), Nat.digitChar (segmentNumber % 10)])
  else do
    let alphaIndex := segmentNumber - 100
    let code := letter.toNat + alphaIndex / (26 * 26) % u32Limit
    rejectIf (u32Limit ≤ code ∨ ¬ code.isValidChar)
      (.unsupported "EWF1 writer segment extension prefix overflow")
    rejectIf (¬ (Char.ofNat code).isUpper)
      (.unsupported "EWF1 writer segment count exceeds supported extensions")
    return (Char.ofNat code).toString ++ alphaSuffix (alphaIndex % (26 * 26))

/-- `v2_segment_extension`; the sum with the code of the letter wraps. -/
def v2SegmentExtension (firstPrefix : Char) (segmentNumber : Nat) : Result String :=
  let letter := firstPrefix.toUpper
  if segmentNumber ≤ 99 then
    .ok (String.ofList
      [letter, 'x', Nat.digitChar (segmentNumber / 10), Nat.digitChar (segmentNumber % 10)])
  else do
    let alphaIndex := segmentNumber - 100
    let code := (120 + alphaIndex / (26 * 26) % u32Limit) % u32Limit
    rejectIf (¬ code.isValidChar) (.unsupported "EWF2 writer segment extension overflow")
    rejectIf (¬ (120 ≤ code ∧ code ≤ 122))
      (.unsupported "EWF2 writer segment count exceeds supported extensions")
    return String.ofList [letter, Char.ofNat code] ++ alphaSuffix (alphaIndex % (26 * 26))

/-- The extension of `segment_path` and `ewf2_segment_path`; the first segment keeps its own. -/
def segmentExtension (first : String) (isV2 : Bool) (segmentNumber : Nat) : Result String :=
  if segmentNumber = 1 then .ok first
  else if isV2 then v2SegmentExtension (first.toList.headD 'E') segmentNumber
  else v1SegmentExtension (first.toList.headD 'E') segmentNumber

end EwfImage
