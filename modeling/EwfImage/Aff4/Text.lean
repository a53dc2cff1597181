import EwfImage.Error
import EwfImage.Types
import EwfImage.Lib.Fallible
import EwfImage.Lib.Lines
import EwfImage.Lib.Word
import Mathlib.Data.List.Basic

/-!
# Texts of AFF4 containers

The errors of the AFF4 crate, the namespaces of its vocabulary and the operations on
texts that its readers and writers use. Texts are sequences of characters; lengths that
the source counts in bytes are counted in bytes.

The definitions that are not about AFF4 are in `Lib.Text` and `Lib.Lines`. An error has the text
of the source; errors of the operating system and of third-party libraries are texts as given.
-/

namespace EwfImage.Aff4

open Word

inductive Error
  | io (reason : String)
  | zip (reason : String)
  | malformed (reason : String)
  | unsupported (feature : String)
  | aborted
  deriving DecidableEq, Repr

/-- The text of an error. -/
def Error.text : Error → String
  | .io reason => reason
  | .zip reason => reason
  | .malformed reason => s!"malformed AFF4: {reason}"
  | .unsupported feature => s!"unsupported AFF4: {feature}"
  | .aborted => "operation cancelled"

abbrev Result := Except Error

instance {α : Type} [DecidableEq α] : DecidableEq (Result α) := fun
  | .ok a, .ok b => decidable_of_iff (a = b) (by simp)
  | .error e, .error f => decidable_of_iff (e = f) (by simp)
  | .ok _, .error _ => isFalse (by simp)
  | .error _, .ok _ => isFalse (by simp)

/-- `rejectIf` with an error of this crate. -/
abbrev refuseIf (p : Prop) [Decidable p] (e : Error) : Result Unit := Fallible.rejectIf p e

def ns : String := "http://aff4.org/Schema#"

def rdfType : String := "http://www.w3.org/1999/02/22-rdf-syntax-ns#type"

def logicalNs : String := "https://aff4.org/Schema/2022/#"

def legacyLogicalNs : String := "http://aff4.org/Schema/2022/#"

def base64 : String := "http://www.w3.org/2001/XMLSchema#base64Binary"

/-- `str::strip_prefix`. -/
def stripPrefix (text start : String) : Option String :=
  if start.toList.isPrefixOf text.toList then
    some (String.ofList (text.toList.drop start.toList.length))
  else none

def startsWith (text start : String) : Bool := start.toList.isPrefixOf text.toList

/-- `str::strip_suffix`. -/
def stripSuffix (text ending : String) : Option String :=
  if ending.toList.isSuffixOf text.toList then
    some (String.ofList (text.toList.take (text.toList.length - ending.toList.length)))
  else none

def isProperty (predicate name : String) : Bool :=
  [ns, logicalNs, legacyLogicalNs].any fun space => stripPrefix predicate space = some name

theorem toList_of_stripPrefix {text start rest : String} (h : stripPrefix text start = some rest) :
    text.toList = start.toList ++ rest.toList := by
  unfold stripPrefix at h
  by_cases hstart : start.toList.isPrefixOf text.toList = true
  · rw [if_pos hstart, Option.some.injEq] at h
    obtain ⟨tail, htail⟩ := List.isPrefixOf_iff_prefix.mp hstart
    rw [← htail, ← h, ← htail, List.drop_left, String.toList_ofList]
  · rw [if_neg hstart] at h
    cases h

theorem toList_of_stripSuffix {text ending rest : String}
    (h : stripSuffix text ending = some rest) : text.toList = rest.toList ++ ending.toList := by
  unfold stripSuffix at h
  by_cases hending : ending.toList.isSuffixOf text.toList = true
  · rw [if_pos hending, Option.some.injEq] at h
    obtain ⟨front, hfront⟩ := List.isSuffixOf_iff_suffix.mp hending
    have hlength : text.toList.length - ending.toList.length = front.length := by
      rw [← hfront, List.length_append, Nat.add_sub_cancel]
    rw [hlength, ← hfront, List.take_left] at h
    rw [← hfront, ← h, String.toList_ofList]
  · rw [if_neg hending] at h
    cases h

/-! ## Numbers -/

def decimalDigit (c : Char) : Option Nat :=
  if c.isDigit then some (c.toNat - '0'.toNat) else none

def hexadecimalDigit (c : Char) : Option Nat :=
  if c.isDigit then some (c.toNat - '0'.toNat)
  else if 'a' ≤ c ∧ c ≤ 'f' then some (c.toNat - 'a'.toNat + 10)
  else if 'A' ≤ c ∧ c ≤ 'F' then some (c.toNat - 'A'.toNat + 10)
  else none

/-- The digits of an unsigned number below a limit, after a plus sign if there is one. -/
def parseDigits (digit : Char → Option Nat) (radix limit : Nat) (text : List Char) : Option Nat :=
  let digits := match text with
    | '+' :: rest => rest
    | digits => digits
  if digits = [] then none
  else digits.foldlM (fun value c => do
    let value := value * radix + (← digit c)
    guard (value < limit)
    return value) 0

/-- `str::parse` of a `u64`. -/
def parseU64 (text : String) : Option Nat := parseDigits decimalDigit 10 u64Limit text.toList

/-- `str::parse` of a `u32`. -/
def parseU32 (text : String) : Option Nat := parseDigits decimalDigit 10 u32Limit text.toList

/-- `u8::from_str_radix` with radix 16. -/
def parseHexByte (text : String) : Option UInt8 :=
  (parseDigits hexadecimalDigit 16 256 text.toList).map UInt8.ofNat

/-- A decimal number, filled up with zeros to eight digits. -/
def eightDigits (n : Nat) : String :=
  let digits := (Nat.toDigits 10 n)
  String.ofList (List.replicate (8 - digits.length) '0' ++ digits)

/-! ## Bytes -/

def hexDigit (n : Nat) : Char := Nat.digitChar n

/-- Lowercase hexadecimal digits. -/
def hex (bytes : Bytes) : String :=
  String.ofList (bytes.flatMap fun byte => [hexDigit (byte.toNat / 16), hexDigit (byte.toNat % 16)])

def isAsciiHexdigit (c : Char) : Bool := (hexadecimalDigit c).isSome

def eqIgnoreAsciiCase (left right : String) : Bool :=
  left.toList.map Char.toLower = right.toList.map Char.toLower

def utf8Bytes (text : String) : Bytes := text.toUTF8.data.toList

def fromUtf8 (bytes : Bytes) : Option String := String.fromUTF8? ⟨⟨bytes⟩⟩

def escapeByte (byte : UInt8) : List Char :=
  let c := Char.ofNat byte.toNat
  if byte < 128 ∧ (c.isAlphanum ∨ c ∈ ['-', '.', '_', '~', '/']) then [c]
  else ['%', (hexDigit (byte.toNat / 16)).toUpper, (hexDigit (byte.toNat % 16)).toUpper]

def escape (value : String) : String := String.ofList ((utf8Bytes value).flatMap escapeByte)

/-! ## Lines -/

/-- `str::lines`. -/
def lines (text : String) : List String :=
  (Text.lines text.toList).map String.ofList

end EwfImage.Aff4
