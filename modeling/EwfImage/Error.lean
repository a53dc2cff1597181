import EwfImage.Lib.Fallible

/-!
# Errors

The error type of readers and writers, with the fields of the source. The text
of a `malformed` or `unsupported` error is the text of the source.

A kind of failure of the operating system is one of those that the program tells apart; its text
is left out. The text of every other error is in the model, so that a statement about an error
is about the message that a user sees.
-/

namespace EwfImage

/-- The kinds of operating-system failures that the modelled code tells apart. -/
inductive IoErrorKind
  | notFound
  | permissionDenied
  | alreadyExists
  | invalidInput
  | invalidData
  | interrupted
  | unexpectedEof
  | writeZero
  | unsupported
  | timedOut
  | wouldBlock
  | notConnected
  | connectionAborted
  | connectionReset
  | brokenPipe
  | other
  deriving DecidableEq, Repr

inductive EwfError
  | io (kind : IoErrorKind)
  | invalidSignature
  | bufferTooShort (needed actual : Nat)
  | noSegments (path : String)
  | passwordRequired
  | passwordRejected
  | decryptionValidationFailed
  | unsupported (feature : String)
  | aborted
  | malformed (reason : String)
  deriving DecidableEq, Repr

abbrev Result := Except EwfError

instance {α : Type} [DecidableEq α] : DecidableEq (Result α) := fun
  | .ok a, .ok b => decidable_of_iff (a = b) (by simp)
  | .error e, .error f => decidable_of_iff (e = f) (by simp)
  | .ok _, .error _ => isFalse (by simp)
  | .error _, .ok _ => isFalse (by simp)

end EwfImage
