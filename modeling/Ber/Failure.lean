import Ber.Quantity
import Ber.Tag

/-!
# Failures

A read fails for one of a few reasons, its `Defect`, at a place: together a `Failure`. Callers see a
failure as a `Report`, which names one of five codes and holds the place and a sentence in words; a
`DecodeError` adds the name of the operation that was refused. A report is open: callers may make
their own, under any code.
-/

namespace Ber

/-- What kind of failure a caller is told of. -/
inductive FailureCode where
  | truncatedInput
  | tagMismatch
  | malformedLength
  | lengthOutOfBounds
  | unusableCursor
deriving DecidableEq, Repr

namespace FailureCode

def all : List FailureCode :=
  [truncatedInput, tagMismatch, malformedLength, lengthOutOfBounds, unusableCursor]

def name : FailureCode → String
  | truncatedInput => "TruncatedInput"
  | tagMismatch => "TagMismatch"
  | malformedLength => "MalformedLength"
  | lengthOutOfBounds => "LengthOutOfBounds"
  | unusableCursor => "UnusableCursor"

end FailureCode

/-- A length is meant for a word of this many bytes; a length field must announce fewer octets. -/
def lengthWordBytes : Nat := 8

/-- Why a read failed. -/
inductive Defect where
  /-- An earlier move of the cursor failed. -/
  | unusable
  /-- No byte is left for the tag. -/
  | missingTag
  /-- The tag is not one that the reader accepts. -/
  | unexpectedTag (rule : TagRule) (found : Tag)
  /-- The place is no index of an array of `size` bytes, nor its end. -/
  | outsideArray (size : Nat)
  /-- No byte is left for the length field. -/
  | missingLength
  /-- A long length field of `lengthWordBytes` octets or more. -/
  | tooManyOctets (count : Nat)
  /-- A long length field of which a part is missing. -/
  | missingOctets (count : Nat) (left : Quantity)
  /-- A length above `maxExact`. -/
  | lengthTooLarge
  /-- The content would reach beyond the region. -/
  | contentTooLong (length available : Nat)
deriving DecidableEq, Repr

/-- A defect and the place where the failing read began. -/
structure Failure where
  defect : Defect
  offset : Quantity
deriving DecidableEq, Repr

/-- A failure as callers see it. -/
structure Report where
  /-- The name of a code, for a failure of this library one of `FailureCode.all`. -/
  code : String
  offset : Quantity
  detail : String
deriving DecidableEq, Repr

namespace Failure

def code (failure : Failure) : FailureCode :=
  match failure.defect with
  | .unusable => .unusableCursor
  | .missingTag => .truncatedInput
  | .unexpectedTag _ _ => .tagMismatch
  | .outsideArray _ => .truncatedInput
  | .missingLength => .truncatedInput
  | .tooManyOctets _ => .malformedLength
  | .missingOctets _ _ => .truncatedInput
  | .lengthTooLarge => .malformedLength
  | .contentTooLong _ _ => .lengthOutOfBounds

def detail (failure : Failure) : String :=
  match failure.defect with
  | .unusable => "cursor was invalidated by a failed next()"
  | .missingTag => "missing tag byte"
  | .unexpectedTag rule found => "expected " ++ rule.expected ++ ", found " ++ found.text
  | .outsideArray size =>
    "offset " ++ failure.offset.text ++ " is outside the " ++ toString size ++ "-byte array"
  | .missingLength => "missing length octet"
  | .tooManyOctets count =>
    "long-form length uses " ++ toString count ++ " octets (limit "
      ++ toString (lengthWordBytes - 1) ++ ")"
  | .missingOctets count left =>
    "long-form length needs " ++ toString count ++ " octets, " ++ left.text ++ " remain"
  | .lengthTooLarge => "long-form length overflows the safe integer range"
  | .contentTooLong length available =>
    "declared length " ++ toString length ++ " exceeds " ++ toString available
      ++ " remaining bytes"

def report (failure : Failure) : Report := ⟨failure.code.name, failure.offset, failure.detail⟩

end Failure

/-- The message of a failure that stops an operation. -/
def Report.message (report : Report) (operation : String) : String :=
  operation ++ " failed at offset " ++ report.offset.text ++ ": " ++ report.detail

/-- A failure that an operation raises to its caller. -/
structure DecodeError where
  operation : String
  failure : Failure
deriving DecidableEq, Repr

def DecodeError.message (e : DecodeError) : String := e.failure.report.message e.operation

end Ber
