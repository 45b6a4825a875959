import Ber.Program.Transcript
import Ber.Session

/-!
# A walkthrough

A program that shows cursors at work on a few bytes: a SEQUENCE is entered and its object identifier
printed, its elements are counted until one does not fit, and a SEQUENCE that is cut short is refused.
-/

namespace Ber

/-- Moves a cursor over its siblings until none is left or one is malformed, and counts them. -/
def Cursor.countSiblings (c : Cursor) : Nat × Cursor :=
  if 0 < c.remaining then
    match _h : c.advance with
    | .ok moved =>
      let (count, last) := moved.countSiblings
      (count + 1, last)
    | .error _ => (0, c.poisoned)
  else (0, c)
termination_by c.remaining
decreasing_by exact Cursor.remaining_advance_lt _h

namespace Walkthrough

/-- SEQUENCE { OBJECT IDENTIFIER 1.2.3.4 and one byte more }, then bytes outside the sequence. -/
def message : ByteArray := ⟨#[0x30, 0x06, 0x06, 0x03, 0x2a, 0x03, 0x04, 0x30, 0x00]⟩

/-- The same message, cut short inside the object identifier. -/
def cutShort : ByteArray := ⟨#[0x30, 0x06, 0x06, 0x03, 0x2a]⟩

/-- The line that reports how often a cursor moved, and whether it is usable. -/
def siblingsLine (walked : Nat × Cursor) : String :=
  toString walked.1 ++ " " ++ if walked.2.usable then "true" else "false"

/-- The lines for a sequence that cannot be entered; none if it can. -/
def refusal (c : Cursor) : List String :=
  match c.expectEnter .sequence with
  | .ok _ => []
  | .error error => [error.failure.code.name ++ " " ++ error.message]

def run : Transcript :=
  match (Cursor.ofBytes message).expectEnter .sequence with
  | .error error => .stopped [] (Transcript.unhandled error.message)
  | .ok fields =>
    match fields.expectContent .objectIdentifier with
    | .error error => .stopped [] (Transcript.unhandled error.message)
    | .ok oid =>
      .finished ([Hex.encode oid.bytes, siblingsLine fields.countSiblings]
        ++ refusal (.ofBytes cutShort))

end Walkthrough
end Ber
