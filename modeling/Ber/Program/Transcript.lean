/-!
# Transcripts

What a program leaves behind: its exit code, the lines it printed, and the lines it printed as errors.
-/

namespace Ber

structure Transcript where
  exitCode : Nat
  output : List String
  errors : List String
deriving DecidableEq, Repr

namespace Transcript

/-- A program that came to its end. -/
def finished (output : List String) : Transcript := ⟨0, output, []⟩

/-- A program that gave up with a message, after it had printed some lines. -/
def stopped (output : List String) (message : String) : Transcript := ⟨1, output, [message]⟩

/-- The message of an error that a program does not handle. -/
def unhandled (message : String) : String := "Error: " ++ message

end Transcript
end Ber
