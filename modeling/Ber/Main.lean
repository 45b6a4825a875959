import Ber.Program.SignatureReport

/-!
# Command line

`read-signature <file.p7s>` prints the signature report on a file.
-/

open Ber

/-- Prints a transcript and gives its exit code. -/
def Ber.Transcript.emit (transcript : Transcript) : IO UInt32 := do
  for line in transcript.output do
    IO.println line
  for line in transcript.errors do
    IO.eprintln line
  return UInt32.ofNat transcript.exitCode

def main (args : List String) : IO UInt32 := do
  match SignatureReport.path? args with
  | none => SignatureReport.usage.emit
  | some path =>
    let content ← IO.FS.readBinFile path
    (SignatureReport.run path content).emit
