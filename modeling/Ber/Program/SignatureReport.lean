import Ber.ObjectIdentifier
import Ber.Program.Transcript
import Ber.SignedData

/-!
# The signature report

A program that prints the first signer's signature in a file: the two algorithms in dotted form, where
the signature lies, and its bytes in hex. An algorithm whose object identifier is not well formed stops
the report at its line.
-/

namespace Ber.SignatureReport

/-- The file that the program's arguments name. An empty name is no name. -/
def path? : List String → Option String
  | [] => none
  | path :: _ => if path.isEmpty then none else some path

/-- What the program says when it is called without a file. -/
def usage : Transcript := .stopped [] "usage: read-signature <file.p7s>"

def digestLine (oid : ObjectIdentifier) : String := "digestAlgorithm:    " ++ oid.text

def signatureLine (oid : ObjectIdentifier) : String := "signatureAlgorithm: " ++ oid.text

def placeLine (signature : Window) : String :=
  "signature (" ++ toString signature.size ++ " bytes at offset " ++ toString signature.start ++ "):"

/-- The report on the signed data found in a file. -/
def print (signed : SignedData) : Transcript :=
  match ObjectIdentifier.decode signed.digestAlgorithm.bytes with
  | .error fault => .stopped [] (Transcript.unhandled fault.message)
  | .ok digest =>
    match ObjectIdentifier.decode signed.signatureAlgorithm.bytes with
    | .error fault => .stopped [digestLine digest] (Transcript.unhandled fault.message)
    | .ok algorithm =>
      .finished [digestLine digest, signatureLine algorithm, placeLine signed.signature,
        Hex.encode signed.signature.bytes]

/-- The report on a file with the given name and content. -/
def run (path : String) (content : ByteArray) : Transcript :=
  match SignedData.read content with
  | none => .stopped [] (path ++ ": not a SignedData structure")
  | some signed => print signed

end Ber.SignatureReport
