import Ber.Cursor

/-!
# Signed data

A signed message is a ContentInfo whose content type is id-signedData:

    ContentInfo ::= SEQUENCE { contentType OBJECT IDENTIFIER, content [0] EXPLICIT SignedData }
    SignedData  ::= SEQUENCE { version, digestAlgorithms, encapContentInfo,
                               certificates [0] OPTIONAL, crls [1] OPTIONAL,
                               signerInfos SET OF SignerInfo }
    SignerInfo  ::= SEQUENCE { version, sid, digestAlgorithm AlgorithmIdentifier,
                               signedAttrs [0] OPTIONAL,
                               signatureAlgorithm AlgorithmIdentifier,
                               signature OCTET STRING, unsignedAttrs [1] OPTIONAL }

`SignedData.read` finds the first signer's signature and the two algorithms that belong to it. Fields
that it does not hand out are passed over whatever they hold, and so is whatever follows the last field
that it needs.
-/

namespace Ber

/-- Where the content type, the first signer's algorithms and the signature lie. -/
structure SignedData where
  contentType : Window
  digestAlgorithm : Window
  signatureAlgorithm : Window
  signature : Window
deriving DecidableEq

namespace SignedData

/-- The content of the object identifier id-signedData, 1.2.840.113549.1.7.2. -/
def contentTypeId : ByteArray := ⟨#[0x2a, 0x86, 0x48, 0x86, 0xf7, 0x0d, 0x01, 0x07, 0x02]⟩

/-- The object identifier of the AlgorithmIdentifier at a cursor. -/
def algorithm? (c : Cursor) : Option Window := do
  let fields ← c.enter? .sequence
  fields.content? .objectIdentifier

/-- The content type of a ContentInfo, which must be id-signedData, and a cursor on the fields of its
SignedData. -/
def contentInfo? (c : Cursor) : Option (Window × Cursor) := do
  let fields ← c.enter? .sequence
  let contentType ← fields.content? .objectIdentifier
  if !contentType.sameBytes (.ofBytes contentTypeId) then failure
  let content ← fields.next?
  let explicit ← content.enter? .context
  if explicit.tagContext ≠ some 0 then failure
  let signedData ← explicit.enter? .sequence
  return (contentType, signedData)

/-- A cursor on the fields of the first SignerInfo, from one on the fields of a SignedData. -/
def firstSigner? (version : Cursor) : Option Cursor := do
  let digestAlgorithms ← version.next?
  let encapContentInfo ← digestAlgorithms.next?
  let certificates ← encapContentInfo.next?
  let signerInfos ← certificates.skipContext?
  let signers ← signerInfos.enter? .set
  signers.enter? .sequence

/-- The digest algorithm, the signature algorithm and the signature, from a cursor on the fields of a
SignerInfo. -/
def signature? (version : Cursor) : Option (Window × Window × Window) := do
  let sid ← version.next?
  let digest ← sid.next?
  let digestAlgorithm ← algorithm? digest
  let signedAttrs ← digest.next?
  let signer ← signedAttrs.skipContext?
  let signatureAlgorithm ← algorithm? signer
  let signature ← signer.next?
  let value ← signature.content? .octetString
  return (digestAlgorithm, signatureAlgorithm, value)

def read (der : ByteArray) : Option SignedData := do
  let (contentType, signedData) ← contentInfo? (.ofBytes der)
  let signerInfo ← firstSigner? signedData
  let (digestAlgorithm, signatureAlgorithm, signature) ← signature? signerInfo
  return { contentType, digestAlgorithm, signatureAlgorithm, signature }

end SignedData
end Ber
