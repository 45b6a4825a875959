import Ber.SignedData
import Ber.Proofs.Reading

/-!
# The layout of signed data

`SignedData.read` accepts exactly a grammar. A `Layout` of some bytes names the elements that lie in one
another from the ContentInfo down to the first signer's signature; whatever else an element holds
behind them is not looked at, and nor is what follows the outermost element. The grammar is cut at the
two places where a whole region is handed on:

* a `Shell` is what lies around the fields of the SignedData,
* a `Body` the fields of the SignedData up to the first SignerInfo,
* a `Signer` the fields of that SignerInfo up to the signature.

For each of the three there is one lemma in each direction: what the reader found is such a part, and a
part that stands in front is found, with the places counted from the front.

The tags are those of the bytes, not of the rules that accept them. Behind the elements that may be
skipped only one of the two tags that a rule accepts is left: `0xb0` and `0xb1` are tags of `[n]`
elements, so an element that carries one has been skipped.
-/

namespace Ber.SignedData

open Encoding (rowBytes)

/-! ### The grammar -/

/-- The tag of a SEQUENCE, whose topmost bit is ignored. -/
def IsSequence (x : Encoding) : Prop := x.tag = 0x30 ∨ x.tag = 0xb0

def IsObjectIdentifier (x : Encoding) : Prop := x.tag = 0x06

/-- The tag of an `[n]` element. -/
def IsContext (x : Encoding) : Prop := 0xa0 ≤ x.tag ∧ x.tag ≤ 0xbf

structure Shell where
  contentInfo : Encoding
  contentType : Encoding
  explicit : Encoding
  signedData : Encoding
  contentInfo_tag : IsSequence contentInfo
  contentType_tag : IsObjectIdentifier contentType
  contentType_id : contentType.content = contentTypeId.data.toList
  explicit_tag : explicit.tag = 0xa0
  signedData_tag : IsSequence signedData
  inContentInfo : contentType.bytes ++ explicit.bytes <+: contentInfo.content
  inExplicit : signedData.bytes <+: explicit.content

structure Body where
  version : Encoding
  digestAlgorithms : Encoding
  encapContentInfo : Encoding
  /-- The certificates and the revocation lists. -/
  optional : List Encoding
  signerInfos : Encoding
  signerInfo : Encoding
  optional_tags : ∀ x ∈ optional, IsContext x
  signerInfos_tag : signerInfos.tag = 0x31
  signerInfo_tag : IsSequence signerInfo
  inSignerInfos : signerInfo.bytes <+: signerInfos.content

structure Signer where
  version : Encoding
  sid : Encoding
  digestAlgorithm : Encoding
  digestId : Encoding
  /-- The signed attributes. -/
  optional : List Encoding
  signatureAlgorithm : Encoding
  signatureId : Encoding
  signature : Encoding
  digestAlgorithm_tag : IsSequence digestAlgorithm
  digestId_tag : IsObjectIdentifier digestId
  inDigestAlgorithm : digestId.bytes <+: digestAlgorithm.content
  optional_tags : ∀ x ∈ optional, IsContext x
  signatureAlgorithm_tag : signatureAlgorithm.tag = 0x30
  signatureId_tag : IsObjectIdentifier signatureId
  inSignatureAlgorithm : signatureId.bytes <+: signatureAlgorithm.content
  signature_tag : signature.tag = 0x04

namespace Shell

/-- Where the content of the content type lies. -/
def typeStart (s : Shell) : Nat := s.contentInfo.headerLength + s.contentType.headerLength

/-- Where the fields of the SignedData lie. -/
def fieldsStart (s : Shell) : Nat :=
  s.contentInfo.headerLength + s.contentType.bytes.length + s.explicit.headerLength
    + s.signedData.headerLength

end Shell

namespace Body

def bytes (b : Body) : List UInt8 :=
  b.version.bytes ++ b.digestAlgorithms.bytes ++ b.encapContentInfo.bytes ++ rowBytes b.optional
    ++ b.signerInfos.bytes

/-- Where the fields of the first SignerInfo lie. -/
def fieldsStart (b : Body) : Nat :=
  b.version.bytes.length + b.digestAlgorithms.bytes.length + b.encapContentInfo.bytes.length
    + (rowBytes b.optional).length + b.signerInfos.headerLength + b.signerInfo.headerLength

end Body

namespace Signer

def bytes (s : Signer) : List UInt8 :=
  s.version.bytes ++ s.sid.bytes ++ s.digestAlgorithm.bytes ++ rowBytes s.optional
    ++ s.signatureAlgorithm.bytes ++ s.signature.bytes

/-- Where the digest algorithm lies. -/
def digestAt (s : Signer) : Nat := s.version.bytes.length + s.sid.bytes.length

/-- Where the signature algorithm lies. -/
def algorithmAt (s : Signer) : Nat :=
  s.digestAt + s.digestAlgorithm.bytes.length + (rowBytes s.optional).length

/-- Where the content of the digest algorithm's identifier lies. -/
def digestStart (s : Signer) : Nat :=
  s.digestAt + s.digestAlgorithm.headerLength + s.digestId.headerLength

/-- Where the content of the signature algorithm's identifier lies. -/
def algorithmStart (s : Signer) : Nat :=
  s.algorithmAt + s.signatureAlgorithm.headerLength + s.signatureId.headerLength

/-- Where the content of the signature lies. -/
def signatureStart (s : Signer) : Nat :=
  s.algorithmAt + s.signatureAlgorithm.bytes.length + s.signature.headerLength

end Signer

/-- The elements of signed data at the front of some bytes. -/
structure Layout (der : List UInt8) where
  shell : Shell
  body : Body
  signer : Signer
  inDer : shell.contentInfo.bytes <+: der
  inSignedData : body.bytes <+: shell.signedData.content
  inSignerInfo : signer.bytes <+: body.signerInfo.content

/-- The four ranges are those that a layout points to. -/
structure Layout.Locates {der : List UInt8} (l : Layout der) (origin : ByteArray)
    (found : SignedData) : Prop where
  contentType : found.contentType.Shows origin l.shell.typeStart l.shell.contentType.content
  digestAlgorithm : found.digestAlgorithm.Shows origin
    (l.shell.fieldsStart + l.body.fieldsStart + l.signer.digestStart) l.signer.digestId.content
  signatureAlgorithm : found.signatureAlgorithm.Shows origin
    (l.shell.fieldsStart + l.body.fieldsStart + l.signer.algorithmStart) l.signer.signatureId.content
  signature : found.signature.Shows origin
    (l.shell.fieldsStart + l.body.fieldsStart + l.signer.signatureStart) l.signer.signature.content

/-! ### The tags that are accepted -/

section Tags

variable {x : Encoding} {tail : List UInt8}

theorem accepts_sequence_iff_isSequence : Container.sequence.rule.accepts x.tag = true ↔ IsSequence x :=
  TagRule.accepts_sequence_iff x.tag

theorem accepts_objectIdentifier_iff :
    Primitive.objectIdentifier.rule.accepts x.tag = true ↔ IsObjectIdentifier x :=
  beq_iff_eq

theorem accepts_octetString_iff : Primitive.octetString.rule.accepts x.tag = true ↔ x.tag = 0x04 :=
  beq_iff_eq

theorem any_head_bytes : (x.bytes ++ tail).head?.any Tag.isContext = x.tag.isContext := rfl

/-- Where `[n]` elements were skipped, a SET carries one tag only. -/
theorem accepts_set_and_stop_iff :
    Container.set.rule.accepts x.tag = true ∧ x.tag.isContext = false ↔ x.tag = 0x31 := by
  constructor
  · rintro ⟨accepted, stop⟩
    rcases (TagRule.accepts_set_iff x.tag).mp accepted with tag | tag
    · exact tag
    · rw [tag] at stop
      exact absurd stop (by decide)
  · intro tag
    rw [tag]
    decide

/-- Where `[n]` elements were skipped, a SEQUENCE carries one tag only. -/
theorem accepts_sequence_and_stop_iff :
    Container.sequence.rule.accepts x.tag = true ∧ x.tag.isContext = false ↔ x.tag = 0x30 := by
  constructor
  · rintro ⟨accepted, stop⟩
    rcases (TagRule.accepts_sequence_iff x.tag).mp accepted with tag | tag
    · exact tag
    · rw [tag] at stop
      exact absurd stop (by decide)
  · intro tag
    rw [tag]
    decide

end Tags

/-! ### The shell -/

variable {c d : Cursor} {w : Window} {origin : ByteArray} {start : Nat} {bytes : List UInt8}

theorem contentInfo?_eq_some_iff :
    contentInfo? c = some (w, d) ↔
      ∃ fields content explicit, c.enter? .sequence = some fields ∧
        fields.content? .objectIdentifier = some w ∧ w.toList = contentTypeId.data.toList ∧
        fields.next? = some content ∧ content.enter? .context = some explicit ∧
        explicit.tagContext = some 0 ∧ explicit.enter? .sequence = some d := by
  simp only [contentInfo?, Option.bind_eq_bind, Option.bind_eq_some_iff]
  constructor
  · rintro ⟨fields, entered, w', read, rest⟩
    split at rest
    · cases rest
    · next same =>
      simp only [Option.bind_eq_some_iff] at rest
      obtain ⟨content, moved, explicit, entered', rest⟩ := rest
      split at rest
      · cases rest
      · next context =>
        obtain ⟨d', entered'', found⟩ := Option.bind_eq_some_iff.mp rest
        cases found
        have shown : w.toList = (Window.ofBytes contentTypeId).toList := by simpa using same
        rw [Window.toList_ofBytes] at shown
        exact ⟨fields, content, explicit, entered, read, shown, moved, entered',
          Decidable.not_not.mp context, entered''⟩
  · rintro ⟨fields, content, explicit, entered, read, same, moved, entered', context, entered''⟩
    have shown : w.sameBytes (.ofBytes contentTypeId) = true := by simpa using same
    refine ⟨fields, entered, w, read, ?_⟩
    simp [shown, moved, entered', context, entered'']

theorem shell_of_contentInfo? (h : c.On origin start bytes) (found : contentInfo? c = some (w, d)) :
    ∃ s : Shell, s.contentInfo.bytes <+: bytes ∧
      w.Shows origin (start + s.typeStart) s.contentType.content ∧
      d.On origin (start + s.fieldsStart) s.signedData.content := by
  obtain ⟨fields, content, explicit, entered, read, same, moved, entered', context, entered''⟩ :=
    contentInfo?_eq_some_iff.mp found
  obtain ⟨contentInfo, junk, rfl, tag, onFields, -⟩ := (Cursor.enter?_eq_some_iff h).mp entered
  obtain ⟨contentType, after, inside, tag', shown⟩ :=
    (Cursor.content?_eq_some_iff onFields).mp read
  obtain ⟨contentType', after', inside', onContent, -⟩ := (Cursor.next?_eq_some_iff onFields).mp moved
  obtain ⟨rfl, rfl⟩ := Encoding.append_inj (inside'.symm.trans inside)
  obtain ⟨explicit', junk', rfl, tag'', onExplicit, context'⟩ :=
    (Cursor.enter?_eq_some_iff onContent).mp entered'
  obtain ⟨signedData, junk'', inside'', tag''', onSignedData, -⟩ :=
    (Cursor.enter?_eq_some_iff onExplicit).mp entered''
  have number : explicit'.tag.contextNumber = 0 := by
    rw [context] at context'
    exact (Option.some.inj context').symm
  refine ⟨⟨contentInfo, contentType', explicit', signedData, accepts_sequence_iff_isSequence.mp tag,
    accepts_objectIdentifier_iff.mp tag', shown.toList.symm.trans same,
    (Tag.contextNumber_eq_zero_iff _ tag'').mp number, accepts_sequence_iff_isSequence.mp tag''',
    ?_, ?_⟩, ?_, ?_, ?_⟩
  · rw [inside, ← List.append_assoc]
    exact List.prefix_append _ _
  · rw [inside'']
    exact List.prefix_append _ _
  · exact List.prefix_append _ _
  · simpa only [Shell.typeStart, Nat.add_assoc] using shown
  · simpa only [Shell.fieldsStart, Nat.add_assoc] using onSignedData

theorem contentInfo?_of_shell (h : c.On origin start bytes) (s : Shell)
    (front : s.contentInfo.bytes <+: bytes) :
    ∃ w d, contentInfo? c = some (w, d) ∧
      w.Shows origin (start + s.typeStart) s.contentType.content ∧
      d.On origin (start + s.fieldsStart) s.signedData.content := by
  obtain ⟨junk, rfl⟩ := front
  obtain ⟨junk', inside⟩ := s.inContentInfo
  obtain ⟨junk'', inside'⟩ := s.inExplicit
  obtain ⟨fields, entered, onFields, -⟩ :=
    Cursor.exists_enter? h (accepts_sequence_iff_isSequence.mpr s.contentInfo_tag)
  rw [← inside, List.append_assoc] at onFields
  obtain ⟨w, read, shown⟩ :=
    Cursor.exists_content? onFields (accepts_objectIdentifier_iff.mpr s.contentType_tag)
  obtain ⟨content, moved, onContent, -⟩ := Cursor.exists_next? onFields
  have tag : Container.context.rule.accepts s.explicit.tag = true := by
    rw [s.explicit_tag]
    decide
  obtain ⟨explicit, entered', onExplicit, context⟩ := Cursor.exists_enter? onContent tag
  rw [← inside'] at onExplicit
  obtain ⟨d, entered'', onSignedData, -⟩ :=
    Cursor.exists_enter? onExplicit (accepts_sequence_iff_isSequence.mpr s.signedData_tag)
  refine ⟨w, d, contentInfo?_eq_some_iff.mpr ⟨fields, content, explicit, entered, read,
    shown.toList.trans s.contentType_id, moved, entered', ?_, entered''⟩, ?_, ?_⟩
  · rw [context, s.explicit_tag]
    rfl
  · simpa only [Shell.typeStart, Nat.add_assoc] using shown
  · simpa only [Shell.fieldsStart, Nat.add_assoc] using onSignedData

/-! ### The body -/

theorem firstSigner?_eq_some_iff {version signerInfo : Cursor} :
    firstSigner? version = some signerInfo ↔
      ∃ digestAlgorithms encapContentInfo certificates signerInfos signers,
        version.next? = some digestAlgorithms ∧ digestAlgorithms.next? = some encapContentInfo ∧
        encapContentInfo.next? = some certificates ∧ certificates.skipContext? = some signerInfos ∧
        signerInfos.enter? .set = some signers ∧ signers.enter? .sequence = some signerInfo := by
  simp only [firstSigner?, Option.bind_eq_bind, Option.bind_eq_some_iff, exists_and_left]

theorem body_of_firstSigner? (h : c.On origin start bytes) (found : firstSigner? c = some d) :
    ∃ b : Body, b.bytes <+: bytes ∧ d.On origin (start + b.fieldsStart) b.signerInfo.content := by
  obtain ⟨c1, c2, c3, c4, signers, moved1, moved2, moved3, skipped, entered, entered'⟩ :=
    firstSigner?_eq_some_iff.mp found
  obtain ⟨version, tail1, rfl, on1, -⟩ := (Cursor.next?_eq_some_iff h).mp moved1
  obtain ⟨digestAlgorithms, tail2, rfl, on2, -⟩ := (Cursor.next?_eq_some_iff on1).mp moved2
  obtain ⟨encapContentInfo, tail3, rfl, on3, -⟩ := (Cursor.next?_eq_some_iff on2).mp moved3
  obtain ⟨optional, tail4, rfl, tags, stop, on4, -⟩ :=
    (Cursor.skipContext?_eq_some_iff on3).mp skipped
  obtain ⟨signerInfos, junk, rfl, tag, onSigners, -⟩ := (Cursor.enter?_eq_some_iff on4).mp entered
  obtain ⟨signerInfo, junk', inside, tag', onSigner, -⟩ :=
    (Cursor.enter?_eq_some_iff onSigners).mp entered'
  rw [any_head_bytes] at stop
  refine ⟨⟨version, digestAlgorithms, encapContentInfo, optional, signerInfos, signerInfo,
    fun x hx => (Tag.isContext_iff x.tag).mp (tags x hx),
    accepts_set_and_stop_iff.mp ⟨tag, stop⟩, accepts_sequence_iff_isSequence.mp tag', ?_⟩, ?_, ?_⟩
  · rw [inside]
    exact List.prefix_append _ _
  · simp only [Body.bytes, List.append_assoc, List.prefix_append_right_inj]
    exact List.prefix_append _ _
  · simpa only [Body.fieldsStart, Nat.add_assoc] using onSigner

theorem firstSigner?_of_body (h : c.On origin start bytes) (b : Body) (front : b.bytes <+: bytes) :
    ∃ d, firstSigner? c = some d ∧ d.On origin (start + b.fieldsStart) b.signerInfo.content := by
  obtain ⟨junk, rfl⟩ := front
  obtain ⟨junk', inside⟩ := b.inSignerInfos
  simp only [Body.bytes, List.append_assoc] at h
  obtain ⟨tag, stop⟩ := accepts_set_and_stop_iff.mpr b.signerInfos_tag
  obtain ⟨c1, moved1, on1, -⟩ := Cursor.exists_next? h
  obtain ⟨c2, moved2, on2, -⟩ := Cursor.exists_next? on1
  obtain ⟨c3, moved3, on3, -⟩ := Cursor.exists_next? on2
  obtain ⟨c4, skipped, on4, -⟩ := Cursor.exists_skipContext? b.optional on3
    (fun x hx => (Tag.isContext_iff x.tag).mpr (b.optional_tags x hx)) stop
  obtain ⟨signers, entered, onSigners, -⟩ := Cursor.exists_enter? on4 tag
  rw [← inside] at onSigners
  obtain ⟨d, entered', onSigner, -⟩ :=
    Cursor.exists_enter? onSigners (accepts_sequence_iff_isSequence.mpr b.signerInfo_tag)
  refine ⟨d, firstSigner?_eq_some_iff.mpr
    ⟨c1, c2, c3, c4, signers, moved1, moved2, moved3, skipped, entered, entered'⟩, ?_⟩
  simpa only [Body.fieldsStart, Nat.add_assoc] using onSigner

/-! ### The signer -/

/-- The algorithm is the identifier at the front of the SEQUENCE in front. -/
theorem algorithm?_eq_some_iff (h : c.On origin start bytes) :
    algorithm? c = some w ↔
      ∃ x y tail, bytes = Encoding.bytes x ++ tail ∧ Container.sequence.rule.accepts x.tag ∧
        IsObjectIdentifier y ∧ y.bytes <+: x.content ∧
        w.Shows origin (start + x.headerLength + y.headerLength) y.content := by
  simp only [algorithm?, Option.bind_eq_bind, Option.bind_eq_some_iff]
  constructor
  · rintro ⟨fields, entered, read⟩
    obtain ⟨x, tail, rfl, tag, onFields, -⟩ := (Cursor.enter?_eq_some_iff h).mp entered
    obtain ⟨y, junk, inside, tag', shown⟩ := (Cursor.content?_eq_some_iff onFields).mp read
    exact ⟨x, y, tail, rfl, tag, accepts_objectIdentifier_iff.mp tag',
      inside ▸ List.prefix_append _ _, shown⟩
  · rintro ⟨x, y, tail, rfl, tag, tag', ⟨junk, inside⟩, shown⟩
    obtain ⟨fields, entered, onFields, -⟩ := Cursor.exists_enter? h tag
    refine ⟨fields, entered, (Cursor.content?_eq_some_iff onFields).mpr ?_⟩
    exact ⟨y, junk, inside.symm, accepts_objectIdentifier_iff.mpr tag', shown⟩

theorem exists_algorithm? {x y : Encoding} {tail : List UInt8}
    (h : c.On origin start (x.bytes ++ tail)) (tag : Container.sequence.rule.accepts x.tag = true)
    (tag' : IsObjectIdentifier y) (inside : y.bytes <+: x.content) :
    ∃ w, algorithm? c = some w ∧
      w.Shows origin (start + x.headerLength + y.headerLength) y.content := by
  obtain ⟨fields, entered, onFields, -⟩ := Cursor.exists_enter? h tag
  obtain ⟨junk, inside⟩ := inside
  rw [← inside] at onFields
  obtain ⟨w, read, shown⟩ :=
    Cursor.exists_content? onFields (accepts_objectIdentifier_iff.mpr tag')
  exact ⟨w, Option.bind_eq_some_iff.mpr ⟨fields, entered, read⟩, shown⟩

theorem signature?_eq_some_iff {version : Cursor} {digestAlgorithm signatureAlgorithm value : Window} :
    signature? version = some (digestAlgorithm, signatureAlgorithm, value) ↔
      ∃ sid digest signedAttrs signer signature, version.next? = some sid ∧ sid.next? = some digest ∧
        algorithm? digest = some digestAlgorithm ∧ digest.next? = some signedAttrs ∧
        signedAttrs.skipContext? = some signer ∧ algorithm? signer = some signatureAlgorithm ∧
        signer.next? = some signature ∧ signature.content? .octetString = some value := by
  simp only [signature?, Option.bind_eq_bind, Option.bind_eq_some_iff]
  constructor
  · rintro ⟨sid, moved, digest, moved', d, read, signedAttrs, moved'', signer, skipped, a, read',
      signature, moved''', v, read'', same⟩
    cases same
    exact ⟨sid, digest, signedAttrs, signer, signature, moved, moved', read, moved'', skipped, read',
      moved''', read''⟩
  · rintro ⟨sid, digest, signedAttrs, signer, signature, moved, moved', read, moved'', skipped, read',
      moved''', read''⟩
    exact ⟨sid, moved, digest, moved', _, read, signedAttrs, moved'', signer, skipped, _, read',
      signature, moved''', _, read'', rfl⟩

variable {digest algorithm value : Window}

theorem signer_of_signature? (h : c.On origin start bytes)
    (found : signature? c = some (digest, algorithm, value)) :
    ∃ s : Signer, s.bytes <+: bytes ∧
      digest.Shows origin (start + s.digestStart) s.digestId.content ∧
      algorithm.Shows origin (start + s.algorithmStart) s.signatureId.content ∧
      value.Shows origin (start + s.signatureStart) s.signature.content := by
  obtain ⟨c1, c2, c3, c4, c5, moved1, moved2, read, moved3, skipped, read', moved4, read''⟩ :=
    signature?_eq_some_iff.mp found
  obtain ⟨version, tail1, rfl, on1, -⟩ := (Cursor.next?_eq_some_iff h).mp moved1
  obtain ⟨sid, tail2, rfl, on2, -⟩ := (Cursor.next?_eq_some_iff on1).mp moved2
  obtain ⟨digestAlgorithm, digestId, tail3, rfl, tag, tag', inside, shown⟩ :=
    (algorithm?_eq_some_iff on2).mp read
  obtain ⟨digestAlgorithm', tail3', same, on3, -⟩ := (Cursor.next?_eq_some_iff on2).mp moved3
  obtain ⟨rfl, rfl⟩ := Encoding.append_inj same
  obtain ⟨optional, tail4, rfl, tags, stop, on4, -⟩ :=
    (Cursor.skipContext?_eq_some_iff on3).mp skipped
  obtain ⟨signatureAlgorithm, signatureId, tail5, rfl, tag'', tag''', inside', shown'⟩ :=
    (algorithm?_eq_some_iff on4).mp read'
  obtain ⟨signatureAlgorithm', tail5', same', on5, -⟩ := (Cursor.next?_eq_some_iff on4).mp moved4
  obtain ⟨rfl, rfl⟩ := Encoding.append_inj same'
  obtain ⟨signature, junk, rfl, tag4, shown''⟩ := (Cursor.content?_eq_some_iff on5).mp read''
  rw [any_head_bytes] at stop
  refine ⟨⟨version, sid, digestAlgorithm, digestId, optional, signatureAlgorithm, signatureId,
    signature, accepts_sequence_iff_isSequence.mp tag, tag', inside,
    fun x hx => (Tag.isContext_iff x.tag).mp (tags x hx),
    accepts_sequence_and_stop_iff.mp ⟨tag'', stop⟩, tag''', inside',
    accepts_octetString_iff.mp tag4⟩, ?_, ?_, ?_, ?_⟩
  · simp only [Signer.bytes, List.append_assoc, List.prefix_append_right_inj]
    exact List.prefix_append _ _
  · simpa only [Signer.digestStart, Signer.digestAt, Nat.add_assoc] using shown
  · simpa only [Signer.algorithmStart, Signer.algorithmAt, Signer.digestAt, Nat.add_assoc]
      using shown'
  · simpa only [Signer.signatureStart, Signer.algorithmAt, Signer.digestAt, Nat.add_assoc]
      using shown''

theorem signature?_of_signer (h : c.On origin start bytes) (s : Signer) (front : s.bytes <+: bytes) :
    ∃ digest algorithm value, signature? c = some (digest, algorithm, value) ∧
      digest.Shows origin (start + s.digestStart) s.digestId.content ∧
      algorithm.Shows origin (start + s.algorithmStart) s.signatureId.content ∧
      value.Shows origin (start + s.signatureStart) s.signature.content := by
  obtain ⟨junk, rfl⟩ := front
  simp only [Signer.bytes, List.append_assoc] at h
  obtain ⟨tag, stop⟩ := accepts_sequence_and_stop_iff.mpr s.signatureAlgorithm_tag
  obtain ⟨c1, moved1, on1, -⟩ := Cursor.exists_next? h
  obtain ⟨c2, moved2, on2, -⟩ := Cursor.exists_next? on1
  obtain ⟨digest, read, shown⟩ := exists_algorithm? on2
    (accepts_sequence_iff_isSequence.mpr s.digestAlgorithm_tag) s.digestId_tag s.inDigestAlgorithm
  obtain ⟨c3, moved3, on3, -⟩ := Cursor.exists_next? on2
  obtain ⟨c4, skipped, on4, -⟩ := Cursor.exists_skipContext? s.optional on3
    (fun x hx => (Tag.isContext_iff x.tag).mpr (s.optional_tags x hx)) stop
  obtain ⟨algorithm, read', shown'⟩ :=
    exists_algorithm? on4 tag s.signatureId_tag s.inSignatureAlgorithm
  obtain ⟨c5, moved4, on5, -⟩ := Cursor.exists_next? on4
  obtain ⟨value, read'', shown''⟩ :=
    Cursor.exists_content? on5 (accepts_octetString_iff.mpr s.signature_tag)
  refine ⟨digest, algorithm, value, signature?_eq_some_iff.mpr
    ⟨c1, c2, c3, c4, c5, moved1, moved2, read, moved3, skipped, read', moved4, read''⟩, ?_, ?_, ?_⟩
  · simpa only [Signer.digestStart, Signer.digestAt, Nat.add_assoc] using shown
  · simpa only [Signer.algorithmStart, Signer.algorithmAt, Signer.digestAt, Nat.add_assoc]
      using shown'
  · simpa only [Signer.signatureStart, Signer.algorithmAt, Signer.digestAt, Nat.add_assoc]
      using shown''

/-! ### Signed data -/

theorem read_eq_some_iff_parts {der : ByteArray} {found : SignedData} :
    read der = some found ↔
      ∃ fields signerInfo, contentInfo? (.ofBytes der) = some (found.contentType, fields) ∧
        firstSigner? fields = some signerInfo ∧
        signature? signerInfo =
          some (found.digestAlgorithm, found.signatureAlgorithm, found.signature) := by
  simp only [read, Option.bind_eq_bind, Option.bind_eq_some_iff]
  constructor
  · rintro ⟨⟨contentType, fields⟩, first, signerInfo, second, ⟨digest, algorithm, value⟩, third, same⟩
    cases same
    exact ⟨fields, signerInfo, first, second, third⟩
  · rintro ⟨fields, signerInfo, first, second, third⟩
    exact ⟨_, first, signerInfo, second, _, third, rfl⟩

/-- What is read has a layout. -/
theorem layout_of_read {der : ByteArray} {found : SignedData} (h : read der = some found) :
    ∃ l : Layout der.data.toList, l.Locates der found := by
  obtain ⟨fields, signerInfo, first, second, third⟩ := read_eq_some_iff_parts.mp h
  obtain ⟨shell, inDer, contentType, onFields⟩ :=
    shell_of_contentInfo? (Cursor.on_ofBytes der) first
  obtain ⟨body, inSignedData, onSigner⟩ := body_of_firstSigner? onFields second
  obtain ⟨signer, inSignerInfo, digest, algorithm, value⟩ := signer_of_signature? onSigner third
  rw [Nat.zero_add] at contentType digest algorithm value
  exact ⟨⟨shell, body, signer, inDer, inSignedData, inSignerInfo⟩, contentType, digest, algorithm,
    value⟩

/-- What has a layout is read. -/
theorem read_of_layout {der : ByteArray} (l : Layout der.data.toList) :
    ∃ found, read der = some found ∧ l.Locates der found := by
  obtain ⟨contentType, fields, first, shown, onFields⟩ :=
    contentInfo?_of_shell (Cursor.on_ofBytes der) l.shell l.inDer
  obtain ⟨signerInfo, second, onSigner⟩ := firstSigner?_of_body onFields l.body l.inSignedData
  obtain ⟨digest, algorithm, value, third, shown', shown'', shown'''⟩ :=
    signature?_of_signer onSigner l.signer l.inSignerInfo
  rw [Nat.zero_add] at shown shown' shown'' shown'''
  exact ⟨⟨contentType, digest, algorithm, value⟩,
    read_eq_some_iff_parts.mpr ⟨fields, signerInfo, first, second, third⟩,
    shown, shown', shown'', shown'''⟩

theorem Layout.Locates.unique {der : List UInt8} {l : Layout der} {found found' : SignedData}
    (h : l.Locates origin found) (h' : l.Locates origin found') : found = found' := by
  obtain ⟨contentType, digest, algorithm, signature⟩ := found
  obtain ⟨contentType', digest', algorithm', signature'⟩ := found'
  simp only [SignedData.mk.injEq]
  exact ⟨h.contentType.unique h'.contentType, h.digestAlgorithm.unique h'.digestAlgorithm,
    h.signatureAlgorithm.unique h'.signatureAlgorithm, h.signature.unique h'.signature⟩

/-- Signed data is read just where a layout of it stands in front, and the ranges are the layout's. -/
theorem read_iff_layout (der : ByteArray) :
    ((read der).isSome = true ↔ Nonempty (Layout der.data.toList)) ∧
    ∀ found, read der = some found ↔ ∃ l : Layout der.data.toList, l.Locates der found := by
  refine ⟨⟨?_, ?_⟩, fun found => ⟨layout_of_read, ?_⟩⟩
  · intro isRead
    obtain ⟨found, h⟩ := Option.isSome_iff_exists.mp isRead
    obtain ⟨l, -⟩ := layout_of_read h
    exact ⟨l⟩
  · rintro ⟨l⟩
    obtain ⟨found, h, -⟩ := read_of_layout l
    rw [h]
    rfl
  · rintro ⟨l, located⟩
    obtain ⟨found', h, located'⟩ := read_of_layout l
    rw [h, located'.unique located]

/-- The shortest signed data with a signature of one byte, and where that lies. -/
example :
    ((read ⟨#[0x30, 0x28, 0x06, 0x09, 0x2a, 0x86, 0x48, 0x86, 0xf7, 0x0d, 0x01, 0x07, 0x02, 0xa0, 0x1b,
      0x30, 0x19, 0, 0, 0, 0, 0, 0, 0x31, 0x11, 0x30, 0x0f, 0, 0, 0, 0, 0x30, 0x02, 0x06, 0x00,
      0x30, 0x02, 0x06, 0x00, 0x04, 0x01, 0xaa]⟩).map fun found =>
        (found.signature.start, found.signature.toList)) = some (41, [0xaa]) := by
  decide +kernel

end Ber.SignedData
