import Ber.Program.SignatureReport
import Ber.Proofs.HexText
import Ber.Proofs.SignedDataLayout
import Ber.Proofs.Subidentifiers

/-!
# What is reported of a file

The signature report depends on three readers: of the signed data, of object identifiers and, for whoever
reads the report, of hex text. `Reported` says what is printed for every content of a file. It comes to its
end just where the signed data is found and both object identifiers are in order, and of a report that
stops, what was printed before the fault stays. It does not do to look at the arcs alone: the first two are
in order only if the one number that they are written as is.
-/

namespace Ber.SignatureReport

open ObjectIdentifier (SmallArcs WellFormed)

variable {path : String} {content : ByteArray} {signed : SignedData} {digest algorithm : ObjectIdentifier}
  {fault : ObjectIdentifier.Fault}

/-! ### The four ways a report can go -/

theorem run_of_read_none (path : String) (unsigned : SignedData.read content = none) :
    run path content = .stopped [] (path ++ ": not a SignedData structure") := by
  rw [run, unsigned]

theorem run_of_digest_fault (path : String) (found : SignedData.read content = some signed)
    (refused : ObjectIdentifier.decode signed.digestAlgorithm.bytes = .error fault) :
    run path content = .stopped [] ("Error: " ++ fault.message) := by
  simp only [run, found, print, refused]
  rfl

theorem run_of_algorithm_fault (path : String) (found : SignedData.read content = some signed)
    (first : ObjectIdentifier.decode signed.digestAlgorithm.bytes = .ok digest)
    (refused : ObjectIdentifier.decode signed.signatureAlgorithm.bytes = .error fault) :
    run path content =
      .stopped ["digestAlgorithm:    " ++ digest.text] ("Error: " ++ fault.message) := by
  simp only [run, found, print, first, refused]
  rfl

theorem run_of_decoded (path : String) (found : SignedData.read content = some signed)
    (first : ObjectIdentifier.decode signed.digestAlgorithm.bytes = .ok digest)
    (second : ObjectIdentifier.decode signed.signatureAlgorithm.bytes = .ok algorithm) :
    run path content = .finished
      ["digestAlgorithm:    " ++ digest.text, "signatureAlgorithm: " ++ algorithm.text,
        "signature (" ++ toString signed.signature.size ++ " bytes at offset "
          ++ toString signed.signature.start ++ "):",
        Hex.encode signed.signature.bytes] := by
  simp only [run, found, print, first, second]
  rfl

/-- A report comes to its end just where both object identifiers are decoded. -/
theorem exitCode_run_eq_zero_iff :
    (run path content).exitCode = 0 ↔ ∃ signed, SignedData.read content = some signed ∧
      (∃ digest, ObjectIdentifier.decode signed.digestAlgorithm.bytes = .ok digest) ∧
      ∃ algorithm, ObjectIdentifier.decode signed.signatureAlgorithm.bytes = .ok algorithm := by
  cases found : SignedData.read content with
  | none =>
    rw [run_of_read_none path found]
    simp [Transcript.stopped]
  | some signed =>
    cases first : ObjectIdentifier.decode signed.digestAlgorithm.bytes with
    | error fault =>
      rw [run_of_digest_fault path found first]
      simp [Transcript.stopped, first]
    | ok digest =>
      cases second : ObjectIdentifier.decode signed.signatureAlgorithm.bytes with
      | error fault =>
        rw [run_of_algorithm_fault path found first second]
        simp [Transcript.stopped, second]
      | ok algorithm =>
        rw [run_of_decoded path found first second]
        simp [Transcript.finished, first, second]

/-! ### The signature in the file -/

/-- The signature that was found lies in the file. -/
theorem bytes_signature (found : SignedData.read content = some signed) :
    signed.signature.bytes =
      content.extract signed.signature.start (signed.signature.start + signed.signature.size) := by
  obtain ⟨l, located⟩ := SignedData.layout_of_read found
  rw [Window.bytes, located.signature.origin]
  rfl

/-! ### Every file -/

/-- What is left behind by the program that was given a file with this name and content. -/
structure Reported (path : String) (content : ByteArray) (t : Transcript) : Prop where
  unsigned : SignedData.read content = none → t = ⟨1, [], [path ++ ": not a SignedData structure"]⟩
  badDigest : ∀ signed fault, SignedData.read content = some signed →
    ObjectIdentifier.decode signed.digestAlgorithm.bytes = .error fault →
    t = ⟨1, [], ["Error: " ++ fault.message]⟩
  badAlgorithm : ∀ signed digest fault, SignedData.read content = some signed →
    ObjectIdentifier.decode signed.digestAlgorithm.bytes = .ok digest →
    ObjectIdentifier.decode signed.signatureAlgorithm.bytes = .error fault →
    t = ⟨1, ["digestAlgorithm:    " ++ digest.text], ["Error: " ++ fault.message]⟩
  /-- The last line reads back as the bytes of the file where the line before it says they are. -/
  complete : ∀ signed digest algorithm, SignedData.read content = some signed →
    ObjectIdentifier.decode signed.digestAlgorithm.bytes = .ok digest →
    ObjectIdentifier.decode signed.signatureAlgorithm.bytes = .ok algorithm →
    ∃ hex, t =
        ⟨0, ["digestAlgorithm:    " ++ digest.text, "signatureAlgorithm: " ++ algorithm.text,
          "signature (" ++ toString signed.signature.size ++ " bytes at offset "
            ++ toString signed.signature.start ++ "):", hex], []⟩ ∧
      Hex.decode hex =
        .ok (content.extract signed.signature.start (signed.signature.start + signed.signature.size))
  succeeds : t.exitCode = 0 ↔ ∃ signed, SignedData.read content = some signed ∧
    WellFormed signed.digestAlgorithm.toList ∧ WellFormed signed.signatureAlgorithm.toList

/-- Every file is reported on as its signed data and the object identifiers in it allow. -/
theorem reported_of_every_file (path : String) (content : ByteArray) :
    Reported path content (run path content) := by
  refine ⟨run_of_read_none path, fun _ _ => run_of_digest_fault path,
    fun _ _ _ => run_of_algorithm_fault path, ?_, ?_⟩
  · intro signed digest algorithm found first second
    refine ⟨_, run_of_decoded path found first second, ?_⟩
    rw [Hex.decode_encode, bytes_signature found]
  · rw [exitCode_run_eq_zero_iff]
    simp only [ObjectIdentifier.exists_decode_iff_wellFormed]
    rfl

/-- Signed data whose digest algorithm is 2.9007199254740912. Written as one number, these two arcs are one
more than `maxExact`. -/
def largeFirstNumber : ByteArray :=
  ⟨#[0x30, 0x30, 0x06, 0x09, 0x2a, 0x86, 0x48, 0x86, 0xf7, 0x0d, 0x01, 0x07, 0x02, 0xa0, 0x23,
    0x30, 0x21, 0, 0, 0, 0, 0, 0, 0x31, 0x19, 0x30, 0x17, 0, 0, 0, 0,
    0x30, 0x0a, 0x06, 0x08, 0x90, 0x80, 0x80, 0x80, 0x80, 0x80, 0x80, 0x00,
    0x30, 0x03, 0x06, 0x01, 0x2a, 0x04, 0x00]⟩

/-- That no arc is above `maxExact` is not enough for a report to come to its end. -/
theorem stopped_despite_small_arcs :
    ¬ ((run "input.p7s" largeFirstNumber).exitCode = 0 ↔
      ∃ signed, SignedData.read largeFirstNumber = some signed ∧
        SmallArcs signed.digestAlgorithm.toList ∧ SmallArcs signed.signatureAlgorithm.toList) := by
  have found : SignedData.read largeFirstNumber = some
      ⟨⟨largeFirstNumber, 4, 9, by decide⟩, ⟨largeFirstNumber, 35, 8, by decide⟩,
        ⟨largeFirstNumber, 47, 1, by decide⟩, ⟨largeFirstNumber, 50, 0, by decide⟩⟩ := by decide +kernel
  have tooLarge : ObjectIdentifier.decode (⟨largeFirstNumber, 35, 8, by decide⟩ : Window).bytes =
      .error (.arcTooLarge 7) := rfl
  have stopped : (run "input.p7s" largeFirstNumber).exitCode = 1 := by
    rw [run_of_digest_fault "input.p7s" found tooLarge]
    rfl
  have digest : SmallArcs [0x90, 0x80, 0x80, 0x80, 0x80, 0x80, 0x80, 0x00] :=
    ⟨by decide, [⟨[0x90, 0x80, 0x80, 0x80, 0x80, 0x80, 0x80], 0x00, by simp, by decide⟩], rfl,
      by decide +kernel⟩
  have signature : SmallArcs [0x2a] :=
    ⟨by decide, [⟨[], 0x2a, by simp, by decide⟩], rfl, by decide +kernel⟩
  rw [stopped]
  intro h
  exact Nat.one_ne_zero (h.mpr ⟨_, found, digest, signature⟩)

end Ber.SignatureReport
