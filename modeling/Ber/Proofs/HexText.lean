import Ber.Hex

/-!
# Hex text

Hex text that was written is read back: every byte gives two digits, neither of them blank, and two digits
give the byte again (`decode_encode`).
-/

namespace Ber.Hex

/-! ### Digits -/

theorem digitValue?_digitChar {n : Nat} (h : n < 16) : digitValue? (Nat.digitChar n) = some n := by
  have all : ∀ n : Fin 16, digitValue? (Nat.digitChar n) = some n.val := by decide
  exact all ⟨n, h⟩

theorem isBlank_digitChar {n : Nat} (h : n < 16) : isBlank (Nat.digitChar n) = false := by
  have all : ∀ n : Fin 16, isBlank (Nat.digitChar n) = false := by decide
  exact all ⟨n, h⟩

theorem high_lt (byte : UInt8) : byte.toNat / 16 < 16 := by
  have := byte.toNat_lt
  omega

theorem low_lt (byte : UInt8) : byte.toNat % 16 < 16 := Nat.mod_lt _ (by decide)

theorem isBlank_of_mem_encodeList {bytes : List UInt8} {c : Char} (h : c ∈ encodeList bytes) :
    isBlank c = false := by
  obtain ⟨byte, -, digit⟩ := List.mem_flatMap.mp h
  rcases List.mem_cons.mp digit with rfl | digit
  · exact isBlank_digitChar (high_lt byte)
  · rw [List.mem_singleton.mp digit]
    exact isBlank_digitChar (low_lt byte)

/-! ### Reading what was written -/

theorem decodeList_digits (byte : UInt8) (tail : List Char) :
    decodeList (digits byte ++ tail) = (decodeList tail).map (byte :: ·) := by
  have halves : UInt8.ofNat (16 * (byte.toNat / 16) + byte.toNat % 16) = byte := by
    rw [Nat.div_add_mod, UInt8.ofNat_toNat]
  show decodeList (_ :: _ :: tail) = _
  rw [decodeList, digitValue?_digitChar (high_lt byte), digitValue?_digitChar (low_lt byte)]
  cases decodeList tail with
  | none => rfl
  | some bytes => exact congrArg (fun first => some (first :: bytes)) halves

theorem decodeList_encodeList (bytes : List UInt8) : decodeList (encodeList bytes) = some bytes := by
  induction bytes with
  | nil => rfl
  | cons byte rest ih =>
    show decodeList (digits byte ++ encodeList rest) = _
    rw [decodeList_digits, ih]
    rfl

theorem decode_encode (bytes : ByteArray) : decode (encode bytes) = .ok bytes := by
  have unblank : (encodeList bytes.data.toList).filter (fun c => !isBlank c) =
      encodeList bytes.data.toList := by
    rw [List.filter_eq_self]
    intro c written
    rw [isBlank_of_mem_encodeList written]
    rfl
  have same : bytes.data.toList.toByteArray = bytes := by
    apply ByteArray.ext
    rw [List.data_toByteArray, Array.toArray_toList]
  rw [decode, encode, String.toList_ofList, unblank, decodeList_encodeList]
  exact congrArg Except.ok same

/-- No two byte arrays are written alike. -/
theorem encode_inj {a b : ByteArray} : encode a = encode b ↔ a = b := by
  constructor
  · intro same
    have read := decode_encode a
    rw [same, decode_encode] at read
    exact (Except.ok.inj read).symm
  · rintro rfl
    rfl

end Ber.Hex
