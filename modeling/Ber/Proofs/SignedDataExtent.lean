import Ber.Proofs.SignedDataLayout

/-!
# The extent of signed data

Signed data is its first element. Where an input is accepted, none of its beginnings is that is shorter than
the first element, and whatever follows the first element, also nothing, makes no difference to the ranges
that are found.

Both halves come from the layout. Its outermost element stands at the front of the input, all others lie in
it, and their places are counted from the front: so a layout of one input is a layout of every other that
begins with the same element, and points to the same places there (`Layout.Locates.sameRanges`). And an
element is not cut short by another one, so a shorter beginning has no layout at all
(`Layout.length_contentInfo_le`).
-/

namespace Ber

/-- Ranges of two arrays that look the same to a caller. -/
structure Window.SameRange (v w : Window) : Prop where
  offset : v.start = w.start
  length : v.size = w.size
  bytes : v.toList = w.toList

theorem Window.Shows.sameRange {v w : Window} {origin origin' : ByteArray} {start : Nat} {bytes : List UInt8}
    (hv : v.Shows origin start bytes) (hw : w.Shows origin' start bytes) : v.SameRange w :=
  ⟨hv.start.trans hw.start.symm, hv.size.trans hw.size.symm, hv.toList.trans hw.toList.symm⟩

namespace SignedData

/-- The four ranges look the same to a caller. -/
structure SameRanges (a b : SignedData) : Prop where
  contentType : a.contentType.SameRange b.contentType
  digestAlgorithm : a.digestAlgorithm.SameRange b.digestAlgorithm
  signatureAlgorithm : a.signatureAlgorithm.SameRange b.signatureAlgorithm
  signature : a.signature.SameRange b.signature

/-! ### Layouts of inputs that begin alike -/

namespace Layout

variable {der der' : List UInt8}

/-- The same elements, at the front of other bytes. -/
def inFrontOf (l : Layout der) (front : l.shell.contentInfo.bytes <+: der') : Layout der' :=
  { l with inDer := front }

/-- The places do not depend on what follows the outermost element. -/
theorem Locates.sameRanges {l : Layout der} {front : l.shell.contentInfo.bytes <+: der'}
    {origin origin' : ByteArray} {found found' : SignedData} (h : l.Locates origin found)
    (h' : (l.inFrontOf front).Locates origin' found') : found'.SameRanges found :=
  ⟨h'.contentType.sameRange h.contentType, h'.digestAlgorithm.sameRange h.digestAlgorithm,
    h'.signatureAlgorithm.sameRange h.signatureAlgorithm, h'.signature.sameRange h.signature⟩

/-- A beginning of the input that has a layout holds the whole of the first element. -/
theorem length_contentInfo_le {k : Nat} (l : Layout der) (l' : Layout (der.take k)) :
    l.shell.contentInfo.bytes.length ≤ k := by
  have same : l'.shell.contentInfo = l.shell.contentInfo :=
    Encoding.prefixCode_bytes.eq_of_isPrefix (l'.inDer.trans (List.take_prefix k der)) l.inDer
  have short := l'.inDer.length_le
  rw [same] at short
  exact Nat.le_trans short (List.length_take_le k der)

/-- The header of the first element is that of the ContentInfo. -/
theorem header_ofBytes {bytes : ByteArray} (l : Layout bytes.data.toList) :
    (Cursor.ofBytes bytes).header = .ok l.shell.contentInfo.header := by
  obtain ⟨tail, split⟩ := l.inDer
  exact (Cursor.header_eq_ok_iff (Cursor.on_ofBytes bytes)).mpr ⟨_, tail, split.symm, rfl⟩

end Layout

/-! ### Signed data and its first element -/

/-- The first `size` bytes of the input decide what is found in it. -/
structure DecidedBy (der : ByteArray) (found : SignedData) (size : Nat) : Prop where
  fits : size ≤ der.size
  cut : ∀ k < size, read (der.extract 0 k) = none
  followed : ∀ tail : ByteArray, ∃ again,
    read (der.extract 0 size ++ tail) = some again ∧ again.SameRanges found

theorem decidedBy_of_locates {der : ByteArray} {found : SignedData} (l : Layout der.data.toList)
    (located : l.Locates der found) : DecidedBy der found l.shell.contentInfo.bytes.length := by
  refine ⟨l.inDer.length_le, ?_, ?_⟩
  · intro k short
    cases again : read (der.extract 0 k) with
    | none => rfl
    | some other =>
      obtain ⟨l', -⟩ := layout_of_read again
      rw [toList_extract_zero] at l'
      exact absurd (l.length_contentInfo_le l') (Nat.not_le.mpr short)
  · intro tail
    have front : l.shell.contentInfo.bytes <+:
        (der.extract 0 l.shell.contentInfo.bytes.length ++ tail).data.toList := by
      rw [ByteArray.toList_data_append, toList_extract_zero, ← List.prefix_iff_eq_take.mp l.inDer]
      exact List.prefix_append _ _
    obtain ⟨again, read, located'⟩ := read_of_layout (l.inFrontOf front)
    exact ⟨again, read, located.sameRanges located'⟩

/-- Signed data is determined by exactly its first element. -/
theorem determined_by_first_element (der : ByteArray) (found : SignedData) (h : read der = some found) :
    ∃ first : Header, (Cursor.ofBytes der).header = .ok first ∧
      DecidedBy der found (first.headerLength + first.length) := by
  obtain ⟨l, located⟩ := layout_of_read h
  refine ⟨l.shell.contentInfo.header, l.header_ofBytes, ?_⟩
  have size : l.shell.contentInfo.header.headerLength + l.shell.contentInfo.header.length =
      l.shell.contentInfo.bytes.length := l.shell.contentInfo.length_bytes.symm
  rw [size]
  exact decidedBy_of_locates l located

/-- The shortest signed data with a signature of one byte, and an element behind it. -/
def signedDataAndMore : ByteArray :=
  ⟨#[0x30, 0x28, 0x06, 0x09, 0x2a, 0x86, 0x48, 0x86, 0xf7, 0x0d, 0x01, 0x07, 0x02, 0xa0, 0x1b,
    0x30, 0x19, 0, 0, 0, 0, 0, 0, 0x31, 0x11, 0x30, 0x0f, 0, 0, 0, 0, 0x30, 0x02, 0x06, 0x00,
    0x30, 0x02, 0x06, 0x00, 0x04, 0x01, 0xaa, 0x30, 0x00]⟩

/-- One byte less than the first element is nothing, and a tag behind it instead changes nothing. -/
theorem determined_before_more :
    read (signedDataAndMore.extract 0 41) = none ∧
      ∃ again, read (signedDataAndMore.extract 0 42 ++ ⟨#[0x30]⟩) = some again ∧
        again.signature.start = 41 ∧ again.signature.toList = [0xaa] := by
  obtain ⟨first, found, decided⟩ := determined_by_first_element signedDataAndMore
    ⟨⟨signedDataAndMore, 4, 9, by decide⟩, ⟨signedDataAndMore, 35, 0, by decide⟩,
      ⟨signedDataAndMore, 39, 0, by decide⟩, ⟨signedDataAndMore, 41, 1, by decide⟩⟩ (by decide +kernel)
  have header : (Cursor.ofBytes signedDataAndMore).header = .ok ⟨0x30, 2, 40⟩ :=
    toOption_eq_some_iff.mp (by decide +kernel)
  obtain rfl := Except.ok.inj (header.symm.trans found)
  obtain ⟨again, read, same⟩ := decided.followed ⟨#[0x30]⟩
  exact ⟨decided.cut 41 (by decide), again, read, same.signature.offset,
    same.signature.bytes.trans (by decide)⟩

end SignedData
end Ber
