import Ber.Proofs.Reading

/-!
# What is answered where a header is asked for

The bytes that are left to a cursor decide what it answers when it is asked for a header: the header of an
encoding that stands in front, or a failure whose code and place tell what is wrong with them.
`HeaderAnswers` is the table of these answers. The checks come in a fixed order: the tag, the first octet of
the length field, how many octets it announces, whether they are there, whether the length that they write
is too large, and at last whether the content is there. So of two faults the earlier one is reported, even
where the bytes that are there already show the later one.

The table is read off the list of the bytes, one lemma for each fault (`Header.scan_of_…`), and the answer
of a cursor is the answer of its list (`Cursor.header_eq_scan`).
-/

namespace Ber

/-! ### The table -/

namespace Cursor

/-- Asking for a header fails with this code, and the failure is reported at this place. -/
def RefusesHeader (c : Cursor) (code : FailureCode) (place : Nat) : Prop :=
  ∃ failure : Failure, c.header = .error failure ∧ failure.code = code ∧ failure.offset = place

/-- How a header of `size` bytes that declares `length` bytes of content is answered, where `left` bytes are
left for both. -/
structure JudgesContent (c : Cursor) (left : Nat) (tag : Tag) (size length : Nat) : Prop where
  size_le : size ≤ left
  accepts : size + length ≤ left → c.header = .ok ⟨tag, size, length⟩
  refuses : left < size + length → ∃ failure : Failure, c.header = .error failure ∧
    failure.code = .lengthOutOfBounds ∧ failure.offset = c.position ∧
    failure.detail = "declared length " ++ toString length ++ " exceeds " ++ toString (left - size)
      ++ " remaining bytes"

/-- How a long form that announces `count` octets is answered, where `rest` is left behind its first
octet. -/
structure ReadsLongForm (c : Cursor) (tag : Tag) (count : Nat) (rest : List UInt8) : Prop where
  tooMany : 8 ≤ count → c.RefusesHeader .malformedLength (c.position + 1)
  cutOff : count ≤ 7 → rest.length < count → c.RefusesHeader .truncatedInput (c.position + 1)
  tooLarge : count ≤ 7 → count ≤ rest.length → maxExact < ofBigEndian (rest.take count) →
    c.RefusesHeader .malformedLength (c.position + 1)
  bounded : count ≤ 7 → count ≤ rest.length → ofBigEndian (rest.take count) ≤ maxExact →
    c.JudgesContent (2 + rest.length) tag (2 + count) (ofBigEndian (rest.take count))

/-- What is answered where a header is asked for and `bytes` are left. -/
structure HeaderAnswers (c : Cursor) (bytes : List UInt8) : Prop where
  length_bytes : bytes.length = c.remaining
  /-- A header is found just where an encoding stands in front. -/
  found : ∀ h, c.header = .ok h ↔
    c.usable = true ∧ ∃ x : Encoding, x.bytes <+: bytes ∧ h = x.header
  unusable : c.usable = false → c.RefusesHeader .unusableCursor c.position
  noTag : c.usable = true → bytes = [] → c.RefusesHeader .truncatedInput c.position
  noLength : c.usable = true → ∀ tag, bytes = [tag] → c.RefusesHeader .truncatedInput (c.position + 1)
  short : c.usable = true → ∀ tag first rest, bytes = tag :: first :: rest → first < 0x80 →
    c.JudgesContent (2 + rest.length) tag 2 first.toNat
  long : c.usable = true → ∀ tag first rest, bytes = tag :: first :: rest → 0x80 ≤ first →
    c.ReadsLongForm tag (first &&& 0x7f).toNat rest

end Cursor

/-! ### Headers in a list of bytes -/

/-- The number of octets that the first one of a long form announces is in its low seven bits. -/
theorem LengthForm.toNat_sub_longForm_eq_and (first : UInt8) :
    0x80 ≤ first → (first - LengthField.longForm).toNat = (first &&& 0x7f).toNat := by
  revert first
  exact forall_byte (by decide +kernel)

namespace Header

variable {tag first : UInt8} {rest : List UInt8}

/-- A length field that cannot be read is reported behind the tag. -/
theorem scan_of_defect {defect : Defect} (h : LengthField.scan rest.length rest = .error defect) :
    scan .any (tag :: rest) = .error (defect, 1) := by
  simp [scan, TagRule.accepts, h]

/-- Behind a length field that was read, it is a matter of how much is left. -/
theorem scan_of_field {field : LengthField} (h : LengthField.scan rest.length rest = .ok field) :
    scan .any (tag :: rest) =
      if rest.length - field.octets < field.length then
        .error (.contentTooLong field.length (rest.length - field.octets), 0)
      else .ok ⟨tag, 1 + field.octets, field.length⟩ := by
  simp [scan, TagRule.accepts, h]

end Header

namespace LengthField

variable {first : UInt8} {rest : List UInt8} {readable : Rat}

theorem scan_short (h : first < 0x80) : scan readable (first :: rest) = .ok ⟨first.toNat, 1⟩ :=
  if_pos h

/-- The long form, with the announced number as it stands in the first octet. -/
theorem scan_long (h : 0x80 ≤ first) :
    scan readable (first :: rest) =
      let count := (first &&& 0x7f).toNat
      if lengthWordBytes ≤ count then .error (.tooManyOctets count)
      else if rest.length < count then .error (.missingOctets count (.finite (readable - 1)))
      else if maxExact < ofBigEndian (rest.take count) then .error .lengthTooLarge
      else .ok ⟨ofBigEndian (rest.take count), 1 + count⟩ := by
  have long : ¬ first < longForm := UInt8.not_lt.mpr h
  rw [scan, if_neg long, LengthForm.toNat_sub_longForm_eq_and first h]

end LengthField

/-- The element at the front of a window has the header that its bytes begin with. -/
theorem Header.header_elementIn {rule : TagRule} {w : Window} {h : Header}
    (found : scan rule w.toList = .ok h) : (h.elementIn w).header = h := by
  obtain ⟨x, -, ⟨tail, front⟩, rfl⟩ := scan_eq_ok_iff.mp found
  exact (Element.spells_elementIn ⟨rfl, rfl, front.symm⟩).header

/-! ### Headers at a cursor -/

namespace Cursor

variable {c : Cursor} {tag first : UInt8} {rest : List UInt8}

theorem header_eq_scan (usable : c.usable = true) :
    c.header =
      match Header.scan .any c.window.toList with
      | .ok h => .ok h
      | .error (defect, ahead) => .error ⟨defect, (c.position + ahead : Nat)⟩ := by
  rw [header, element, if_pos usable, Element.read_eq_scan]
  cases found : Header.scan .any c.window.toList with
  | ok h => exact congrArg Except.ok (Header.header_elementIn found)
  | error failed => rfl

/-- A defect of the list is reported by the cursor, at its place. -/
theorem refusesHeader_of_scan {defect : Defect} {ahead : Nat} (usable : c.usable = true)
    (h : Header.scan .any c.window.toList = .error (defect, ahead)) :
    c.RefusesHeader (Failure.code ⟨defect, (c.position + ahead : Nat)⟩) (c.position + ahead) := by
  refine ⟨⟨defect, (c.position + ahead : Nat)⟩, ?_, rfl, rfl⟩
  rw [header_eq_scan usable, h]

theorem judgesContent_of_field {field : LengthField} (usable : c.usable = true)
    (shown : c.window.toList = tag :: first :: rest) (room : field.octets ≤ 1 + rest.length)
    (h : LengthField.scan (first :: rest).length (first :: rest) = .ok field) :
    c.JudgesContent (2 + rest.length) tag (1 + field.octets) field.length := by
  have scanned : Header.scan .any (tag :: first :: rest) = _ := Header.scan_of_field h
  have behind : (first :: rest).length - field.octets = 2 + rest.length - (1 + field.octets) := by
    rw [List.length_cons]
    omega
  rw [behind] at scanned
  refine ⟨by omega, ?_, ?_⟩
  · intro enough
    rw [if_neg (by omega)] at scanned
    rw [header_eq_scan usable, shown, scanned]
  · intro tooFew
    rw [if_pos (by omega)] at scanned
    refine ⟨⟨.contentTooLong field.length (2 + rest.length - (1 + field.octets)), c.position⟩, ?_, rfl, rfl,
      rfl⟩
    rw [header_eq_scan usable, shown, scanned]
    rfl

theorem readsLongForm (usable : c.usable = true) (shown : c.window.toList = tag :: first :: rest)
    (long : 0x80 ≤ first) : c.ReadsLongForm tag (first &&& 0x7f).toNat rest := by
  have field : LengthField.scan (first :: rest).length (first :: rest) = _ := LengthField.scan_long long
  dsimp only at field
  generalize (first &&& 0x7f).toNat = count at field
  have within : count ≤ 7 → ¬ lengthWordBytes ≤ count := fun few =>
    Nat.not_le.mpr (Nat.lt_succ_of_le few)
  refine ⟨?_, ?_, ?_, ?_⟩
  · intro many
    rw [if_pos (show lengthWordBytes ≤ count from many)] at field
    exact refusesHeader_of_scan usable (shown ▸ Header.scan_of_defect field)
  · intro few missing
    rw [if_neg (within few), if_pos missing] at field
    exact refusesHeader_of_scan usable (shown ▸ Header.scan_of_defect field)
  · intro few enough large
    rw [if_neg (within few), if_neg (Nat.not_lt.mpr enough), if_pos large] at field
    exact refusesHeader_of_scan usable (shown ▸ Header.scan_of_defect field)
  · intro few enough small
    rw [if_neg (within few), if_neg (Nat.not_lt.mpr enough), if_neg (Nat.not_lt.mpr small)] at field
    have judged := judgesContent_of_field usable shown (Nat.add_le_add_left enough 1) field
    rw [← Nat.add_assoc] at judged
    exact judged

theorem header_eq_ok_iff_usable {h : Header} :
    c.header = .ok h ↔
      c.usable = true ∧ ∃ x : Encoding, x.bytes <+: c.window.toList ∧ h = x.header := by
  constructor
  · intro found
    obtain ⟨e, read, -⟩ := map_eq_ok_iff.mp found
    have usable := usable_of_element read
    obtain ⟨x, tail, front, same⟩ := (header_eq_ok_iff (on_self usable)).mp found
    exact ⟨usable, x, ⟨tail, front.symm⟩, same⟩
  · rintro ⟨usable, x, ⟨tail, front⟩, same⟩
    exact (header_eq_ok_iff (on_self usable)).mpr ⟨x, tail, front.symm, same⟩

/-- Headers are answered from the bytes that are left, by the table. -/
theorem header_answers (c : Cursor) :
    c.HeaderAnswers (c.window.origin.extract c.position (c.position + c.remaining)).data.toList := by
  -- the bytes that are left are those of the window
  show c.HeaderAnswers c.window.toList
  refine ⟨c.window.length_toList, fun h => header_eq_ok_iff_usable, ?_, ?_, ?_, ?_, ?_⟩
  · intro unusable
    refine ⟨⟨.unusable, c.position⟩, ?_, rfl, rfl⟩
    rw [header, element, unusable]
    rfl
  · intro usable shown
    have scanned : Header.scan .any c.window.toList = .error (.missingTag, 0) := by rw [shown]; rfl
    exact refusesHeader_of_scan usable scanned
  · intro usable tag shown
    have scanned : Header.scan .any c.window.toList = .error (.missingLength, 1) := by rw [shown]; rfl
    exact refusesHeader_of_scan usable scanned
  · intro usable tag first rest shown short
    exact judgesContent_of_field usable shown (Nat.le_add_right 1 _) (LengthField.scan_short short)
  · intro usable tag first rest shown long
    exact readsLongForm usable shown long

end Cursor
end Ber
