import Ber.Proofs.Encoding

/-!
# Scanning lists of bytes

What a reader answers depends on the bytes in view and on nothing else: not on the array that the
window lies in, nor on what stands before or behind it. `Header.scan` is the part of reading that looks
at bytes, as a function of their list; a failure is given by its defect and by how far from the front
it is reported. `Element.read_eq_scan` says that reading a window is scanning its list, after which the
place of the window enters once, when the parts of the element are cut out and the failure is placed.

`Header.scan_eq_ok_iff` then joins scanning to writing: a header is found just where an encoding
stands, and it is the header of that encoding.
-/

namespace Ber

namespace LengthField

/-- The length field at the front of some bytes. -/
def scan (readable : Rat) : List UInt8 → Except Defect LengthField
  | [] => .error .missingLength
  | first :: rest =>
    if first < longForm then .ok ⟨first.toNat, 1⟩
    else
      let count := (first - longForm).toNat
      if lengthWordBytes ≤ count then .error (.tooManyOctets count)
      else if rest.length < count then .error (.missingOctets count (.finite (readable - 1)))
      else if maxExact < ofBigEndian (rest.take count) then .error .lengthTooLarge
      else .ok ⟨ofBigEndian (rest.take count), 1 + count⟩

theorem read_eq_scan (w : Window) (readable : Rat) : read w readable = scan readable w.toList := by
  have size := w.length_toList
  have front := w.get?_eq_getElem? 0
  cases shown : w.toList with
  | nil =>
    rw [shown] at front
    simp [read, scan, front]
  | cons first rest =>
    rw [shown] at front size
    have left : w.size - 1 = rest.length := by simp [← size]
    simp [read, scan, front, left, shown]

end LengthField

/-! ### Length fields -/

namespace LengthForm

/-- An octet of the long form is one that is not below `longForm`. -/
theorem not_longForm_or_lt {count : Nat} (h : count < 128) :
    ¬ (LengthField.longForm ||| UInt8.ofNat count) < LengthField.longForm := by
  rw [UInt8.lt_iff_toNat_lt, toNat_longForm_or h]
  show ¬ 128 + count < 128
  omega

/-- The number that an octet of the long form announces. -/
theorem toNat_sub_longForm {first : UInt8} (h : ¬ first < LengthField.longForm) :
    (first - LengthField.longForm).toNat = first.toNat - 128 :=
  UInt8.toNat_sub_of_le _ _ (UInt8.not_lt.mp h)

theorem longForm_or_sub {count : Nat} (h : count < 128) :
    ((LengthField.longForm ||| UInt8.ofNat count) - LengthField.longForm).toNat = count := by
  rw [toNat_sub_longForm (not_longForm_or_lt h), toNat_longForm_or h]
  omega

/-- An octet of the long form, from the number that it announces. -/
theorem longForm_or_of_sub {first : UInt8} (h : ¬ first < LengthField.longForm) :
    LengthField.longForm ||| UInt8.ofNat (first - LengthField.longForm).toNat = first := by
  have above : 128 ≤ first.toNat := UInt8.le_iff_toNat_le.mp (UInt8.not_lt.mp h)
  have below := first.toNat_lt
  apply UInt8.toNat_inj.mp
  rw [toNat_sub_longForm h, toNat_longForm_or (by omega)]
  omega

end LengthForm

namespace LengthField

/-- A form is read back, whatever follows it. -/
theorem scan_octets (form : LengthForm) (readable : Rat) (tail : List UInt8) :
    scan readable (form.octets ++ tail) = .ok ⟨form.length, form.octets.length⟩ := by
  cases form with
  | short value small =>
    have found := LengthForm.toNat_ofNat_small small
    have short : UInt8.ofNat value < longForm := by
      rw [UInt8.lt_iff_toNat_lt, found]
      exact small
    simp [scan, LengthForm.octets, LengthForm.length, short, found]
  | long digits few bounded =>
    have count : digits.length < 128 := by
      unfold lengthWordBytes at few
      omega
    simp [scan, LengthForm.octets, LengthForm.length, LengthForm.not_longForm_or_lt count,
      LengthForm.longForm_or_sub count, Nat.not_le.mpr few, Nat.not_lt.mpr bounded, Nat.add_comm]

/-- What is read is a form at the front. -/
theorem exists_form_of_scan {readable : Rat} {bytes : List UInt8} {field : LengthField}
    (h : scan readable bytes = .ok field) :
    ∃ form : LengthForm, form.octets <+: bytes ∧ field = ⟨form.length, form.octets.length⟩ := by
  cases bytes with
  | nil => cases h
  | cons first rest =>
    simp only [scan] at h
    split at h
    · next short =>
      cases h
      have small : first.toNat < 128 := UInt8.lt_iff_toNat_lt.mp short
      exact ⟨.short first.toNat small, by simp [LengthForm.octets], rfl⟩
    · next long =>
      split at h
      · cases h
      · next few =>
        split at h
        · cases h
        · next enough =>
          split at h
          · cases h
          · next bounded =>
            cases h
            have taken : (rest.take (first - longForm).toNat).length = (first - longForm).toNat :=
              List.length_take_of_le (by omega)
            refine ⟨.long (rest.take (first - longForm).toNat) (by omega) (by omega), ?_, ?_⟩
            · rw [LengthForm.octets, taken, LengthForm.longForm_or_of_sub long, List.cons_prefix_cons]
              exact ⟨rfl, List.take_prefix _ _⟩
            · simp [LengthForm.octets, LengthForm.length, taken, Nat.add_comm]

end LengthField

/-! ### Headers -/

namespace Header

/-- The header of the element at the front of some bytes. -/
def scan (rule : TagRule) : List UInt8 → Except (Defect × Nat) Header
  | [] => .error (.missingTag, 0)
  | tag :: rest =>
    if rule.accepts tag then
      match LengthField.scan rest.length rest with
      | .error defect => .error (defect, 1)
      | .ok field =>
        if rest.length - field.octets < field.length then
          .error (.contentTooLong field.length (rest.length - field.octets), 0)
        else .ok ⟨tag, 1 + field.octets, field.length⟩
    else .error (.unexpectedTag rule tag, 0)

/-- The element with this header at the front of a window. -/
def elementIn (h : Header) (w : Window) : Element :=
  ⟨h.tag, h.headerLength, (w.drop h.headerLength).take h.length,
    w.drop (h.headerLength + h.length)⟩

/-- An encoding is read back, whatever follows it. -/
theorem scan_bytes {rule : TagRule} (x : Encoding) (accepted : rule.accepts x.tag)
    (tail : List UInt8) : scan rule (x.bytes ++ tail) = .ok x.header := by
  have room : ¬ (x.form.octets ++ (x.content ++ tail)).length - x.form.octets.length
      < x.form.length := by
    rw [List.length_append, List.length_append, x.complete]
    omega
  simp only [Encoding.bytes, List.cons_append, List.append_assoc, scan, accepted, if_true,
    LengthField.scan_octets, if_neg room]
  rw [Encoding.header, Encoding.headerLength, x.complete]

/-- A header is found just where an encoding stands. -/
theorem scan_eq_ok_iff {rule : TagRule} {bytes : List UInt8} {h : Header} :
    scan rule bytes = .ok h ↔
      ∃ x : Encoding, rule.accepts x.tag ∧ x.bytes <+: bytes ∧ h = x.header := by
  constructor
  · intro found
    cases bytes with
    | nil => cases found
    | cons tag rest =>
      simp only [scan] at found
      split at found
      · next accepted =>
        split at found
        · cases found
        · next field scanned =>
          split at found
          · cases found
          · next room =>
            cases found
            obtain ⟨form, ⟨after, rfl⟩, rfl⟩ := LengthField.exists_form_of_scan scanned
            have enough : form.length ≤ after.length := by
              simp only [List.length_append] at room
              omega
            have taken : (after.take form.length).length = form.length :=
              List.length_take_of_le enough
            refine ⟨⟨tag, form, after.take form.length, taken⟩, accepted, ?_, ?_⟩
            · simp only [Encoding.bytes, List.cons_prefix_cons, List.prefix_append_right_inj,
                true_and]
              exact List.take_prefix _ _
            · simp [Encoding.header, Encoding.headerLength, taken]
      · cases found
  · rintro ⟨x, accepted, ⟨tail, rfl⟩, rfl⟩
    exact scan_bytes x accepted tail

end Header

/-- Reading an element in a window is scanning the bytes in view. -/
theorem Element.read_eq_scan (rule : TagRule) (w : Window) :
    read rule w =
      match Header.scan rule w.toList with
      | .ok h => .ok (h.elementIn w)
      | .error (defect, ahead) => .error ⟨defect, (w.start + ahead : Nat)⟩ := by
  have size := w.length_toList
  have front := w.get?_eq_getElem? 0
  cases shown : w.toList with
  | nil =>
    rw [shown] at front
    simp [read, Header.scan, front]
  | cons tag rest =>
    rw [shown] at front size
    have behind : (w.drop 1).toList = rest := by simp [shown]
    have left : (w.drop 1).size = rest.length := by simp [← size]
    simp only [read, Header.scan, front, List.getElem?_cons_zero, LengthField.read_eq_scan, behind,
      left]
    by_cases accepted : rule.accepts tag
    · simp only [if_pos accepted]
      cases LengthField.scan rest.length rest with
      | error defect => rfl
      | ok field =>
        have body : (w.drop (1 + field.octets)).size = rest.length - field.octets := by
          simp only [Window.size_drop, ← size, List.length_cons]
          omega
        simp only [body]
        split
        · rfl
        · simp only [Header.elementIn, Window.drop_drop]
    · simp only [if_neg accepted]
      rfl

/-! ### Scanning never leaves the array -/

/-- What can be wrong with a length field. -/
theorem LengthField.scan_eq_error {readable : Rat} {bytes : List UInt8} {defect : Defect}
    (h : scan readable bytes = .error defect) :
    defect = .missingLength ∨ (∃ count, defect = .tooManyOctets count) ∨
      (∃ count left, defect = .missingOctets count left) ∨ defect = .lengthTooLarge := by
  cases bytes with
  | nil =>
    cases h
    exact .inl rfl
  | cons first rest =>
    simp only [scan] at h
    split at h
    · cases h
    · split at h
      · cases h
        exact .inr (.inl ⟨_, rfl⟩)
      · split at h
        · cases h
          exact .inr (.inr (.inl ⟨_, _, rfl⟩))
        · split at h
          · cases h
            exact .inr (.inr (.inr rfl))
          · cases h

theorem LengthField.scan_ne_outsideArray {readable : Rat} {bytes : List UInt8} {defect : Defect}
    (h : scan readable bytes = .error defect) (size : Nat) : defect ≠ .outsideArray size := by
  rcases scan_eq_error h with rfl | ⟨count, rfl⟩ | ⟨count, left, rfl⟩ | rfl
  all_goals exact Defect.noConfusion

theorem Header.scan_ne_outsideArray {rule : TagRule} {bytes : List UInt8} {defect : Defect}
    {place : Nat} (h : scan rule bytes = .error (defect, place)) (size : Nat) :
    defect ≠ .outsideArray size := by
  cases bytes with
  | nil =>
    cases h
    exact Defect.noConfusion
  | cons tag rest =>
    simp only [scan] at h
    split at h
    · split at h
      · next failed =>
        cases h
        exact LengthField.scan_ne_outsideArray failed size
      · split at h
        · cases h
          exact Defect.noConfusion
        · cases h
    · cases h
      exact Defect.noConfusion

/-- The one defect that says that a place is outside of the array is not found by reading elements. -/
theorem Element.read_ne_outsideArray {rule : TagRule} {w : Window} {failure : Failure}
    (h : read rule w = .error failure) (size : Nat) : failure.defect ≠ .outsideArray size := by
  rw [read_eq_scan] at h
  cases scanned : Header.scan rule w.toList with
  | ok header => simp [scanned] at h
  | error failed =>
    rw [scanned] at h
    cases h
    exact Header.scan_ne_outsideArray scanned size

end Ber
