import Mathlib.Data.Rat.Floor
import Ber.Proofs.Bounds
import Ber.Proofs.HeaderAnswers

/-!
# Decoding length fields

Any caller may have a length field decoded, and may name the place and the amount by whatever number: a
fraction, one beyond all exact ones, an infinity, or none at all. What counts of it are the whole bytes that the
amount allows to read (`Quantity.wholeBytes`), and what is answered is a matter of these bytes: of the first
octet, then of how many it announces, then of how many are there, and at last of the length that they write
(`LengthField.ReadsWindow`).

A length is given up as soon as an octet would lead beyond `maxExact`, and the octets are checked for that one
by one, before each step. Looking at the whole number comes to the same (`LengthField.lengthOf?_eq`).
-/

namespace Ber

/-! ### Places and amounts -/

namespace Quantity

/-- How many whole bytes an amount allows to read where `left` are left. -/
def wholeBytes (available : Quantity) (left : Nat) : Nat :=
  match available with
  | .finite amount => if amount.floor < left then amount.floor.toNat else left
  | .infinite negative => if negative then 0 else left
  | .undefined => 0

variable {offset available : Quantity} {size place left : Nat}

theorem toNat_floor_natCast (n : Nat) : (n : Rat).floor.toNat = n :=
  congrArg Int.toNat (Rat.floor_intCast n)

theorem toNat_floor_readable (available : Quantity) (left : Nat) :
    (available.readable left).floor.toNat = available.wholeBytes left := by
  cases available with
  | finite amount =>
    rw [readable, wholeBytes]
    by_cases within : amount ≤ left
    · rw [if_pos within]
      have floor_le : amount.floor ≤ left := by
        have mono := Rat.floor_monotone within
        rwa [show ((left : Rat)).floor = left from Rat.floor_intCast left] at mono
      split
      · rfl
      · omega
    · have le_floor : (left : Int) ≤ amount.floor := Rat.le_floor_iff.mpr (Rat.not_le.mp within).le
      rw [if_neg within, if_neg (by omega), toNat_floor_natCast]
  | infinite negative =>
    cases negative with
    | true => rfl
    | false => exact toNat_floor_natCast left
  | undefined => rfl

theorem wholeBytes_le (available : Quantity) (left : Nat) : available.wholeBytes left ≤ left := by
  cases available with
  | finite amount =>
    rw [wholeBytes]
    split
    · omega
    · exact Nat.le_refl left
  | infinite negative => cases negative <;> simp [wholeBytes]
  | undefined => exact Nat.zero_le left

theorem place?_eq_some_iff :
    offset.place? size = some place ↔ offset = (place : Quantity) ∧ place ≤ size ∧ place ≤ maxExact := by
  constructor
  · intro h
    rw [place?] at h
    split at h
    · next integer =>
      split at h
      · next inside =>
        cases h
        cases offset with
        | finite value =>
          rw [exactInt?] at integer
          split at integer
          · next exactInteger =>
            obtain ⟨den, small⟩ := exactInteger
            have num : value.num = (place : Int) := Option.some.inj integer
            have same : value = (place : Rat) := by
              apply Rat.ext
              · rw [num, Rat.num_natCast]
              · rw [den, Rat.den_natCast]
            refine ⟨congrArg Quantity.finite same, inside, ?_⟩
            rw [num] at small
            exact small
          · cases integer
        | _ => cases integer
      · cases h
    · cases h
  · rintro ⟨rfl, inside, small⟩
    exact place?_natCast inside small

end Quantity

/-! ### Writing a length -/

/-- The number in base 256, the highest digit first, in `count` digits. -/
def bigEndian : (count value : Nat) → List UInt8
  | 0, _ => []
  | count + 1, value => bigEndian count (value / 256) ++ [UInt8.ofNat value]

theorem length_bigEndian (count value : Nat) : (bigEndian count value).length = count := by
  induction count generalizing value with
  | zero => rfl
  | succ count ih => rw [bigEndian, List.length_append, ih, List.length_singleton]

theorem ofBigEndian_bigEndian {count value : Nat} (fits : value < 256 ^ count) :
    ofBigEndian (bigEndian count value) = value := by
  induction count generalizing value with
  | zero =>
    rw [Nat.pow_zero] at fits
    rw [bigEndian]
    exact (Nat.lt_one_iff.mp fits).symm
  | succ count ih =>
    have higher : value / 256 < 256 ^ count := by
      rw [Nat.pow_succ] at fits
      exact Nat.div_lt_of_lt_mul (Nat.mul_comm _ 256 ▸ fits)
    have lowest : (UInt8.ofNat value).toNat = value % 256 := UInt8.toNat_ofNat
    have digits : ofBigEndian (bigEndian count (value / 256)) = value / 256 := ih higher
    rw [ofBigEndian] at digits
    rw [bigEndian, ofBigEndian, List.foldl_append, digits, List.foldl_cons, List.foldl_nil, lowest]
    omega

namespace LengthForm

variable {count length : Nat} (few : count ≤ 7) (small : length ≤ maxExact) (fits : length < 256 ^ count)

/-- The long form of a length, in `count` octets behind the first one. -/
def ofLength : LengthForm :=
  .long (bigEndian count length) (by rw [length_bigEndian]; exact Nat.lt_succ_of_le few)
    (by rw [ofBigEndian_bigEndian fits]; exact small)

theorem length_ofLength : (ofLength few small fits).length = length := ofBigEndian_bigEndian fits

theorem octets_ofLength :
    (ofLength few small fits).octets = (0x80 ||| UInt8.ofNat count) :: bigEndian count length := by
  rw [ofLength, octets, length_bigEndian]
  rfl

theorem length_octets_ofLength : (ofLength few small fits).octets.length = 1 + count := by
  rw [octets_ofLength, List.length_cons, length_bigEndian, Nat.add_comm]

end LengthForm

namespace LengthField

/-! ### The bound, octet by octet -/

/-- The length that some octets write behind those that write `value`. An octet is refused if the value
before it is above the bound from which it leads beyond `maxExact`. -/
def lengthOf? (value : Nat) : List UInt8 → Option Nat
  | [] => some value
  | octet :: rest =>
    if ((maxExact : Rat) - octet.toNat) / 256 < value then none
    else lengthOf? (value * 256 + octet.toNat) rest

/-- The octets are refused one by one just where the length that they write is too large. -/
theorem lengthOf?_eq (value : Nat) (octets : List UInt8) (small : value ≤ maxExact) :
    lengthOf? value octets =
      if maxExact < octets.foldl (fun value b => value * 256 + b.toNat) value then none
      else some (octets.foldl (fun value b => value * 256 + b.toNat) value) := by
  induction octets generalizing value with
  | nil => rw [lengthOf?, List.foldl_nil, if_neg (Nat.not_lt.mpr small)]
  | cons octet rest ih =>
    have guard : maxExact < value * 256 + octet.toNat ↔
        ((maxExact : Rat) - octet.toNat) / 256 < value :=
      maxExact_lt_iff (by decide) value octet.toNat
    rw [lengthOf?, List.foldl_cons]
    by_cases beyond : maxExact < value * 256 + octet.toNat
    · have further := le_foldl_digits rest (value * 256 + octet.toNat)
      rw [if_pos (guard.mp beyond), if_pos (Nat.lt_of_lt_of_le beyond further)]
    · rw [if_neg (mt guard.mpr beyond), ih _ (Nat.not_lt.mp beyond)]

/-! ### What is answered -/

/-- The result is a failure with this code, at the offset that was given. -/
def FailsAt (result : Except Failure LengthField) (offset : Quantity) (code : FailureCode) : Prop :=
  ∃ failure, result = .error failure ∧ failure.code = code ∧ failure.offset = offset

/-- How a long form that announces `count` octets is answered, where `rest` may be read behind its first
octet. -/
structure ReadsLongForm (result : Except Failure LengthField) (offset : Quantity) (count : Nat)
    (rest : List UInt8) : Prop where
  tooMany : 8 ≤ count → FailsAt result offset .malformedLength
  cutOff : count ≤ 7 → rest.length < count → FailsAt result offset .truncatedInput
  tooLarge : count ≤ 7 → count ≤ rest.length → maxExact < ofBigEndian (rest.take count) →
    FailsAt result offset .malformedLength
  bounded : count ≤ 7 → count ≤ rest.length → ofBigEndian (rest.take count) ≤ maxExact →
    result = .ok ⟨ofBigEndian (rest.take count), 1 + count⟩
  /-- The octets may as well be taken one by one. -/
  octetwise : count ≤ 7 → count ≤ rest.length → result =
    match lengthOf? 0 (rest.take count) with
    | some length => .ok ⟨length, 1 + count⟩
    | none => .error ⟨.lengthTooLarge, offset⟩

/-- How a length field is answered where the bytes of `window` may be read. -/
structure ReadsWindow (result : Except Failure LengthField) (offset : Quantity) (window : List UInt8) :
    Prop where
  empty : window = [] → FailsAt result offset .truncatedInput
  short : ∀ first rest, window = first :: rest → first < 0x80 → result = .ok ⟨first.toNat, 1⟩
  long : ∀ first rest, window = first :: rest → 0x80 ≤ first →
    ReadsLongForm result offset (first &&& 0x7f).toNat rest

/-- How the length field at a place is answered, if the amount allows to read `size` whole bytes from there. -/
structure DecodesAt (bytes : ByteArray) (place size : Nat) (offset : Quantity)
    (result : Except Failure LengthField) : Prop where
  fits : place + size ≤ bytes.size
  reads : ReadsWindow result offset (bytes.extract place (place + size)).data.toList
  /-- A field that was found lies in the window, and is found wherever its octets may be read. -/
  found : ∀ field, result = .ok field → field.octets ≤ size ∧
    ∀ (bytes' : ByteArray) (place' : Nat) (available' : Quantity), place' ≤ bytes'.size →
      place' ≤ maxExact → field.octets ≤ available'.wholeBytes (bytes'.size - place') →
      bytes'.extract place' (place' + field.octets) = bytes.extract place (place + field.octets) →
      decode bytes' (place' : Quantity) available' = .ok field
  /-- A length that was written in `count` octets is found. -/
  written : ∀ count length, count ≤ 7 → length ≤ maxExact → length < 256 ^ count → 1 + count ≤ size →
    (bytes.extract place (place + (1 + count))).data.toList =
      (0x80 ||| UInt8.ofNat count) :: bigEndian count length →
    result = .ok ⟨length, 1 + count⟩

/-- How a length field is decoded at whatever offset, and whatever amount may be read. Places beyond
`maxExact` have no exact number, and no array is that large. -/
structure DecodesExactly (bytes : ByteArray) (offset available : Quantity) : Prop where
  outside : (∀ place : Nat, place ≤ bytes.size → place ≤ maxExact → offset ≠ place) →
    FailsAt (decode bytes offset available) offset .truncatedInput
  inside : ∀ place : Nat, place ≤ bytes.size → place ≤ maxExact → offset = place →
    DecodesAt bytes place (available.wholeBytes (bytes.size - place)) offset (decode bytes offset available)
  refused : ∀ failure, decode bytes offset available = .error failure → failure.offset = offset

/-! ### Decoding is scanning the window -/

variable {bytes : ByteArray} {offset available : Quantity} {place size : Nat} {readable : Rat}
  {window rest : List UInt8} {count : Nat} {defect : Defect} {field : LengthField}

theorem decode_of_place (named : offset.place? bytes.size = some place) :
    decode bytes offset available =
      (scan (available.readable (bytes.size - place))
        (bytes.extract place (place + available.wholeBytes (bytes.size - place))).data.toList).mapError
          (⟨·, offset⟩) := by
  rw [decode, named]
  simp only [read_eq_scan, Window.toList_take, Window.toList_drop, Window.toList_ofBytes,
    Quantity.toNat_floor_readable, toList_extract]

/-- A form is decoded wherever its octets may be read. -/
theorem decode_of_form (form : LengthForm) (named : offset.place? bytes.size = some place)
    (room : form.octets.length ≤ available.wholeBytes (bytes.size - place))
    (shown : (bytes.extract place (place + form.octets.length)).data.toList = form.octets) :
    decode bytes offset available = .ok ⟨form.length, form.octets.length⟩ := by
  have front : form.octets <+:
      (bytes.extract place (place + available.wholeBytes (bytes.size - place))).data.toList := by
    rw [List.prefix_iff_eq_take, toList_extract, List.take_take, Nat.min_eq_left room, ← toList_extract]
    exact shown.symm
  obtain ⟨tail, split⟩ := front
  rw [decode_of_place named, ← split, scan_octets]
  rfl

theorem failsAt_of_scan (h : scan readable window = .error defect) (offset : Quantity) :
    FailsAt ((scan readable window).mapError (⟨·, offset⟩)) offset (Failure.code ⟨defect, offset⟩) := by
  rw [h]
  exact ⟨_, rfl, rfl, rfl⟩

theorem readsLongForm_of_scan (offset : Quantity)
    (scanned : scan readable window =
      if lengthWordBytes ≤ count then .error (.tooManyOctets count)
      else if rest.length < count then .error (.missingOctets count (.finite (readable - 1)))
      else if maxExact < ofBigEndian (rest.take count) then .error .lengthTooLarge
      else .ok ⟨ofBigEndian (rest.take count), 1 + count⟩) :
    ReadsLongForm ((scan readable window).mapError (⟨·, offset⟩)) offset count rest := by
  have within : count ≤ 7 → ¬ lengthWordBytes ≤ count := fun few =>
    Nat.not_le.mpr (Nat.lt_succ_of_le few)
  refine ⟨?_, ?_, ?_, ?_, ?_⟩
  · intro many
    rw [if_pos (show lengthWordBytes ≤ count from many)] at scanned
    exact failsAt_of_scan scanned offset
  · intro few missing
    rw [if_neg (within few), if_pos missing] at scanned
    exact failsAt_of_scan scanned offset
  · intro few enough large
    rw [if_neg (within few), if_neg (Nat.not_lt.mpr enough), if_pos large] at scanned
    exact failsAt_of_scan scanned offset
  · intro few enough small
    rw [if_neg (within few), if_neg (Nat.not_lt.mpr enough), if_neg (Nat.not_lt.mpr small)] at scanned
    rw [scanned]
    rfl
  · intro few enough
    rw [if_neg (within few), if_neg (Nat.not_lt.mpr enough)] at scanned
    have octets := lengthOf?_eq 0 (rest.take count) (Nat.zero_le maxExact)
    rw [← ofBigEndian] at octets
    rw [scanned, octets]
    by_cases large : maxExact < ofBigEndian (rest.take count)
    · rw [if_pos large, if_pos large]
      rfl
    · rw [if_neg large, if_neg large]
      rfl

theorem readsWindow (readable : Rat) (window : List UInt8) (offset : Quantity) :
    ReadsWindow ((scan readable window).mapError (⟨·, offset⟩)) offset window := by
  refine ⟨?_, ?_, ?_⟩
  · rintro rfl
    have scanned : scan readable [] = .error .missingLength := rfl
    exact failsAt_of_scan scanned offset
  · rintro first rest rfl short
    rw [scan_short short]
    rfl
  · rintro first rest rfl long
    exact readsLongForm_of_scan offset (scan_long long)

theorem decodesAt (named : offset.place? bytes.size = some place) :
    DecodesAt bytes place (available.wholeBytes (bytes.size - place)) offset
      (decode bytes offset available) := by
  have inside : place ≤ bytes.size := (Quantity.place?_eq_some_iff.mp named).2.1
  have within_rest := available.wholeBytes_le (bytes.size - place)
  refine ⟨by omega, ?_, ?_, ?_⟩
  · rw [decode_of_place named]
    exact readsWindow _ _ offset
  · intro field answered
    rw [decode_of_place named] at answered
    obtain ⟨form, front, rfl⟩ := exists_form_of_scan (mapError_eq_ok_iff.mp answered)
    have room : form.octets.length ≤ available.wholeBytes (bytes.size - place) := by
      have short := front.length_le
      rw [toList_extract, List.length_take] at short
      omega
    have shown : (bytes.extract place (place + form.octets.length)).data.toList = form.octets := by
      rw [toList_extract, List.prefix_iff_eq_take, List.take_take, Nat.min_eq_left room] at front
      rw [toList_extract]
      exact front.symm
    refine ⟨room, fun bytes' place' available' inside' small' room' same => ?_⟩
    rw [← same] at shown
    exact decode_of_form form (Quantity.place?_eq_some_iff.mpr ⟨rfl, inside', small'⟩) room' shown
  · intro count length few small fits room shown
    have octets := LengthForm.length_octets_ofLength few small fits
    rw [← octets] at room shown
    rw [← LengthForm.octets_ofLength few small fits] at shown
    rw [decode_of_form _ named room shown, LengthForm.length_ofLength, octets]

/-- Length fields are decoded exactly, at every offset and for every amount. -/
theorem decodes_exactly (bytes : ByteArray) (offset available : Quantity) :
    DecodesExactly bytes offset available := by
  refine ⟨?_, ?_, ?_⟩
  · intro unnamed
    have nowhere : offset.place? bytes.size = none := by
      rw [Option.eq_none_iff_forall_ne_some]
      intro place named
      obtain ⟨same, inside, small⟩ := Quantity.place?_eq_some_iff.mp named
      exact unnamed place inside small same
    rw [decode, nowhere]
    exact ⟨_, rfl, rfl, rfl⟩
  · intro place inside small same
    exact decodesAt (Quantity.place?_eq_some_iff.mpr ⟨same, inside, small⟩)
  · intro failure refused
    cases named : offset.place? bytes.size with
    | none =>
      rw [decode, named] at refused
      cases refused
      rfl
    | some place =>
      rw [decode_of_place named] at refused
      obtain ⟨defect, -, rfl⟩ := mapError_eq_error_iff.mp refused
      rfl

end LengthField
end Ber
