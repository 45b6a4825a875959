import Ber.Proofs.HexText
import Ber.Proofs.Reading

/-!
# The grammar of hex text

Which texts spell bytes, and which bytes they spell. Of a text only the characters that are not blank
count (`stripped`). They spell bytes just if there is an even number of them and all are digits
(`exists_decodeList_iff`), and what is written for these bytes is the text again, without blanks and in
lower case (`encodeList_of_decodeList`). As writing is injective, no other bytes could be meant.

Two notions are spelled out here. A blank is one of the code points in `blanks`,
which the table of ranges lists. The length of a text counts a character beyond `U+FFFF` twice (`units`);
no such character is a digit, so for the texts that are accepted it is the number of characters
(`units_of_digits`).
-/

namespace Ber.Hex

variable {bytes : List UInt8} {c : Char} {cs : List Char} {text : String} {content : ByteArray} {n : Nat}

/-! ### Characters -/

/-- The digits of either case. -/
def IsDigit (c : Char) : Prop :=
  ('0' ≤ c ∧ c ≤ '9') ∨ ('a' ≤ c ∧ c ≤ 'f') ∨ ('A' ≤ c ∧ c ≤ 'F')

instance : DecidablePred IsDigit := fun c =>
  inferInstanceAs (Decidable (('0' ≤ c ∧ c ≤ '9') ∨ ('a' ≤ c ∧ c ≤ 'f') ∨ ('A' ≤ c ∧ c ≤ 'F')))

/-- The code points that stand for nothing in a hex text. -/
def blanks : List Nat :=
  [0x0009, 0x000a, 0x000b, 0x000c, 0x000d, 0x0020, 0x00a0, 0x1680, 0x2000, 0x2001, 0x2002, 0x2003,
   0x2004, 0x2005, 0x2006, 0x2007, 0x2008, 0x2009, 0x200a, 0x2028, 0x2029, 0x202f, 0x205f, 0x3000,
   0xfeff]

theorem isBlank_iff (c : Char) : isBlank c = true ↔ c.toNat ∈ blanks := by
  simp only [isBlank, Blank.ranges, blanks, List.any_cons, List.any_nil, Bool.or_eq_true,
    Bool.and_eq_true, decide_eq_true_eq, Bool.or_false, List.mem_cons, List.not_mem_nil, or_false]
  omega

/-- What holds of the first 128 characters holds of every one of them. -/
theorem forall_ascii {p : Char → Prop} (h : ∀ n : Fin 128, p (Char.ofNat n)) (small : c.toNat < 128) :
    p c := by
  have := h ⟨c.toNat, small⟩
  rwa [Char.ofNat_toNat] at this

theorem exists_digitValue?_iff : (∃ n, digitValue? c = some n) ↔ IsDigit c := by
  unfold digitValue? IsDigit
  split
  · simp [*]
  · split
    · simp [*]
    · split
      · simp [*]
      · simp [*]

theorem IsDigit.toNat_lt (h : IsDigit c) : c.toNat < 128 := by
  have bound : ∀ last : Char, c ≤ last → last.toNat < 128 → c.toNat < 128 :=
    fun last below => Nat.lt_of_le_of_lt (Char.le_def.mp below)
  rcases h with ⟨-, below⟩ | ⟨-, below⟩ | ⟨-, below⟩
  · exact bound '9' below (by decide)
  · exact bound 'f' below (by decide)
  · exact bound 'F' below (by decide)

/-- The value of a digit is written as the digit in lower case. -/
theorem digitChar_of_digitValue? (h : digitValue? c = some n) :
    n < 16 ∧ Nat.digitChar n = c.toLower := by
  have all : ∀ m : Fin 128, ∀ n ∈ digitValue? (Char.ofNat m),
      n < 16 ∧ Nat.digitChar n = (Char.ofNat m).toLower := by decide
  exact forall_ascii (p := fun c => ∀ n ∈ digitValue? c, n < 16 ∧ Nat.digitChar n = c.toLower) all
    (exists_digitValue?_iff.mp ⟨n, h⟩).toNat_lt n h

/-! ### Digits two by two -/

theorem digits_ofNat {high low : Nat} (small : high < 16) (small' : low < 16) :
    digits (UInt8.ofNat (16 * high + low)) = [Nat.digitChar high, Nat.digitChar low] := by
  have value : (UInt8.ofNat (16 * high + low)).toNat = 16 * high + low :=
    UInt8.toNat_ofNat_of_lt' (by show _ < 256; omega)
  rw [digits, value, show (16 * high + low) / 16 = high by omega, show (16 * high + low) % 16 = low by omega]

theorem length_encodeList (bytes : List UInt8) : (encodeList bytes).length = 2 * bytes.length := by
  induction bytes with
  | nil => rfl
  | cons byte rest ih =>
    show (digits byte ++ encodeList rest).length = _
    rw [List.length_append, ih, digits, List.length_cons, List.length_cons]
    simp only [List.length_cons, List.length_nil]
    omega

theorem decodeList_cons_cons_eq_some_iff {high low : Char} :
    decodeList (high :: low :: cs) = some bytes ↔
      ∃ h l rest, digitValue? high = some h ∧ digitValue? low = some l ∧ decodeList cs = some rest ∧
        bytes = UInt8.ofNat (16 * h + l) :: rest := by
  rw [decodeList]
  simp only [Option.bind_eq_bind, Option.bind_eq_some_iff, Option.pure_def, Option.some.injEq]
  constructor
  · rintro ⟨h, high, l, low, rest, later, rfl⟩
    exact ⟨h, l, rest, high, low, later, rfl⟩
  · rintro ⟨h, l, rest, high, low, later, rfl⟩
    exact ⟨h, high, l, low, rest, later, rfl⟩

/-- What is written for the bytes is what was read, in lower case. -/
theorem encodeList_of_decodeList (h : decodeList cs = some bytes) :
    encodeList bytes = cs.map Char.toLower := by
  fun_induction decodeList cs generalizing bytes with
  | case1 =>
    cases h
    rfl
  | case2 c => cases h
  | case3 high low rest ih =>
    obtain ⟨n, m, later, digit, digit', read, rfl⟩ := decodeList_cons_cons_eq_some_iff.mp h
    obtain ⟨small, written⟩ := digitChar_of_digitValue? digit
    obtain ⟨small', written'⟩ := digitChar_of_digitValue? digit'
    show digits _ ++ encodeList later = _
    rw [digits_ofNat small small', ih read, written, written']
    rfl

/-- An even number of digits spells bytes, and nothing else does. -/
theorem exists_decodeList_iff :
    (∃ bytes, decodeList cs = some bytes) ↔ cs.length % 2 = 0 ∧ ∀ c ∈ cs, IsDigit c := by
  induction cs using decodeList.induct with
  | case1 => simp [decodeList]
  | case2 c => simp [decodeList]
  | case3 high low rest ih =>
    have even : (high :: low :: rest).length % 2 = 0 ↔ rest.length % 2 = 0 := by
      simp only [List.length_cons]
      omega
    rw [even]
    constructor
    · rintro ⟨bytes, read⟩
      obtain ⟨n, m, later, digit, digit', read, -⟩ := decodeList_cons_cons_eq_some_iff.mp read
      obtain ⟨even, all⟩ := ih.mp ⟨later, read⟩
      refine ⟨even, List.forall_mem_cons.mpr ⟨exists_digitValue?_iff.mp ⟨n, digit⟩, ?_⟩⟩
      exact List.forall_mem_cons.mpr ⟨exists_digitValue?_iff.mp ⟨m, digit'⟩, all⟩
    · rintro ⟨even, all⟩
      obtain ⟨digit, all⟩ := List.forall_mem_cons.mp all
      obtain ⟨digit', all⟩ := List.forall_mem_cons.mp all
      obtain ⟨n, value⟩ := exists_digitValue?_iff.mpr digit
      obtain ⟨m, value'⟩ := exists_digitValue?_iff.mpr digit'
      obtain ⟨later, read⟩ := ih.mpr ⟨even, all⟩
      exact ⟨_, decodeList_cons_cons_eq_some_iff.mpr ⟨n, m, later, value, value', read, rfl⟩⟩

/-! ### Texts -/

/-- The characters of a text that are not blank. -/
def stripped (text : String) : List Char := text.toList.filter fun c => c.toNat ∉ blanks

theorem stripped_append_blanks {front between back : String}
    (blank : ∀ c ∈ between.toList, c.toNat ∈ blanks) :
    stripped (front ++ between ++ back) = stripped (front ++ back) := by
  have nothing : between.toList.filter (fun c => c.toNat ∉ blanks) = [] := by
    refine List.filter_eq_nil_iff.mpr fun c mem => ?_
    simp [blank c mem]
  simp only [stripped, String.toList_append, List.filter_append, nothing, List.append_nil]

/-- How many 16-bit units some characters take. -/
def units : List Char → Nat
  | [] => 0
  | c :: cs => (if c.toNat < 0x10000 then 1 else 2) + units cs

theorem units_of_digits (h : ∀ c ∈ cs, IsDigit c) : units cs = cs.length := by
  induction cs with
  | nil => rfl
  | cons c cs ih =>
    obtain ⟨digit, rest⟩ := List.forall_mem_cons.mp h
    have one : c.toNat < 0x10000 := Nat.lt_trans digit.toNat_lt (by decide)
    rw [units, if_pos one, ih rest, List.length_cons, Nat.add_comm]

/-- The bytes of a text depend on its characters that are not blank. -/
theorem toOption_decode (text : String) :
    (decode text).toOption = (decodeList (stripped text)).map List.toByteArray := by
  have unblank : (text.toList.filter fun c => !isBlank c) = stripped text := by
    refine List.filter_congr fun c _ => ?_
    rw [Bool.eq_iff_iff, decide_eq_true_eq, ← isBlank_iff, Bool.not_eq_true', Bool.not_eq_true]
  rw [decode, unblank]
  cases decodeList (stripped text) with
  | none => rfl
  | some bytes => rfl

theorem decode_eq_ok_iff :
    decode text = .ok content ↔ decodeList (stripped text) = some content.data.toList := by
  rw [← toOption_eq_some_iff, toOption_decode, Option.map_eq_some_iff]
  constructor
  · rintro ⟨bytes, read, rfl⟩
    rw [read, List.data_toByteArray, List.toList_toArray]
  · intro read
    refine ⟨_, read, ByteArray.ext ?_⟩
    rw [List.data_toByteArray, Array.toArray_toList]

theorem eq_of_decode_eq_error {error : Malformed} (h : decode text = .error error) : error = ⟨text⟩ := by
  unfold decode at h
  split at h
  · cases h
  · cases h
    rfl

/-- The texts that are read are those with an even number of digits, and nothing else but blanks. -/
theorem exists_decode_iff :
    (∃ content, decode text = .ok content) ↔
      units (stripped text) % 2 = 0 ∧ ∀ c ∈ stripped text, IsDigit c := by
  constructor
  · rintro ⟨content, read⟩
    obtain ⟨even, all⟩ := exists_decodeList_iff.mp ⟨_, decode_eq_ok_iff.mp read⟩
    rw [units_of_digits all]
    exact ⟨even, all⟩
  · rintro ⟨even, all⟩
    rw [units_of_digits all] at even
    obtain ⟨bytes, read⟩ := exists_decodeList_iff.mpr ⟨even, all⟩
    refine ⟨bytes.toByteArray, toOption_eq_some_iff.mp ?_⟩
    rw [toOption_decode, read]
    rfl

/-! ### Every text -/

/-- What is read from a text. -/
structure ReadsExactly (text : String) : Prop where
  accepts : (∃ content, decode text = .ok content) ↔
    units (stripped text) % 2 = 0 ∧ ∀ c ∈ stripped text, IsDigit c
  spells : ∀ content, decode text = .ok content →
    2 * content.size = (stripped text).length ∧
      encode content = String.ofList ((stripped text).map Char.toLower)
  refuses : (¬ ∃ content, decode text = .ok content) → ∃ error, decode text = .error error ∧
    error.message = "Invalid hex string: '" ++ text ++ "'"
  /-- Blanks may be put in or taken out at any place. -/
  inserted : ∀ front between back, text = front ++ back → (∀ c ∈ between.toList, c.toNat ∈ blanks) →
    (decode (front ++ between ++ back)).toOption = (decode text).toOption

theorem readsExactly (text : String) : ReadsExactly text := by
  refine ⟨exists_decode_iff, ?_, ?_, ?_⟩
  · intro content read
    have written := encodeList_of_decodeList (decode_eq_ok_iff.mp read)
    have length := congrArg List.length written
    rw [length_encodeList, List.length_map] at length
    exact ⟨length, congrArg String.ofList written⟩
  · intro refused
    cases read : decode text with
    | ok content => exact absurd ⟨content, read⟩ refused
    | error error =>
      rw [eq_of_decode_eq_error read]
      exact ⟨_, rfl, rfl⟩
  · rintro front between back rfl blank
    rw [toOption_decode, toOption_decode, stripped_append_blanks blank]

/-- Bytes are written in one way, and a text is read just if it is written for some bytes, up to blanks
and the case of its digits. -/
theorem writes_and_reads_exactly :
    (∀ content, decode (encode content) = .ok content) ∧
      (∀ a b, encode a = encode b ↔ (Window.ofBytes a).sameBytes (.ofBytes b) = true) ∧
      (∀ a b, encode a = encode b ↔ a = b) ∧
      ∀ text, ReadsExactly text := by
  refine ⟨decode_encode, ?_, fun a b => encode_inj, readsExactly⟩
  intro a b
  rw [encode_inj, Window.sameBytes_iff, Window.toList_ofBytes, Window.toList_ofBytes, Array.toList_inj]
  exact ⟨congrArg ByteArray.data, ByteArray.ext⟩

end Ber.Hex
