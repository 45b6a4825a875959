import Mathlib.Data.List.Forall2
import Ber.Proofs.FirstFault

/-!
# Writing arcs

The arcs that can be written are those of `Arcs`. The first two are written as one number and every further
one as it is, and a number is written in base 128 behind any number of zeros, so some arcs have many
encodings (`Arcs.WrittenAs`), but only one without zeros (`Arcs.shortest`).

A group is the shortest one for its value with zeros in front (`Subidentifier.exists_eq_padded`). Hence with
the zeros left out a group is told by its value, and a content by its arcs (`Arcs.WrittenAs.withoutZeros_eq`).
On the other side a text is cut at its dots, which no number has in it, so it is told by its arcs as well
(`text_inj`). `ReadsBackArcs` puts the two together: what is shown is what was written, and two contents are
shown alike just if they differ in zeros only.
-/

namespace Ber.ObjectIdentifier

open Subidentifier (rowBytes)

/-! ### The shortest group for a number -/

theorem digit_eq (byte : UInt8) : digit byte = byte.toNat % 128 := by
  revert byte
  exact forall_byte (by decide +kernel)

theorem digit_lt (byte : UInt8) : digit byte < 128 := by
  rw [digit_eq]
  exact Nat.mod_lt _ (by decide)

/-- A digit that another one follows. -/
def continuing (n : Nat) : UInt8 := UInt8.ofNat (0x80 + n)

theorem toNat_continuing {n : Nat} (small : n < 128) : (continuing n).toNat = 0x80 + n := by
  rw [continuing, UInt8.toNat_ofNat']
  omega

theorem digit_continuing {n : Nat} (small : n < 128) : digit (continuing n) = n := by
  rw [digit_eq, toNat_continuing small]
  omega

/-- A byte that continues is told by its digit. -/
theorem continuing_digit {byte : UInt8} (goesOn : 0x80 ≤ byte) : continuing (digit byte) = byte := by
  have above : 0x80 ≤ byte.toNat := UInt8.le_iff_toNat_le.mp goesOn
  have small := byte.toNat_lt
  apply UInt8.toNat_inj.mp
  rw [digit_eq, toNat_continuing (Nat.mod_lt _ (by decide))]
  omega

/-- The digits of a number, without zeros in front, as they are written if further digits follow. -/
def leading (value : Nat) : List UInt8 :=
  if value = 0 then [] else leading (value / 128) ++ [continuing (value % 128)]
termination_by value

theorem leading_zero : leading 0 = [] := by
  rw [leading, if_pos rfl]

theorem leading_of_ne_zero {value : Nat} (nonzero : value ≠ 0) :
    leading value = leading (value / 128) ++ [continuing (value % 128)] := by
  rw [leading, if_neg nonzero]

theorem leading_continue (value : Nat) : ∀ byte ∈ leading value, 0x80 ≤ byte := by
  fun_induction leading value with
  | case1 => simp
  | case2 value nonzero ih =>
    have small : value % 128 < 128 := Nat.mod_lt _ (by decide)
    have goesOn : 0x80 ≤ continuing (value % 128) := by
      rw [UInt8.le_iff_toNat_le, toNat_continuing small]
      exact Nat.le_add_right _ _
    simpa [or_imp, forall_and] using ⟨ih, goesOn⟩

theorem ofBase128_leading (value : Nat) : ofBase128 0 (leading value) = value := by
  fun_induction leading value with
  | case1 => rfl
  | case2 value nonzero ih =>
    rw [ofBase128_concat, ih, digit_continuing (Nat.mod_lt _ (by decide))]
    omega

theorem head?_leading_ne_zero (value : Nat) : (leading value).head? ≠ some 0x80 := by
  fun_induction leading value with
  | case1 => simp
  | case2 value nonzero ih =>
    by_cases single : value / 128 = 0
    · have digit_behind : (continuing (value % 128)).toNat ≠ 0x80 := by
        rw [toNat_continuing (Nat.mod_lt _ (by decide))]
        omega
      rw [single, leading_zero]
      intro zero
      exact digit_behind (congrArg UInt8.toNat (Option.some.inj zero))
    · have front : leading (value / 128) ≠ [] := by
        rw [leading_of_ne_zero single]
        exact List.concat_ne_nil _ _
      rwa [List.head?_append_of_ne_nil _ front]

/-- One more digit, if it is not a zero in front. -/
theorem leading_mul_add {value d : Nat} (small : d < 128) (nonzero : value * 128 + d ≠ 0) :
    leading (value * 128 + d) = leading value ++ [continuing d] := by
  have rest : (value * 128 + d) / 128 = value := by omega
  have last : (value * 128 + d) % 128 = d := by omega
  rw [leading_of_ne_zero nonzero, rest, last]

/-- Bytes that continue are the digits of their number behind some zeros. -/
theorem exists_eq_replicate_append_leading {more : List UInt8}
    (more_continue : ∀ byte ∈ more, 0x80 ≤ byte) :
    ∃ zeros, more = List.replicate zeros 0x80 ++ leading (ofBase128 0 more) := by
  -- From the end, since it is the last digit that the division by 128 takes off.
  induction more using List.reverseRecOn with
  | nil => exact ⟨0, leading_zero.symm⟩
  | append_singleton more byte ih =>
    simp only [List.mem_append, List.mem_singleton, or_imp, forall_and, forall_eq] at more_continue
    obtain ⟨more_continue, goesOn⟩ := more_continue
    obtain ⟨zeros, split⟩ := ih more_continue
    by_cases zero : ofBase128 0 more * 128 + digit byte = 0
    · have no_digits : ofBase128 0 more = 0 := by omega
      have zero_byte : byte = 0x80 := by
        rw [← continuing_digit goesOn, show digit byte = 0 by omega]
        rfl
      refine ⟨zeros + 1, ?_⟩
      rw [no_digits, leading_zero, List.append_nil] at split
      rw [ofBase128_concat, zero, leading_zero, List.append_nil, List.replicate_succ', ← split, zero_byte]
    · refine ⟨zeros, ?_⟩
      rw [ofBase128_concat, leading_mul_add (digit_lt byte) zero, ← List.append_assoc, ← split,
        continuing_digit goesOn]

namespace Subidentifier

/-- The shortest group for a number. -/
def ofNat (value : Nat) : Subidentifier :=
  ⟨leading (value / 128), UInt8.ofNat (value % 128), leading_continue _, by
    rw [UInt8.lt_iff_toNat_lt, UInt8.toNat_ofNat']
    show value % 128 % 256 < 128
    omega⟩

theorem value_ofNat (value : Nat) : (ofNat value).value = value := by
  have last : digit (UInt8.ofNat (value % 128)) = value % 128 := by
    rw [digit_eq, UInt8.toNat_ofNat']
    omega
  calc (ofNat value).value
      = ofBase128 0 (leading (value / 128)) * 128 + digit (UInt8.ofNat (value % 128)) :=
        ofBase128_concat 0 _ _
    _ = value / 128 * 128 + value % 128 := by rw [ofBase128_leading, last]
    _ = value := Nat.div_add_mod' value 128

/-- A group is the shortest one for its value, behind some zeros. -/
theorem exists_eq_padded (x : Subidentifier) : ∃ zeros, x = (ofNat x.value).padded zeros := by
  obtain ⟨zeros, split⟩ := exists_eq_replicate_append_leading x.more_continue
  have value_eq : x.value = ofBase128 0 x.more * 128 + digit x.last := ofBase128_concat 0 _ _
  have front : x.value / 128 = ofBase128 0 x.more := by
    have small := digit_lt x.last
    omega
  have last : UInt8.ofNat (x.value % 128) = x.last := by
    have ends : x.last.toNat < 128 := UInt8.lt_iff_toNat_lt.mp x.last_ends
    have same : x.value % 128 = x.last.toNat := by
      rw [value_eq, digit_eq]
      omega
    rw [same, UInt8.ofNat_toNat]
  refine ⟨zeros, ?_⟩
  obtain ⟨more, final, more_continue, last_ends⟩ := x
  simp only [padded, ofNat, front, last, ← split]

/-- The group writes the number, behind any number of zeros. -/
def Writes (x : Subidentifier) (value : Nat) : Prop := ∃ zeros, x = (ofNat value).padded zeros

theorem writes_iff {x : Subidentifier} {value : Nat} : x.Writes value ↔ x.value = value := by
  constructor
  · rintro ⟨zeros, rfl⟩
    rw [value_padded, value_ofNat]
  · rintro rfl
    exact exists_eq_padded x

/-- No zero stands in front. -/
def Minimal (x : Subidentifier) : Prop := x.more.head? ≠ some 0x80

/-- The group without the zeros in front. -/
def trimmed (x : Subidentifier) : Subidentifier :=
  ⟨x.more.dropWhile (· == 0x80), x.last,
    fun byte mem => x.more_continue byte (List.dropWhile_sublist _ |>.mem mem), x.last_ends⟩

theorem minimal_ofNat (value : Nat) : (ofNat value).Minimal := head?_leading_ne_zero (value / 128)

theorem trimmed_of_minimal {x : Subidentifier} (minimal : x.Minimal) : x.trimmed = x := by
  obtain ⟨more, last, more_continue, last_ends⟩ := x
  suffices more.dropWhile (· == 0x80) = more by simp only [trimmed, this]
  cases more with
  | nil => rfl
  | cons byte more =>
    have nonzero : byte ≠ 0x80 := fun zero => minimal (congrArg some zero)
    exact List.dropWhile_cons_of_neg (by simpa using nonzero)

theorem trimmed_padded (x : Subidentifier) (zeros : Nat) : (x.padded zeros).trimmed = x.trimmed := by
  have same : (List.replicate zeros 0x80 ++ x.more).dropWhile (· == 0x80) =
      x.more.dropWhile (· == 0x80) := by
    apply List.dropWhile_append_of_pos
    intro byte zero
    rw [List.eq_of_mem_replicate zero]
    rfl
  simp only [trimmed, padded, same]

/-- Without zeros in front a group is told by its value. -/
theorem trimmed_eq (x : Subidentifier) : x.trimmed = ofNat x.value := by
  obtain ⟨zeros, padding⟩ := exists_eq_padded x
  calc x.trimmed = ((ofNat x.value).padded zeros).trimmed := congrArg trimmed padding
    _ = (ofNat x.value).trimmed := trimmed_padded _ _
    _ = ofNat x.value := trimmed_of_minimal (minimal_ofNat _)

end Subidentifier

/-! ### Arcs that can be written -/

/-- Arcs that can be written, and as numbers of which none is above `maxExact`. -/
structure Arcs where
  root : Nat
  second : Nat
  later : List Nat
  root_le : root ≤ 2
  second_le : root < 2 → second ≤ 39
  /-- The first two arcs are bounded as the one number that they are written as. -/
  first_small : 40 * root + second ≤ maxExact
  later_small : ∀ arc ∈ later, arc ≤ maxExact

namespace Arcs

variable {arcs arcs' : Arcs} {bytes : List UInt8} {values : List Nat}

def oid (arcs : Arcs) : ObjectIdentifier := ⟨arcs.root :: arcs.second :: arcs.later⟩

/-- The numbers that the arcs are written as. -/
def numbers (arcs : Arcs) : List Nat := (40 * arcs.root + arcs.second) :: arcs.later

/-- The bytes are an encoding of the arcs, one group for each number, with any zeros in front of it. -/
def WrittenAs (arcs : Arcs) (bytes : List UInt8) : Prop :=
  ∃ row, List.Forall₂ Subidentifier.Writes row arcs.numbers ∧ bytes = rowBytes row

/-- The encoding without zeros. -/
def shortest (arcs : Arcs) : List UInt8 := rowBytes (arcs.numbers.map Subidentifier.ofNat)

theorem oid_inj (same : arcs.oid = arcs'.oid) : arcs = arcs' := by
  obtain ⟨root, second, later, _, _, _, _⟩ := arcs
  obtain ⟨root', second', later', _, _, _, _⟩ := arcs'
  simp only [oid, ObjectIdentifier.mk.injEq, List.cons.injEq] at same
  obtain ⟨rfl, rfl, rfl⟩ := same
  rfl

/-- The first number tells the two arcs in it. -/
theorem numbers_inj (same : arcs.numbers = arcs'.numbers) : arcs = arcs' := by
  obtain ⟨first, later⟩ := List.cons.inj same
  have root_le := arcs.root_le
  have root_le' := arcs'.root_le
  have second_le := arcs.second_le
  have second_le' := arcs'.second_le
  -- the root first, since it is 0, 1 or 2 as the number is below 40, below 80 or neither
  have same_root : arcs.root = arcs'.root := by omega
  have same_second : arcs.second = arcs'.second := by omega
  apply oid_inj
  rw [oid, oid, same_root, same_second, later]

theorem numbers_small (arcs : Arcs) : ∀ number ∈ arcs.numbers, number ≤ maxExact :=
  List.forall_mem_cons.mpr ⟨arcs.first_small, arcs.later_small⟩

theorem arcsOf_numbers (arcs : Arcs) : arcsOf arcs.numbers = arcs.oid.arcs := by
  obtain ⟨root, second, later, root_le, second_le, _, _⟩ := arcs
  have first : firstArcs (40 * root + second) = [root, second] := by
    rw [firstArcs]
    split
    · rw [show root = 0 by omega, Nat.mul_zero, Nat.zero_add]
    · split
      · rw [show root = 1 by omega, Nat.mul_one, Nat.add_sub_cancel_left]
      · rw [show root = 2 by omega, Nat.add_sub_cancel_left]
  exact congrArg (· ++ later) first

/-- All numbers that are not too large are numbers of some arcs. -/
theorem exists_numbers_eq (nonempty : values ≠ []) (small : ∀ value ∈ values, value ≤ maxExact) :
    ∃ arcs : Arcs, arcs.numbers = values := by
  obtain ⟨first, later, rfl⟩ := List.exists_cons_of_ne_nil nonempty
  obtain ⟨first_small, later_small⟩ := List.forall_mem_cons.mp small
  -- The root is as large as it may be, hence the second arc below 40 unless the root is 2.
  let root := min (first / 40) 2
  have split : 40 * root + (first - 40 * root) = first := by omega
  refine ⟨⟨root, first - 40 * root, later, by omega, by omega, ?_, later_small⟩, ?_⟩
  · rwa [split]
  · show (40 * root + (first - 40 * root)) :: later = first :: later
    rw [split]

/-! ### Encodings -/

theorem writtenAs_iff :
    arcs.WrittenAs bytes ↔ ∃ row, bytes = rowBytes row ∧ row.map Subidentifier.value = arcs.numbers := by
  have writes : Subidentifier.Writes = fun x value => x.value = value :=
    funext₂ fun _ _ => propext Subidentifier.writes_iff
  have values (row : List Subidentifier) :
      List.Forall₂ Subidentifier.Writes row arcs.numbers ↔ row.map Subidentifier.value = arcs.numbers := by
    rw [writes, ← List.forall₂_map_left_iff, List.forall₂_eq_eq_eq]
  simp only [WrittenAs, values, and_comm]

theorem writtenAs_shortest (arcs : Arcs) : arcs.WrittenAs arcs.shortest := by
  have values : (arcs.numbers.map Subidentifier.ofNat).map Subidentifier.value = arcs.numbers := by
    simp only [List.map_map, Function.comp_def, Subidentifier.value_ofNat, List.map_id']
  exact writtenAs_iff.mpr ⟨_, rfl, values⟩

/-- Bytes encode one list of arcs only. -/
theorem WrittenAs.unique (written : arcs.WrittenAs bytes) (written' : arcs'.WrittenAs bytes) :
    arcs = arcs' := by
  obtain ⟨row, cut, values⟩ := writtenAs_iff.mp written
  obtain ⟨row', cut', values'⟩ := writtenAs_iff.mp written'
  obtain rfl := Subidentifier.rowBytes_inj (cut.symm.trans cut')
  exact numbers_inj (values.symm.trans values')

theorem shortest_inj : arcs.shortest = arcs'.shortest ↔ arcs = arcs' := by
  constructor
  · intro same
    have written : arcs'.WrittenAs arcs.shortest := by
      rw [same]
      exact arcs'.writtenAs_shortest
    exact arcs.writtenAs_shortest.unique written
  · exact congrArg shortest

end Arcs

/-- The contents that are decoded are the encodings of arcs. -/
theorem decode_eq_ok_iff_writtenAs {content : ByteArray} {oid : ObjectIdentifier} :
    decode content = .ok oid ↔ ∃ arcs : Arcs, arcs.WrittenAs content.data.toList ∧ oid = arcs.oid := by
  constructor
  · intro decoded
    obtain ⟨-, row, cut, -⟩ := decode_eq_ok_iff.mp decoded
    obtain ⟨nonempty, small, rfl⟩ := (decode_eq_ok_iff_of_row cut).mp decoded
    obtain ⟨arcs, numbers⟩ := Arcs.exists_numbers_eq nonempty small
    refine ⟨arcs, Arcs.writtenAs_iff.mpr ⟨row, cut, numbers.symm⟩, ?_⟩
    rw [← numbers, arcs.arcsOf_numbers]
  · rintro ⟨arcs, written, rfl⟩
    obtain ⟨row, cut, values⟩ := Arcs.writtenAs_iff.mp written
    rw [decode_eq_ok_iff_of_row cut, values]
    exact ⟨List.cons_ne_nil _ _, arcs.numbers_small, by rw [arcs.arcsOf_numbers]⟩

/-! ### Leaving zeros out -/

/-- The cut with the zeros in front of its groups left out. -/
def Cut.trimmed (cut : Cut) : Cut := { cut with closed := cut.closed.map Subidentifier.trimmed }

/-- The bytes with the zeros in front of their groups left out. -/
def withoutZeros (bytes : List UInt8) : List UInt8 := (Cut.ofBytes bytes).trimmed.bytes

/-- No zero stands in front of a group. -/
def Minimal (bytes : List UInt8) : Prop := ∀ x ∈ (Cut.ofBytes bytes).closed, x.Minimal

theorem ofBytes_rowBytes (row : List Subidentifier) : Cut.ofBytes (rowBytes row) = ⟨row, [], by simp⟩ := by
  apply Cut.bytes_inj
  rw [Cut.bytes_ofBytes, Cut.bytes, List.append_nil]

theorem withoutZeros_of_minimal {bytes : List UInt8} (minimal : Minimal bytes) :
    withoutZeros bytes = bytes := by
  have same : (Cut.ofBytes bytes).closed.map Subidentifier.trimmed = (Cut.ofBytes bytes).closed := by
    rw [List.map_congr_left fun x mem => Subidentifier.trimmed_of_minimal (minimal x mem), List.map_id']
  rw [withoutZeros, Cut.trimmed, same]
  exact Cut.bytes_ofBytes bytes

/-- With the zeros left out, all encodings of the arcs are the same. -/
theorem Arcs.WrittenAs.withoutZeros_eq {arcs : Arcs} {bytes : List UInt8} (written : arcs.WrittenAs bytes) :
    withoutZeros bytes = arcs.shortest := by
  obtain ⟨row, rfl, values⟩ := Arcs.writtenAs_iff.mp written
  rw [withoutZeros, ofBytes_rowBytes, Cut.trimmed, Cut.bytes, List.append_nil, Arcs.shortest, ← values,
    List.map_map]
  exact congrArg rowBytes (List.map_congr_left fun x _ => x.trimmed_eq)

/-- A group keeps its last byte, also where the number is zero. -/
example : withoutZeros [0x80, 0x2a, 0x80, 0x80, 0x00] = [0x2a, 0x00] := by decide

theorem Arcs.minimal_shortest (arcs : Arcs) : Minimal arcs.shortest := by
  rw [Minimal, Arcs.shortest, ofBytes_rowBytes]
  intro x mem
  obtain ⟨value, -, rfl⟩ := List.mem_map.mp mem
  exact Subidentifier.minimal_ofNat value

theorem Arcs.WrittenAs.eq_shortest_of_minimal {arcs : Arcs} {bytes : List UInt8}
    (written : arcs.WrittenAs bytes) (minimal : Minimal bytes) : bytes = arcs.shortest := by
  rw [← written.withoutZeros_eq, withoutZeros_of_minimal minimal]

/-! ### Texts -/

theorem dot_not_mem_toDigits (n : Nat) : '.' ∉ Nat.toDigits 10 n := fun mem =>
  absurd (Nat.isDigit_of_mem_toDigits (by decide) (by decide) mem) (by decide)

/-- A text is cut at its dots into the digits of the arcs. -/
theorem splitOn_toList_text {oid : ObjectIdentifier} (nonempty : oid.arcs ≠ []) :
    oid.text.toList.splitOn '.' = oid.arcs.map (Nat.toDigits 10) := by
  have digits : (oid.arcs.map toString).map String.toList = oid.arcs.map (Nat.toDigits 10) := by
    simp only [List.map_map, Function.comp_def, Nat.toString_eq_repr, Nat.toList_repr]
  rw [text, String.toList_intercalate, digits]
  apply List.splitOn_intercalate
  · intro part mem
    obtain ⟨n, -, rfl⟩ := List.mem_map.mp mem
    exact dot_not_mem_toDigits n
  · simpa using nonempty

theorem text_inj {oid oid' : ObjectIdentifier} (nonempty : oid.arcs ≠ []) (nonempty' : oid'.arcs ≠ [])
    (same : oid.text = oid'.text) : oid = oid' := by
  have number (n : Nat) : Nat.ofDigitChars 10 (Nat.toDigits 10 n) 0 = n :=
    Nat.ofDigitChars_toDigits (by decide) (by decide)
  have injective : Function.Injective (Nat.toDigits 10) := Function.LeftInverse.injective number
  have digits : oid.arcs.map (Nat.toDigits 10) = oid'.arcs.map (Nat.toDigits 10) := by
    rw [← splitOn_toList_text nonempty, ← splitOn_toList_text nonempty', same]
  obtain ⟨arcs⟩ := oid
  obtain ⟨arcs'⟩ := oid'
  exact congrArg ObjectIdentifier.mk (injective.list_map digits)

theorem Arcs.text_inj {arcs arcs' : Arcs} : arcs.oid.text = arcs'.oid.text ↔ arcs = arcs' := by
  constructor
  · intro same
    exact oid_inj (ObjectIdentifier.text_inj (List.cons_ne_nil _ _) (List.cons_ne_nil _ _) same)
  · rintro rfl
    rfl

/-- The contents that are shown are the encodings of arcs, and the arcs are shown. -/
theorem render_eq_ok_iff_writtenAs {content : ByteArray} {shown : String} :
    render content = .ok shown ↔
      ∃ arcs : Arcs, arcs.WrittenAs content.data.toList ∧ arcs.oid.text = shown := by
  rw [render_eq_ok_iff]
  constructor
  · rintro ⟨oid, decoded, rfl⟩
    obtain ⟨arcs, written, rfl⟩ := decode_eq_ok_iff_writtenAs.mp decoded
    exact ⟨arcs, written, rfl⟩
  · rintro ⟨arcs, written, rfl⟩
    exact ⟨arcs.oid, decode_eq_ok_iff_writtenAs.mpr ⟨arcs, written, rfl⟩, rfl⟩

/-! ### What was written is shown -/

/-- Contents are shown as the arcs that they encode, and as no others. -/
structure ReadsBackArcs : Prop where
  /-- Whatever zeros stand in an encoding, its arcs are shown. -/
  written : ∀ (arcs : Arcs) (content : ByteArray), arcs.WrittenAs content.data.toList →
    render content = .ok arcs.oid.text
  /-- What is shown was written, and is an encoding of no other arcs. -/
  read : ∀ (content : ByteArray) (shown : String), render content = .ok shown →
    ∃! arcs : Arcs, arcs.WrittenAs content.data.toList
  /-- Two contents are shown alike just if they differ only in zeros. -/
  alike : ∀ (content content' : ByteArray) (shown shown' : String),
    render content = .ok shown → render content' = .ok shown' →
    (shown = shown' ↔ withoutZeros content.data.toList = withoutZeros content'.data.toList)
  /-- Without zeros no two contents are shown alike. -/
  apart : ∀ (content content' : ByteArray) (shown : String), Minimal content.data.toList →
    Minimal content'.data.toList → render content = .ok shown → render content' = .ok shown →
    content = content'
  /-- All arcs have an encoding without zeros, and just one. -/
  minimal : ∀ arcs : Arcs, ∃! bytes, arcs.WrittenAs bytes ∧ Minimal bytes

/-- Whatever encoding of some arcs is read, just these arcs are shown. -/
theorem reads_back_arcs : ReadsBackArcs := by
  refine ⟨?_, ?_, ?_, ?_, ?_⟩
  · intro arcs content written
    exact render_eq_ok_iff_writtenAs.mpr ⟨arcs, written, rfl⟩
  · intro content shown rendered
    obtain ⟨arcs, written, -⟩ := render_eq_ok_iff_writtenAs.mp rendered
    exact ⟨arcs, written, fun other written' => written'.unique written⟩
  · intro content content' shown shown' rendered rendered'
    obtain ⟨arcs, written, rfl⟩ := render_eq_ok_iff_writtenAs.mp rendered
    obtain ⟨arcs', written', rfl⟩ := render_eq_ok_iff_writtenAs.mp rendered'
    calc arcs.oid.text = arcs'.oid.text
      _ ↔ arcs = arcs' := Arcs.text_inj
      _ ↔ arcs.shortest = arcs'.shortest := Arcs.shortest_inj.symm
      _ ↔ withoutZeros content.data.toList = withoutZeros content'.data.toList := by
        rw [written.withoutZeros_eq, written'.withoutZeros_eq]
  · intro content content' shown minimal minimal' rendered rendered'
    obtain ⟨arcs, written, rfl⟩ := render_eq_ok_iff_writtenAs.mp rendered
    obtain ⟨arcs', written', same⟩ := render_eq_ok_iff_writtenAs.mp rendered'
    obtain rfl := Arcs.text_inj.mp same
    have same_bytes : content.data.toList = content'.data.toList := by
      rw [written.eq_shortest_of_minimal minimal, written'.eq_shortest_of_minimal minimal']
    exact ByteArray.ext (Array.toList_inj.mp same_bytes)
  · intro arcs
    refine ⟨arcs.shortest, ⟨arcs.writtenAs_shortest, arcs.minimal_shortest⟩, ?_⟩
    rintro bytes ⟨written, minimal⟩
    exact written.eq_shortest_of_minimal minimal

end Ber.ObjectIdentifier
