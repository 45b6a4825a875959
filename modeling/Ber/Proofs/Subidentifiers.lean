import Ber.ObjectIdentifier
import Ber.Proofs.PrefixCode
import Ber.Tag

/-!
# Subidentifiers

The content of an object identifier as it is written. A `Subidentifier` is a group of bytes of which all but
the last have the topmost bit set, and its value is the number that they write in base 128; it holds the
proofs of that, so every value of the type is a group that a reader must cut just there. Leading zeros are
allowed, hence one number has many subidentifiers.

Reading undoes writing: a group in front is read as its value, if that is not above `maxExact`
(`subidentifiers_bytes`), and where a row of values was read, it was written as a row of groups
(`exists_groups_of_subidentifiers`). So the contents that are accepted are those of `WellFormed`: not empty, not
cut off inside a group, and without a number above `maxExact`. The first number, which carries the first two
arcs, is held to this bound as it is written. It may be above it where no arc is, so `WellFormed` is
stricter than a bound on the arcs, and only for such first numbers (`wellFormed_iff_smallArcs`).
-/

namespace Ber.ObjectIdentifier

/-! ### Bytes -/

theorem continues_iff (byte : UInt8) : continues byte = true ↔ 0x80 ≤ byte := by
  revert byte
  exact forall_byte (by decide +kernel)

/-- The number that some bytes write in base 128, behind those that write `value`. -/
def ofBase128 (value : Nat) (bytes : List UInt8) : Nat :=
  bytes.foldl (fun value byte => value * 128 + digit byte) value

theorem ofBase128_cons (value : Nat) (byte : UInt8) (bytes : List UInt8) :
    ofBase128 value (byte :: bytes) = ofBase128 (value * 128 + digit byte) bytes := rfl

theorem ofBase128_concat (value : Nat) (bytes : List UInt8) (byte : UInt8) :
    ofBase128 value (bytes ++ [byte]) = ofBase128 value bytes * 128 + digit byte := by
  rw [ofBase128, List.foldl_append]
  rfl

/-- A number only grows with its digits. -/
theorem le_ofBase128 (value : Nat) (bytes : List UInt8) : value ≤ ofBase128 value bytes := by
  induction bytes generalizing value with
  | nil => exact Nat.le_refl value
  | cons byte rest ih =>
    have step := ih (value * 128 + digit byte)
    rw [ofBase128_cons]
    omega

/-! ### Groups of bytes -/

/-- A subidentifier as it is written. -/
structure Subidentifier where
  /-- The bytes that say that another one follows. -/
  more : List UInt8
  last : UInt8
  more_continue : ∀ byte ∈ more, 0x80 ≤ byte
  last_ends : last < 0x80
deriving DecidableEq

namespace Subidentifier

def bytes (x : Subidentifier) : List UInt8 := x.more ++ [x.last]

def value (x : Subidentifier) : Nat := ofBase128 0 x.bytes

/-- The bytes of some subidentifiers, one after the other. -/
def rowBytes (row : List Subidentifier) : List UInt8 := row.flatMap bytes

@[simp] theorem rowBytes_nil : rowBytes [] = [] := rfl

@[simp] theorem rowBytes_cons (x : Subidentifier) (row : List Subidentifier) :
    rowBytes (x :: row) = x.bytes ++ rowBytes row := rfl

/-- Where the bytes that continue end, there the group ends. -/
theorem more_append_inj {more more' : List UInt8} {last last' : UInt8} {s t : List UInt8}
    (more_continue : ∀ byte ∈ more, 0x80 ≤ byte) (more_continue' : ∀ byte ∈ more', 0x80 ≤ byte)
    (ends : last < 0x80) (ends' : last' < 0x80) (h : more ++ last :: s = more' ++ last' :: t) :
    more = more' ∧ last = last' ∧ s = t := by
  induction more generalizing more' with
  | nil =>
    cases more' with
    | nil =>
      obtain ⟨same, rest⟩ := List.cons.inj h
      exact ⟨rfl, same, rest⟩
    | cons byte more' =>
      rw [(List.cons.inj h).1] at ends
      exact absurd ends (UInt8.not_lt.mpr (more_continue' byte List.mem_cons_self))
  | cons byte more ih =>
    cases more' with
    | nil =>
      rw [← (List.cons.inj h).1] at ends'
      exact absurd ends' (UInt8.not_lt.mpr (more_continue byte List.mem_cons_self))
    | cons byte' more' =>
      obtain ⟨same, rest⟩ := List.cons.inj h
      obtain ⟨sameMore, sameLast, sameTail⟩ := ih
        (fun b hb => more_continue b (List.mem_cons_of_mem _ hb))
        (fun b hb => more_continue' b (List.mem_cons_of_mem _ hb)) rest
      exact ⟨by rw [same, sameMore], sameLast, sameTail⟩

/-- A subidentifier tells its own end. -/
theorem append_inj {x y : Subidentifier} {s t : List UInt8} (h : x.bytes ++ s = y.bytes ++ t) :
    x = y ∧ s = t := by
  obtain ⟨more, last, more_continue, ends⟩ := x
  obtain ⟨more', last', more_continue', ends'⟩ := y
  simp only [bytes, List.append_assoc, List.singleton_append] at h
  obtain ⟨rfl, rfl, rfl⟩ := more_append_inj more_continue more_continue' ends ends' h
  exact ⟨rfl, rfl⟩

theorem prefixCode_bytes : PrefixCode bytes :=
  ⟨fun x => List.append_ne_nil_of_right_ne_nil x.more (List.cons_ne_nil _ _), append_inj⟩

/-- A row of subidentifiers is cut in one way only. -/
theorem rowBytes_inj {row row' : List Subidentifier} (h : rowBytes row = rowBytes row') :
    row = row' :=
  prefixCode_bytes.flatMap_inj h

end Subidentifier

open Subidentifier (rowBytes)

/-! ### Reading -/

variable {index : Nat} {begun : Option Nat} {bytes tail : List UInt8} {values : List Nat}

theorem subidentifiers_cons (index : Nat) (begun : Option Nat) (byte : UInt8) (rest : List UInt8) :
    subidentifiers index begun (byte :: rest) =
      let value := begun.getD 0 * 128 + digit byte
      if maxExact < value then .error (.arcTooLarge index)
      else if continues byte then subidentifiers (index + 1) (some value) rest
      else (subidentifiers (index + 1) none rest).map (value :: ·) := rfl

/-- A group in front is read as its value, whatever follows it. -/
theorem subidentifiers_group {more : List UInt8} {last : UInt8} (index : Nat) (begun : Option Nat)
    (tail : List UInt8) (more_continue : ∀ byte ∈ more, 0x80 ≤ byte) (last_ends : last < 0x80)
    (small : ofBase128 (begun.getD 0) (more ++ [last]) ≤ maxExact) :
    subidentifiers index begun (more ++ last :: tail) =
      (subidentifiers (index + more.length + 1) none tail).map
        (ofBase128 (begun.getD 0) (more ++ [last]) :: ·) := by
  induction more generalizing index begun with
  | nil =>
    have ends : ¬ continues last = true := by
      rw [continues_iff]
      exact UInt8.not_le.mpr last_ends
    have small_value : ¬ maxExact < begun.getD 0 * 128 + digit last := Nat.not_lt.mpr small
    rw [List.nil_append, subidentifiers_cons]
    simp only [if_neg small_value, if_neg ends]
    rfl
  | cons byte more ih =>
    have goesOn : continues byte = true :=
      (continues_iff byte).mpr (more_continue byte List.mem_cons_self)
    have small_value : ¬ maxExact < begun.getD 0 * 128 + digit byte :=
      Nat.not_lt.mpr (Nat.le_trans (le_ofBase128 _ (more ++ [last])) small)
    have later := ih (index + 1) (some (begun.getD 0 * 128 + digit byte))
      (fun b hb => more_continue b (List.mem_cons_of_mem _ hb)) small
    rw [List.cons_append, subidentifiers_cons]
    simp only [if_neg small_value, if_pos goesOn]
    rw [later, List.length_cons, Nat.add_right_comm index 1 more.length]
    rfl

/-- A subidentifier in front is read as its value, whatever follows it. -/
theorem subidentifiers_bytes (x : Subidentifier) (index : Nat) (tail : List UInt8)
    (small : x.value ≤ maxExact) :
    subidentifiers index none (x.bytes ++ tail) =
      (subidentifiers (index + x.bytes.length) none tail).map (x.value :: ·) := by
  have read := subidentifiers_group index none tail x.more_continue x.last_ends small
  rw [Subidentifier.bytes, List.append_assoc, List.singleton_append, read, List.length_append]
  rfl

/-- What is read as a row of values is a row of groups. The first of them may go on from what was begun. -/
theorem exists_groups_of_subidentifiers (h : subidentifiers index begun bytes = .ok values)
    (inside : begun = none → bytes ≠ []) :
    ∃ (more : List UInt8) (last : UInt8) (row : List Subidentifier),
      bytes = more ++ last :: rowBytes row ∧ (∀ byte ∈ more, 0x80 ≤ byte) ∧ last < 0x80 ∧
        ofBase128 (begun.getD 0) (more ++ [last]) ≤ maxExact ∧ (∀ x ∈ row, x.value ≤ maxExact) ∧
        values = ofBase128 (begun.getD 0) (more ++ [last]) :: row.map Subidentifier.value := by
  induction bytes generalizing index begun values with
  | nil =>
    cases begun with
    | none => exact absurd rfl (inside rfl)
    | some value => cases h
  | cons byte rest ih =>
    rw [subidentifiers_cons] at h
    dsimp only at h
    split at h
    · cases h
    · next small =>
      have small := Nat.not_lt.mp small
      split at h
      · next goesOn =>
        obtain ⟨more, last, row, rfl, more_continue, ends, small', row_small, rfl⟩ := ih h (by simp)
        refine ⟨byte :: more, last, row, rfl, ?_, ends, small', row_small, rfl⟩
        intro b hb
        rcases List.mem_cons.mp hb with rfl | hb
        · exact (continues_iff b).mp goesOn
        · exact more_continue b hb
      · next stops =>
        have ends : byte < 0x80 := UInt8.not_le.mp fun above => stops ((continues_iff byte).mpr above)
        cases later : subidentifiers (index + 1) none rest with
        | error fault =>
          rw [later] at h
          cases h
        | ok values' =>
          rw [later] at h
          cases h
          by_cases empty : rest = []
          · subst empty
            cases later
            exact ⟨[], byte, [], rfl, by simp, ends, small, by simp, rfl⟩
          · obtain ⟨more, last, row, rfl, more_continue, ends', small', row_small, rfl⟩ :=
              ih later fun _ => empty
            refine ⟨[], byte, ⟨more, last, more_continue, ends'⟩ :: row, ?_, by simp, ends, small, ?_, rfl⟩
            · simp [Subidentifier.bytes]
            · intro x hx
              rcases List.mem_cons.mp hx with rfl | hx
              · exact small'
              · exact row_small x hx

/-- Reading succeeds just where a row of groups stands, none of them above `maxExact`. -/
theorem subidentifiers_eq_ok_iff :
    subidentifiers index none bytes = .ok values ↔
      ∃ row, bytes = rowBytes row ∧ (∀ x ∈ row, x.value ≤ maxExact) ∧
        values = row.map Subidentifier.value := by
  constructor
  · intro h
    by_cases empty : bytes = []
    · subst empty
      cases h
      exact ⟨[], rfl, by simp, rfl⟩
    · obtain ⟨more, last, row, rfl, more_continue, ends, small, row_small, rfl⟩ :=
        exists_groups_of_subidentifiers h fun _ => empty
      refine ⟨⟨more, last, more_continue, ends⟩ :: row, by simp [Subidentifier.bytes], ?_, rfl⟩
      intro x hx
      rcases List.mem_cons.mp hx with rfl | hx
      · exact small
      · exact row_small x hx
  · rintro ⟨row, rfl, small, rfl⟩
    induction row generalizing index with
    | nil => rfl
    | cons x row ih =>
      have rest := @ih (index + x.bytes.length) fun y hy => small y (List.mem_cons_of_mem _ hy)
      rw [Subidentifier.rowBytes_cons, subidentifiers_bytes x index _ (small x List.mem_cons_self), rest]
      rfl

/-! ### Well-formed contents -/

/-- The content of an object identifier that is in order. -/
structure WellFormed (content : List UInt8) : Prop where
  nonempty : content ≠ []
  /-- The content does not end inside a subidentifier. -/
  complete : ∃ row, content = rowBytes row
  /-- No number in it is above `maxExact`, the first two arcs counted as the one number that they are
  written as. -/
  bounded : ∀ row, content = rowBytes row → ∀ x ∈ row, x.value ≤ maxExact

/-- The contents that are decoded are rows of groups, and the arcs are those of their values. -/
theorem decode_eq_ok_iff {content : ByteArray} {oid : ObjectIdentifier} :
    decode content = .ok oid ↔
      content.data.toList ≠ [] ∧ ∃ row, content.data.toList = rowBytes row ∧
        (∀ x ∈ row, x.value ≤ maxExact) ∧ oid = ⟨arcsOf (row.map Subidentifier.value)⟩ := by
  have size : content.size = content.data.toList.length := rfl
  rw [decode, size]
  constructor
  · intro h
    split at h
    · cases h
    · next size_ne_zero =>
      cases read : subidentifiers 0 none content.data.toList with
      | error fault =>
        rw [read] at h
        cases h
      | ok values =>
        rw [read] at h
        cases h
        obtain ⟨row, cut, small, rfl⟩ := subidentifiers_eq_ok_iff.mp read
        exact ⟨fun empty => size_ne_zero (by rw [empty]; rfl), row, cut, small, rfl⟩
  · rintro ⟨nonempty, row, cut, small, rfl⟩
    have length_ne_zero : ¬ content.data.toList.length = 0 := fun empty =>
      nonempty (List.eq_nil_of_length_eq_zero empty)
    rw [if_neg length_ne_zero, subidentifiers_eq_ok_iff.mpr ⟨row, cut, small, rfl⟩]
    rfl

theorem exists_decode_iff_wellFormed {content : ByteArray} :
    (∃ oid, decode content = .ok oid) ↔ WellFormed content.data.toList := by
  constructor
  · rintro ⟨oid, h⟩
    obtain ⟨nonempty, row, cut, small, -⟩ := decode_eq_ok_iff.mp h
    refine ⟨nonempty, ⟨row, cut⟩, ?_⟩
    intro other cut'
    rw [Subidentifier.rowBytes_inj (cut'.symm.trans cut)]
    exact small
  · rintro ⟨nonempty, ⟨row, cut⟩, bounded⟩
    exact ⟨_, decode_eq_ok_iff.mpr ⟨nonempty, row, cut, bounded row cut, rfl⟩⟩

/-! ### Arcs -/

/-- The content is not empty and not cut off, and no arc that it carries is above `maxExact`. -/
structure SmallArcs (content : List UInt8) : Prop where
  nonempty : content ≠ []
  small : ∃ row, content = rowBytes row ∧
    ∀ arc ∈ arcsOf (row.map Subidentifier.value), arc ≤ maxExact

/-- The second arc is at most the number that it is written in. -/
theorem le_of_mem_firstArcs {value arc : Nat} (mem : arc ∈ firstArcs value) : arc ≤ 2 ∨ arc ≤ value := by
  rw [firstArcs] at mem
  split at mem
  · simp at mem
    omega
  · split at mem
    · simp at mem
      omega
    · simp at mem
      omega

theorem le_maxExact_of_mem_arcsOf (small : ∀ value ∈ values, value ≤ maxExact) :
    ∀ arc ∈ arcsOf values, arc ≤ maxExact := by
  cases values with
  | nil => exact small
  | cons first rest =>
    intro arc mem
    rcases List.mem_append.mp mem with mem | mem
    · rcases le_of_mem_firstArcs mem with few | le
      · exact Nat.le_trans few (by decide)
      · exact Nat.le_trans le (small first List.mem_cons_self)
    · exact small arc (List.mem_cons_of_mem _ mem)

theorem WellFormed.smallArcs {content : List UInt8} (h : WellFormed content) : SmallArcs content := by
  obtain ⟨row, cut⟩ := h.complete
  refine ⟨h.nonempty, row, cut, le_maxExact_of_mem_arcsOf ?_⟩
  intro value written
  obtain ⟨x, mem, rfl⟩ := List.mem_map.mp written
  exact h.bounded row cut x mem

/-- What the bound on numbers refuses besides is a first number that is above it though its arcs are not. -/
theorem wellFormed_iff_smallArcs {content : List UInt8} :
    WellFormed content ↔ SmallArcs content ∧
      ∀ first rest, content = rowBytes (first :: rest) → first.value ≤ maxExact := by
  constructor
  · intro h
    refine ⟨h.smallArcs, ?_⟩
    intro first rest cut
    exact h.bounded _ cut first List.mem_cons_self
  · rintro ⟨⟨nonempty, row, cut, small⟩, first_small⟩
    refine ⟨nonempty, ⟨row, cut⟩, ?_⟩
    intro row' cut' x mem
    obtain rfl := Subidentifier.rowBytes_inj (cut.symm.trans cut')
    cases row with
    | nil => cases mem
    | cons first rest =>
      rcases List.mem_cons.mp mem with rfl | later
      · exact first_small x rest cut
      · -- each number behind the first is an arc
        have arc : x.value ∈ arcsOf ((first :: rest).map Subidentifier.value) :=
          List.mem_append_right _ (List.mem_map_of_mem later)
        exact small x.value arc

end Ber.ObjectIdentifier
