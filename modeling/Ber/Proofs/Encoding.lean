import Ber.Element
import Ber.Proofs.PrefixCode

/-!
# Encodings

Elements as they are written, the other side of reading them. A `LengthForm` is one way to write a
length, and an `Encoding` an element with the form of its length field and its content; both hold the
proofs that make them well formed, so every value of these types is one that a reader must accept.
The long form allows leading zeros and no octets at all, hence one element has many encodings.

The code is prefix free: whoever knows where an encoding begins knows where it ends, whatever follows
it (`Encoding.append_inj`). A row of encodings is therefore cut in one way only
(`Encoding.rowBytes_inj`).
-/

namespace Ber

/-- One way to write the length of an element. -/
inductive LengthForm where
  /-- One octet, the length itself. -/
  | short (value : Nat) (small : value < 128)
  /-- An octet that announces how many follow, and these, the length in base 256. -/
  | long (digits : List UInt8) (few : digits.length < lengthWordBytes)
      (bounded : ofBigEndian digits ≤ maxExact)
deriving DecidableEq

namespace LengthForm

/-- The length that is written. -/
def length : LengthForm → Nat
  | short value _ => value
  | long digits _ _ => ofBigEndian digits

/-- The octets of the length field. -/
def octets : LengthForm → List UInt8
  | short value _ => [UInt8.ofNat value]
  | long digits _ _ => (LengthField.longForm ||| UInt8.ofNat digits.length) :: digits

theorem octets_ne_nil (form : LengthForm) : form.octets ≠ [] := by
  cases form <;> simp [octets]

theorem one_le_length_octets (form : LengthForm) : 1 ≤ form.octets.length :=
  List.length_pos_iff.mpr form.octets_ne_nil

/-- The first octet of a long form holds the number of those that follow. -/
theorem toNat_longForm_or {count : Nat} (h : count < 128) :
    (LengthField.longForm ||| UInt8.ofNat count).toNat = 128 + count := by
  have all : ∀ n : Fin 128, (LengthField.longForm ||| UInt8.ofNat n).toNat = 128 + n := by decide
  exact all ⟨count, h⟩

theorem toNat_ofNat_small {value : Nat} (h : value < 128) : (UInt8.ofNat value).toNat = value :=
  UInt8.toNat_ofNat_of_lt' (Nat.lt_trans h (by decide))

/-- A length field tells its own end. -/
theorem append_inj {f g : LengthForm} {s t : List UInt8} (h : f.octets ++ s = g.octets ++ t) :
    f = g ∧ s = t := by
  cases f with
  | short value small =>
    cases g with
    | short value' small' =>
      obtain ⟨first, rest⟩ := List.cons.inj h
      have same := congrArg UInt8.toNat first
      rw [toNat_ofNat_small small, toNat_ofNat_small small'] at same
      subst same
      exact ⟨rfl, rest⟩
    | long digits' few' bounded' =>
      have first := congrArg UInt8.toNat (List.cons.inj h).1
      rw [toNat_ofNat_small small, toNat_longForm_or (by unfold lengthWordBytes at few'; omega)]
        at first
      omega
  | long digits few bounded =>
    cases g with
    | short value' small' =>
      have first := congrArg UInt8.toNat (List.cons.inj h).1
      rw [toNat_ofNat_small small', toNat_longForm_or (by unfold lengthWordBytes at few; omega)]
        at first
      omega
    | long digits' few' bounded' =>
      obtain ⟨first, rest⟩ := List.cons.inj h
      have count := congrArg UInt8.toNat first
      rw [toNat_longForm_or (by unfold lengthWordBytes at few; omega),
        toNat_longForm_or (by unfold lengthWordBytes at few'; omega)] at count
      obtain ⟨same, tail⟩ := List.append_inj rest (by omega)
      subst same
      exact ⟨rfl, tail⟩

end LengthForm

/-- An element as it is written. -/
structure Encoding where
  tag : Tag
  form : LengthForm
  content : List UInt8
  /-- The content is as long as the length field says. -/
  complete : content.length = form.length
deriving DecidableEq

namespace Encoding

def bytes (x : Encoding) : List UInt8 := x.tag :: (x.form.octets ++ x.content)

/-- The length of the tag and the length field. -/
def headerLength (x : Encoding) : Nat := 1 + x.form.octets.length

def header (x : Encoding) : Header := ⟨x.tag, x.headerLength, x.content.length⟩

/-- The bytes of some encodings, one after the other. -/
def rowBytes (row : List Encoding) : List UInt8 := row.flatMap bytes

@[simp] theorem length_bytes (x : Encoding) :
    x.bytes.length = x.headerLength + x.content.length := by
  simp only [bytes, headerLength, List.length_cons, List.length_append]
  omega

theorem two_le_headerLength (x : Encoding) : 2 ≤ x.headerLength := by
  have := x.form.one_le_length_octets
  unfold headerLength
  omega

@[simp] theorem rowBytes_nil : rowBytes [] = [] := rfl

@[simp] theorem rowBytes_cons (x : Encoding) (row : List Encoding) :
    rowBytes (x :: row) = x.bytes ++ rowBytes row := rfl

/-! ### An encoding tells its own end -/

theorem append_inj {x y : Encoding} {s t : List UInt8} (h : x.bytes ++ s = y.bytes ++ t) :
    x = y ∧ s = t := by
  obtain ⟨tag, form, content, complete⟩ := x
  obtain ⟨tag', form', content', complete'⟩ := y
  simp only [bytes, List.cons_append, List.append_assoc] at h
  obtain ⟨sameTag, rest⟩ := List.cons.inj h
  obtain ⟨sameForm, tail⟩ := LengthForm.append_inj rest
  subst sameTag sameForm
  obtain ⟨sameContent, sameTail⟩ := List.append_inj tail (complete.trans complete'.symm)
  subst sameContent
  exact ⟨rfl, sameTail⟩

theorem prefixCode_bytes : PrefixCode bytes :=
  ⟨fun _ => List.cons_ne_nil _ _, append_inj⟩

/-- A row of encodings is cut in one way only. -/
theorem rowBytes_inj {row row' : List Encoding} (h : rowBytes row = rowBytes row') :
    row = row' :=
  prefixCode_bytes.flatMap_inj h

end Encoding
end Ber
