import Ber.Failure
import Ber.Window

/-!
# Length fields

The length of an element's content is written in one of two forms. In the short form one octet below
`0x80` is the length. In the long form the first octet is `0x80` plus the number of octets that
follow, and these are the length in base 256, the highest first; leading zeros are allowed, and no
octets at all mean zero. Fewer than `lengthWordBytes` octets may follow, and the length may not
exceed `maxExact`.

`LengthField.read` reads the field at the front of a window and sees nothing else. `LengthField.decode`
first cuts that window out of an array, at a place and of an amount that the caller gives as any
`Quantity`; of a fraction of a byte nothing is read, but a failure reports the amount as it was given.
-/

namespace Ber

/-- A length and the number of octets that its field took. -/
structure LengthField where
  length : Nat
  octets : Nat
deriving DecidableEq, Repr

/-- The number that some octets write in base 256, the highest first. -/
def ofBigEndian (octets : List UInt8) : Nat := octets.foldl (fun value b => value * 256 + b.toNat) 0

namespace LengthField

/-- The first octet of a long form that announces no octets. -/
def longForm : UInt8 := 0x80

/-- Reads the length field at the front of `w`. The caller may read `readable` bytes in all, of which
`w` has the whole ones. -/
def read (w : Window) (readable : Rat) : Except Defect LengthField :=
  match w.get? 0 with
  | none => .error .missingLength
  | some first =>
    if first < longForm then .ok ⟨first.toNat, 1⟩
    else
      let count := (first - longForm).toNat
      if lengthWordBytes ≤ count then .error (.tooManyOctets count)
      else if w.size - 1 < count then .error (.missingOctets count (.finite (readable - 1)))
      else
        let length := ofBigEndian ((w.drop 1).take count).toList
        if maxExact < length then .error .lengthTooLarge
        else .ok ⟨length, 1 + count⟩

/-- Reads the length field at `offset` in `bytes`, of which no more than `available` bytes from there
on may be read. -/
def decode (bytes : ByteArray) (offset available : Quantity) : Except Failure LengthField :=
  match offset.place? bytes.size with
  | none => .error ⟨.outsideArray bytes.size, offset⟩
  | some place =>
    let readable := available.readable (bytes.size - place)
    let window := ((Window.ofBytes bytes).drop place).take readable.floor.toNat
    (read window readable).mapError (⟨·, offset⟩)

end LengthField
end Ber
