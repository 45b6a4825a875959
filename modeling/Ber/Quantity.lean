import Ber.Quantity.Decimal

/-!
# Quantities

A `Quantity` is a number that a caller may give as a place in an array or as an amount of bytes:
any rational number, one of the two infinities, or no number at all. Places and amounts that the
library finds itself are natural numbers and become quantities only where a failure reports them.

Counts are kept exact: `maxExact` is the greatest natural number up to which a 64-bit floating-point
number tells every integer from its neighbours, and no larger length, place or arc is accepted.
-/

namespace Ber

/-- The greatest count that is accepted, `2 ^ 53 - 1`. -/
def maxExact : Nat := 9007199254740991

/-- Whether one more digit leads beyond the greatest count can be told before it is added. -/
theorem maxExact_lt_iff {base : Nat} (pos : 0 < base) (value digit : Nat) :
    maxExact < value * base + digit ↔ ((maxExact : Rat) - digit) / base < value := by
  have pos' : (0 : Rat) < base := Rat.natCast_pos.mpr pos
  rw [Rat.div_lt_iff pos', Rat.sub_lt_iff, ← Rat.natCast_mul, ← Rat.natCast_add, Rat.natCast_lt_natCast]

/-- A number that a caller may give as a place or as an amount. -/
inductive Quantity where
  | finite (value : Rat)
  | infinite (negative : Bool)
  | undefined
deriving DecidableEq, Repr

namespace Quantity

instance : NatCast Quantity := ⟨fun n => .finite n⟩

/-- The number that a 64-bit floating-point number stands for. The two zeros are one quantity. -/
def ofFloat (x : Float) : Quantity :=
  let negative := x.toBits >>> 63 != 0
  let exponent := ((x.toBits >>> 52) &&& 0x7ff).toNat
  let fraction := (x.toBits &&& 0xfffffffffffff).toNat
  if exponent = 0x7ff then
    if fraction = 0 then .infinite negative else .undefined
  else
    let magnitude : Rat :=
      if exponent = 0 then fraction * (2 : Rat) ^ (-1074 : Int)
      else (fraction + 0x10000000000000 : Nat) * (2 : Rat) ^ ((exponent : Int) - 1075)
    .finite (if negative then -magnitude else magnitude)

/-- The integer that a quantity is, if it is one within `maxExact` of zero. -/
def exactInt? : Quantity → Option Int
  | .finite value => if value.den = 1 ∧ value.num.natAbs ≤ maxExact then some value.num else none
  | _ => none

/-- The place in an array of `size` bytes that a quantity names. The place after the last byte
counts as one. -/
def place? (offset : Quantity) (size : Nat) : Option Nat :=
  match offset.exactInt? with
  | some (.ofNat place) => if place ≤ size then some place else none
  | _ => none

/-- How much of `left` bytes an amount allows to read. What is no number, or below every number,
allows nothing. -/
def readable (available : Quantity) (left : Nat) : Rat :=
  match available with
  | .finite amount => if amount ≤ left then amount else left
  | .infinite false => left
  | .infinite true => 0
  | .undefined => 0

/-- The text of a quantity in a message. -/
def text (q : Quantity) : String :=
  match q.exactInt?, q with
  | some value, _ => toString value
  | none, .finite value => decimalText value
  | none, .infinite negative => if negative then "-Infinity" else "Infinity"
  | none, .undefined => "NaN"

end Quantity
end Ber
