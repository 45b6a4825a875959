/-!
# Decimal text of a binary fraction

A positive 64-bit floating-point number `x` is written with the fewest decimal digits that tell it
from every other such number; among decimals of that length the nearest to `x` is taken, and of two
equally near ones the one whose last digit is even. From a millionth up to where twenty-two digits
would stand before the point, the point is written in its place; any other number is written as its
digits with the point behind the first of them, and an exponent.

The rule is turned into a search in exact arithmetic. `identifies d x` says that rounding `d` to a
64-bit number gives `x`: `d` lies no further than half a step from `x`, where the step below a power
of two is half the step above it, and a number exactly between two steps goes to the even one. For
one digit, two digits, and so on, only the two neighbours of `x` on the grid of that many digits can
qualify (`onGrid`), and the first grid with such a neighbour is the answer (`shortest`).
-/

namespace Ber

/-- A non-negative decimal number, `digits * 10 ^ exponent`. -/
structure Decimal where
  digits : Nat
  exponent : Int
deriving DecidableEq, Repr

namespace Decimal

def value (d : Decimal) : Rat := d.digits * (10 : Rat) ^ d.exponent

/-- The greatest `e` with `2 ^ e ≤ x`, for positive `x`. -/
def binaryExponent (x : Rat) : Int :=
  let guess : Int := (x.num.toNat.log2 : Int) - x.den.log2
  if (2 : Rat) ^ guess ≤ x then guess else guess - 1

/-- The distance from `x` to the next 64-bit number above it. -/
def step (x : Rat) : Rat :=
  let e := binaryExponent x
  (2 : Rat) ^ ((if e < -1022 then -1022 else e) - 52)

/-- The distance from `x` to the next 64-bit number below it. -/
def stepBelow (x : Rat) : Rat :=
  let e := binaryExponent x
  if -1022 < e ∧ (2 : Rat) ^ e = x then step x / 2 else step x

/-- Rounding `d` to the nearest 64-bit number gives `x`. -/
def identifies (d x : Rat) : Bool :=
  let low := x - stepBelow x / 2
  let high := x + step x / 2
  if (x / step x).num % 2 = 0 then low ≤ d && d ≤ high else low < d && d < high

/-- The number of places before the point: for `x` below one, minus the zeros that follow it. -/
def places (x : Rat) : Int :=
  if 1 ≤ x then (Nat.toDigits 10 x.floor.toNat).length
  else 1 - ((Nat.toDigits 10 (1 / x).floor.toNat).length : Int)

/-- The best multiple of `10 ^ exponent` that identifies `x`: the nearer of the two neighbours of
`x`, and the even one of two equally near. -/
def onGrid (x : Rat) (exponent : Int) : Option Decimal :=
  let below : Decimal := ⟨(x / (10 : Rat) ^ exponent).floor.toNat, exponent⟩
  let above : Decimal := ⟨below.digits + 1, exponent⟩
  match identifies below.value x, identifies above.value x with
  | false, false => none
  | true, false => some below
  | false, true => some above
  | true, true =>
    let twice := below.value + above.value
    if 2 * x < twice then some below
    else if twice < 2 * x then some above
    else if below.digits % 2 = 0 then some below
    else some above

theorem identifies_of_onGrid {x : Rat} {exponent : Int} {d : Decimal} (found : onGrid x exponent = some d) :
    identifies d.value x = true := by
  rw [onGrid] at found
  dsimp only at found
  split at found
  · cases found
  · next below _ =>
    cases found
    exact below
  · next _ above =>
    cases found
    exact above
  · next below above =>
    -- whichever of the two is nearer
    split at found
    · cases found
      exact below
    · split at found
      · cases found
        exact above
      · split at found
        · cases found
          exact below
        · cases found
          exact above

/-- The fewest digits that identify `x`; seventeen always do. -/
def shortest (x : Rat) : Decimal :=
  ((List.range 17).findSome? fun (n : Nat) => onGrid x (places x - n - 1)).getD
    ⟨(x / (10 : Rat) ^ (places x - 17)).floor.toNat, places x - 17⟩

/-- The same number without zeros at the end of its digits. -/
def strip (d : Decimal) : Decimal :=
  if d.digits = 0 then d
  else if d.digits % 10 = 0 then strip ⟨d.digits / 10, d.exponent + 1⟩
  else d
termination_by d.digits
decreasing_by omega

theorem value_strip (d : Decimal) : d.strip.value = d.value := by
  fun_induction strip d with
  | case1 => rfl
  | case2 d nonzero tens ih =>
    have digits : (d.digits : Rat) = ((d.digits / 10 : Nat) : Rat) * 10 := by
      rw [← Rat.natCast_ofNat, ← Rat.natCast_mul, Nat.div_mul_cancel (Nat.dvd_of_mod_eq_zero tens)]
    rw [ih, value, value, digits, Rat.zpow_add_one (by decide), Rat.mul_assoc, Rat.mul_comm 10]
  | case3 => rfl

/-- The digits that are written identify the number, if digits on one of the grids do. -/
theorem identifies_strip_shortest {x : Rat} {n : Nat} (few : n < 17)
    (found : (onGrid x (places x - n - 1)).isSome = true) :
    identifies (shortest x).strip.value x = true := by
  have some_grid : ((List.range 17).findSome? fun (n : Nat) => onGrid x (places x - n - 1)).isSome = true :=
    List.findSome?_isSome_iff.mpr ⟨n, List.mem_range.mpr few, found⟩
  obtain ⟨d, first⟩ := Option.isSome_iff_exists.mp some_grid
  obtain ⟨m, -, on⟩ := List.exists_of_findSome?_eq_some first
  rw [value_strip, shortest, first]
  exact identifies_of_onGrid on

/-- The digits with the point in its place, filled up with zeros. -/
def positional (d : Decimal) : String :=
  let digits := Nat.toDigits 10 d.digits
  if 0 ≤ d.exponent then String.ofList (digits ++ List.replicate d.exponent.toNat '0')
  else
    let fraction := d.exponent.natAbs
    let padded := List.replicate (fraction + 1 - digits.length) '0' ++ digits
    let whole := padded.length - fraction
    String.ofList (padded.take whole ++ '.' :: padded.drop whole)

/-- The digits with the point behind the first of them, if any follow it, and an exponent. -/
def scientific (d : Decimal) : String :=
  let digits := Nat.toDigits 10 d.digits
  let fraction := if digits.length = 1 then [] else '.' :: digits.drop 1
  let exponent := d.exponent + digits.length - 1
  String.ofList (digits.take 1 ++ fraction) ++ (if exponent < 0 then "e-" else "e+")
    ++ toString exponent.natAbs

/-- The text of a decimal without zeros at the end of its digits. -/
def text (d : Decimal) : String :=
  if (10 : Rat) ^ (-6 : Int) ≤ d.value ∧ d.value < (10 : Rat) ^ (21 : Int) then d.positional
  else d.scientific

end Decimal

/-- The decimal text of a number, with a sign if it is negative. -/
def decimalText (x : Rat) : String :=
  if x = 0 then "0"
  else if x < 0 then "-" ++ (Decimal.shortest (-x)).strip.text
  else (Decimal.shortest x).strip.text

/-- The last number whose point is written in its place and the one after it, and two numbers on the
two sides of a millionth. -/
example :
    decimalText (10 ^ (21 : Int) - 131072) = "999999999999999900000" ∧
    decimalText (10 ^ (21 : Int)) = "1e+21" ∧
    decimalText (2 ^ (-19 : Int)) = "0.0000019073486328125" ∧
    decimalText (-2 ^ (-20 : Int)) = "-9.5367431640625e-7" := by
  decide +kernel

end Ber
