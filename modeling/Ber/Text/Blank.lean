/-!
# Blank characters

The characters that hex text may contain anywhere without a meaning: the spaces, the line and
paragraph ends and the byte order mark. The table is read as a list of closed ranges of code points.
-/

namespace Ber.Blank

/-- The blank code points, as closed ranges in ascending order. -/
def ranges : List (Nat × Nat) :=
  [(0x0009, 0x000d), (0x0020, 0x0020), (0x00a0, 0x00a0), (0x1680, 0x1680), (0x2000, 0x200a),
   (0x2028, 0x2029), (0x202f, 0x202f), (0x205f, 0x205f), (0x3000, 0x3000), (0xfeff, 0xfeff)]

end Ber.Blank

namespace Ber

def isBlank (c : Char) : Bool :=
  Blank.ranges.any fun range => range.1 ≤ c.toNat && c.toNat ≤ range.2

end Ber
