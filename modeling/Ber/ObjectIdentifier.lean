import Ber.Quantity

/-!
# Object identifiers

The content of an OBJECT IDENTIFIER is a row of subidentifiers. Each is a number in base 128, the
highest digit first, one digit to a byte, and every byte but its last has the topmost bit set. The
first subidentifier carries the first two arcs, and each further one is an arc.

`ObjectIdentifier.decode` reports the first byte at which something is wrong: a subidentifier that has
grown beyond `maxExact`, or the end of the content inside a subidentifier.
-/

namespace Ber

/-- An object identifier, as its arcs. -/
structure ObjectIdentifier where
  arcs : List Nat
deriving DecidableEq, Repr

namespace ObjectIdentifier

/-- Why some bytes are not the content of an object identifier. -/
inductive Fault where
  | empty
  | truncated (index : Nat)
  | arcTooLarge (index : Nat)
deriving DecidableEq, Repr

def Fault.message : Fault → String
  | empty => "Empty OID encoding (0 bytes)"
  | truncated index => "Truncated OID at byte index " ++ toString index
  | arcTooLarge index => "OID arc exceeds safe integer range at byte index " ++ toString index

/-- The base-128 digit in a byte. -/
def digit (byte : UInt8) : Nat := (byte &&& 0x7f).toNat

/-- The byte is not the last of its subidentifier. -/
def continues (byte : UInt8) : Bool := byte &&& 0x80 != 0

/-- The subidentifiers in some bytes that begin at `index` in the content. `begun` is what was read
of a subidentifier whose end has not been seen. -/
def subidentifiers (index : Nat) (begun : Option Nat) : List UInt8 → Except Fault (List Nat)
  | [] =>
    match begun with
    | none => .ok []
    | some _ => .error (.truncated index)
  | byte :: rest =>
    let value := begun.getD 0 * 128 + digit byte
    if maxExact < value then .error (.arcTooLarge index)
    else if continues byte then subidentifiers (index + 1) (some value) rest
    else (subidentifiers (index + 1) none rest).map (value :: ·)

/-- The two arcs in a first subidentifier. The first arc is at most 2, and the second at most 39
unless the first is 2. -/
def firstArcs (value : Nat) : List Nat :=
  if value < 40 then [0, value]
  else if value < 80 then [1, value - 40]
  else [2, value - 80]

/-- The arcs that some subidentifiers carry. -/
def arcsOf : List Nat → List Nat
  | [] => []
  | first :: rest => firstArcs first ++ rest

def decode (content : ByteArray) : Except Fault ObjectIdentifier :=
  if content.size = 0 then .error .empty
  else (subidentifiers 0 none content.data.toList).map fun values => ⟨arcsOf values⟩

/-- The arcs in decimal, joined by dots. -/
def text (oid : ObjectIdentifier) : String := ".".intercalate (oid.arcs.map toString)

end ObjectIdentifier
end Ber
