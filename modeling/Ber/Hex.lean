import Ber.Text.Blank

/-!
# Hex text

`Hex.encode` writes two lower-case digits for each byte, the high half first. `Hex.decode` reads
digits of either case, passes over blank characters wherever they stand, also between the two digits
of a byte, and refuses a text that holds anything else or an odd number of digits.
-/

namespace Ber.Hex

/-- The two digits of a byte. -/
def digits (byte : UInt8) : List Char :=
  [Nat.digitChar (byte.toNat / 16), Nat.digitChar (byte.toNat % 16)]

/-- The digits of some bytes, one byte after the other. -/
def encodeList (bytes : List UInt8) : List Char := bytes.flatMap digits

def encode (bytes : ByteArray) : String := String.ofList (encodeList bytes.data.toList)

/-- The value of a digit of either case. -/
def digitValue? (c : Char) : Option Nat :=
  if '0' ≤ c ∧ c ≤ '9' then some (c.toNat - '0'.toNat)
  else if 'a' ≤ c ∧ c ≤ 'f' then some (c.toNat - 'a'.toNat + 10)
  else if 'A' ≤ c ∧ c ≤ 'F' then some (c.toNat - 'A'.toNat + 10)
  else none

/-- The bytes that some digits spell, two by two. -/
def decodeList : List Char → Option (List UInt8)
  | [] => some []
  | [_] => none
  | high :: low :: rest => do
    let h ← digitValue? high
    let l ← digitValue? low
    let bytes ← decodeList rest
    return UInt8.ofNat (16 * h + l) :: bytes

/-- A text that spells no bytes. -/
structure Malformed where
  text : String
deriving DecidableEq, Repr

/-- The message quotes the text as it was given, blanks included. -/
def Malformed.message (e : Malformed) : String := "Invalid hex string: '" ++ e.text ++ "'"

def decode (text : String) : Except Malformed ByteArray :=
  match decodeList (text.toList.filter fun c => !isBlank c) with
  | some bytes => .ok bytes.toByteArray
  | none => .error ⟨text⟩

end Ber.Hex
