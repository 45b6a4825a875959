import Ber.Hex

/-!
# Tags

An element begins with one tag byte. Besides the four universal tags that the readers look for, the
bytes `0xa0` to `0xbf` tag the constructed context-specific elements, written `[n]`, whose number is
the low five bits.

A `TagRule` says which tags a reader accepts. The rules for SEQUENCE and SET ignore the topmost bit,
so `0xb0` is a SEQUENCE to them as well as `[16]`, and `0xb1` a SET as well as `[17]`.
-/

namespace Ber

abbrev Tag := UInt8

namespace Tag

def octetString : Tag := 0x04
def objectIdentifier : Tag := 0x06
def sequence : Tag := 0x30
def set : Tag := 0x31

/-- The bits that tell a constructed context-specific tag from the others. -/
def contextMask : Tag := 0xe0

/-- What those bits are in a constructed context-specific tag. -/
def contextBits : Tag := 0xa0

/-- The tag of an `[n]` element. -/
def isContext (tag : Tag) : Bool := tag &&& contextMask == contextBits

/-- The number of an `[n]` element. -/
def contextNumber (tag : Tag) : Nat := (tag &&& 0x1f).toNat

/-- The tag as messages write it. -/
def text (tag : Tag) : String := "0x" ++ String.ofList (Hex.digits tag)

end Tag

/-- Which tags a reader accepts. -/
inductive TagRule where
  | any
  | context
  | sequence
  | set
  | objectIdentifier
  | octetString
deriving DecidableEq, Repr

namespace TagRule

def accepts : TagRule → Tag → Bool
  | any, _ => true
  | context, tag => tag.isContext
  | sequence, tag => tag &&& 0x7f == Tag.sequence
  | set, tag => tag &&& 0x7f == Tag.set
  | objectIdentifier, tag => tag == Tag.objectIdentifier
  | octetString, tag => tag == Tag.octetString

/-- What a message says was expected. -/
def expected : TagRule → String
  | any => "any tag"
  | context => "context-specific constructed tag"
  | sequence => "SEQUENCE (0x30)"
  | set => "SET (0x31)"
  | objectIdentifier => "OBJECT IDENTIFIER (0x06)"
  | octetString => "OCTET STRING (0x04)"

end TagRule

/-! ### Accepted tags by their bytes -/

/-- What holds of the 256 bytes holds of every byte. -/
theorem forall_byte {p : UInt8 → Prop} (h : ∀ n : Fin 256, p (UInt8.ofNat n)) (b : UInt8) : p b := by
  have := h ⟨b.toNat, b.toNat_lt⟩
  rwa [UInt8.ofNat_toNat] at this

theorem Tag.isContext_iff (tag : Tag) : tag.isContext = true ↔ 0xa0 ≤ tag ∧ tag ≤ 0xbf := by
  revert tag
  exact forall_byte (by decide +kernel)

theorem Tag.contextNumber_eq_zero_iff (tag : Tag) :
    tag.isContext = true → (tag.contextNumber = 0 ↔ tag = 0xa0) := by
  revert tag
  exact forall_byte (by decide +kernel)

theorem TagRule.accepts_sequence_iff (tag : Tag) :
    TagRule.sequence.accepts tag = true ↔ tag = 0x30 ∨ tag = 0xb0 := by
  revert tag
  exact forall_byte (by decide +kernel)

theorem TagRule.accepts_set_iff (tag : Tag) :
    TagRule.set.accepts tag = true ↔ tag = 0x31 ∨ tag = 0xb1 := by
  revert tag
  exact forall_byte (by decide +kernel)

end Ber
