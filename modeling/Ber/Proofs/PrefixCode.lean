import Ber.Window

/-!
# Codes that tell their own end

Elements and the numbers of an object identifier are written one after the other without a mark between
them, so each must tell its own end: whoever knows where one begins knows where it ends, whatever follows
it. For such a code a row of values is cut in one way only (`PrefixCode.flatMap_inj`).
-/

namespace Ber

/-- What follows the bytes of a value cannot be taken for a part of them. -/
structure PrefixCode {α : Type} (code : α → List UInt8) : Prop where
  nonempty : ∀ x, code x ≠ []
  append_inj : ∀ {x y : α} {s t : List UInt8}, code x ++ s = code y ++ t → x = y ∧ s = t

namespace PrefixCode

variable {α : Type} {code : α → List UInt8}

/-- Only one value is written at the front of some bytes. -/
theorem eq_of_isPrefix (h : PrefixCode code) {x y : α} {bytes : List UInt8} (hx : code x <+: bytes)
    (hy : code y <+: bytes) : x = y := by
  obtain ⟨s, rfl⟩ := hx
  obtain ⟨t, same⟩ := hy
  exact (h.append_inj same).1.symm

/-- A row of values is cut in one way only. -/
theorem flatMap_inj (h : PrefixCode code) {row row' : List α} (same : row.flatMap code = row'.flatMap code) :
    row = row' := by
  have never_nil : ∀ (x : α) (s : List UInt8), code x ++ s ≠ [] := fun x s =>
    List.append_ne_nil_of_left_ne_nil (h.nonempty x) s
  induction row generalizing row' with
  | nil =>
    cases row' with
    | nil => rfl
    | cons y row' => exact absurd same.symm (never_nil y _)
  | cons x row ih =>
    cases row' with
    | nil => exact absurd same (never_nil x _)
    | cons y row' =>
      obtain ⟨first, rest⟩ := h.append_inj same
      rw [first, ih rest]

end PrefixCode
end Ber
