import Ber.LengthField

/-!
# Elements

An element is a tag byte, a length field, and as many bytes of content as the field says.
`Element.read` splits a window into the header of the element at its front, the content, and what
follows. Both parts are windows of the same array, so whatever is read in them is read inside the
window that was split.
-/

namespace Ber

/-- The tag of an element, the length of its tag and length field, and the length of its content. -/
structure Header where
  tag : Tag
  headerLength : Nat
  length : Nat
deriving DecidableEq, Repr

/-- The element at the front of a window. -/
structure Element where
  tag : Tag
  headerLength : Nat
  content : Window
  /-- What follows the element. -/
  rest : Window
deriving DecidableEq

namespace Element

def header (e : Element) : Header := ⟨e.tag, e.headerLength, e.content.size⟩

/-- Reads the element at the front of `w`, whose tag must be one that `rule` accepts. The tag is looked
at before the length field, and the length field before the content. -/
def read (rule : TagRule) (w : Window) : Except Failure Element :=
  match w.get? 0 with
  | none => .error ⟨.missingTag, w.start⟩
  | some tag =>
    if rule.accepts tag then
      match LengthField.read (w.drop 1) (w.drop 1).size with
      | .error defect => .error ⟨defect, (w.start + 1 : Nat)⟩
      | .ok field =>
        let body := w.drop (1 + field.octets)
        if body.size < field.length then
          .error ⟨.contentTooLong field.length body.size, w.start⟩
        else .ok ⟨tag, 1 + field.octets, body.take field.length, body.drop field.length⟩
    else .error ⟨.unexpectedTag rule tag, w.start⟩

/-! ### What is read lies in the window -/

theorem size_rest_lt {rule : TagRule} {w : Window} {e : Element} (h : read rule w = .ok e) :
    e.rest.size < w.size := by
  unfold read at h
  split at h
  · cases h
  · next tag found =>
    have nonempty : 0 < w.size := by
      unfold Window.get? at found
      split at found
      · assumption
      · cases found
    split at h
    · split at h
      · cases h
      · dsimp only at h
        split at h
        · cases h
        · injection h with h
          subst h
          simp only [Window.size_drop]
          omega
    · cases h

end Element
end Ber
