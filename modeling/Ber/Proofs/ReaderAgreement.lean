import Ber.Session
import Ber.Proofs.Reading
import Ber.Proofs.View

/-!
# Readers agree

Five readers look for an element of a certain kind, and each comes in two forms: one that answers nothing
where it is refused and one that raises an error. All ten, and asking for the tag and for the header, are one
decision. Where there is no tag, every reader fails as the header does. Where there is one, a reader refuses
it by its tag or else fares as the header does, to the very failure or to the region of the content.

The readers are the values of `Reader`, and each of them looks for an element by its `Reader.rule`. Its two
forms show a failure (`Reader.refused_of_error`) and an element that was found (`Reader.handsOut_of_ok`) in
their ways. Which of the two it is, the tag in front decides: on a tag that the reader accepts it fares as
with any tag (`Cursor.element_of_accepts`), on every other it fails without a look at what follows
(`Cursor.element_of_rejects`).
-/

namespace Ber

/-- The readers that look for an element of a certain kind. -/
inductive Reader where
  | child (kind : Container)
  | range (kind : Primitive)
deriving DecidableEq, Repr

namespace Reader

def rule : Reader → TagRule
  | child kind => kind.rule
  | range kind => kind.rule

/-- The form that answers nothing where it is refused. -/
def get : Reader → Action
  | child kind => .enter kind
  | range kind => .content kind

/-- The form that raises an error where it is refused. -/
def expect : Reader → Action
  | child kind => .expectEnter kind
  | range kind => .expectContent kind

/-- The name that the error gives the operation. -/
def expectName : Reader → String
  | child kind => kind.expectName
  | range kind => kind.expectName

/-- The tags that a reader looks for, by their bits. -/
def LooksFor : Reader → Tag → Prop
  | child .context, tag => tag &&& 0xe0 = 0xa0
  | child .sequence, tag => tag &&& 0x7f = 0x30
  | child .set, tag => tag &&& 0x7f = 0x31
  | range .objectIdentifier, tag => tag = 0x06
  | range .octetString, tag => tag = 0x04

/-- Both forms of the reader fail with this failure, each in its way, and the cursor stays. -/
structure Refused (reader : Reader) (c : Cursor) (failure : Failure) : Prop where
  get : c.perform reader.get = (.nothing, c)
  expect : c.perform reader.expect = (.raised ⟨reader.expectName, failure⟩, c)
  thrown : (c.perform reader.expect).1.view =
    .raised reader.expectName ⟨failure.code.name, failure.offset, failure.detail⟩
      (reader.expectName ++ " failed at offset " ++ failure.offset.text ++ ": " ++ failure.detail)

/-- The answer is the content of an element at `c` with this header: a usable cursor on it, with the number
of an `[n]` element if it was read as one, or the range. -/
def Shows (reader : Reader) (c : Cursor) (h : Header) (answer : Outcome) : Prop :=
  match reader with
  | child kind => ∃ d, answer = .opened d ∧ d.window.origin = c.window.origin ∧
      d.position = c.position + h.headerLength ∧ d.remaining = h.length ∧ d.usable = true ∧
      d.tagContext = if kind = .context then some (h.tag &&& 0x1f).toNat else none
  | range _ => ∃ w, answer = .range w ∧ w.origin = c.window.origin ∧
      w.start = c.position + h.headerLength ∧ w.size = h.length

/-- Both forms of the reader hand out the content of an element with this header, and the cursor stays. -/
def HandsOut (reader : Reader) (c : Cursor) (h : Header) : Prop :=
  ∃ answer, reader.Shows c h answer ∧ c.perform reader.get = (answer, c) ∧
    c.perform reader.expect = (answer, c)

end Reader

/-- How a reader goes together with asking for the tag and for the header. -/
structure Cursor.Agrees (c : Cursor) (reader : Reader) : Prop where
  untagged : c.usable = false ∨ c.remaining = 0 →
    (c.perform .tag).1 = .tag none ∧
      ∃ failure, (c.perform .header).1 = .failed failure ∧ reader.Refused c failure
  tagged : c.usable = true → 0 < c.remaining → ∃ tag, (c.perform .tag).1 = .tag (some tag) ∧
    (¬ reader.LooksFor tag → ∃ failure : Failure, reader.Refused c failure ∧
      failure.code = .tagMismatch ∧ failure.offset = c.position) ∧
    (reader.LooksFor tag →
      (∃ failure, (c.perform .header).1 = .failed failure ∧ reader.Refused c failure) ∨
        ∃ h, (c.perform .header).1 = .header h ∧ h.tag = tag ∧ reader.HandsOut c h)
  twins : (c.perform reader.get).1 = .nothing ↔ ∃ error, (c.perform reader.expect).1 = .raised error

/-! ### What the tag in front decides -/

namespace Element

variable {rule : TagRule} {w : Window} {tag : Tag}

theorem read_of_get?_none (front : w.get? 0 = none) : read rule w = .error ⟨.missingTag, w.start⟩ := by
  rw [read, front]

theorem read_of_accepts (front : w.get? 0 = some tag) (accepted : rule.accepts tag = true) :
    read rule w = read .any w := by
  have anyTag : TagRule.any.accepts tag = true := rfl
  simp only [read, front, accepted, anyTag, if_true]

theorem read_of_rejects (front : w.get? 0 = some tag) (rejected : rule.accepts tag = false) :
    read rule w = .error ⟨.unexpectedTag rule tag, w.start⟩ := by
  simp only [read, front, rejected]
  rfl

end Element

namespace Cursor

variable {c : Cursor} {rule : TagRule} {tag : Tag}

theorem get?_of_tag?_some (found : c.tag? = some tag) : c.usable = true ∧ c.window.get? 0 = some tag := by
  rw [tag?] at found
  split at found
  · next usable => exact ⟨usable, found⟩
  · cases found

theorem tag?_eq_none_iff : c.tag? = none ↔ c.usable = false ∨ c.remaining = 0 := by
  rw [tag?, Window.get?_eq_getElem?]
  cases usable : c.usable with
  | false => simp
  | true =>
    have size : c.window.toList.length = c.remaining := c.window.length_toList
    simp [← size]

/-- Without a tag every reader fails alike. -/
theorem element_of_tag?_none (untagged : c.tag? = none) (rule : TagRule) :
    ∃ failure, c.element rule = .error failure ∧ c.element .any = .error failure := by
  rw [tag?] at untagged
  split at untagged
  · next usable =>
    refine ⟨⟨.missingTag, c.window.start⟩, ?_, ?_⟩
    · rw [element, if_pos usable, Element.read_of_get?_none untagged]
    · rw [element, if_pos usable, Element.read_of_get?_none untagged]
  · next unusable =>
    refine ⟨⟨.unusable, c.position⟩, ?_, ?_⟩
    · rw [element, if_neg unusable]
    · rw [element, if_neg unusable]

theorem element_of_accepts (found : c.tag? = some tag) (accepted : rule.accepts tag = true) :
    c.element rule = c.element .any := by
  obtain ⟨usable, front⟩ := get?_of_tag?_some found
  rw [element, element, if_pos usable, if_pos usable, Element.read_of_accepts front accepted]

theorem element_of_rejects (found : c.tag? = some tag) (rejected : rule.accepts tag = false) :
    c.element rule = .error ⟨.unexpectedTag rule tag, c.position⟩ := by
  obtain ⟨usable, front⟩ := get?_of_tag?_some found
  rw [element, if_pos usable, Element.read_of_rejects front rejected]
  rfl

/-- The element that was found begins with the tag in front. -/
theorem tag?_of_element {e : Element} (found : c.element rule = .ok e) : c.tag? = some e.tag := by
  obtain ⟨x, tail, front, -, spells⟩ := (element_eq_ok_iff (on_self (usable_of_element found))).mp found
  rw [tag?_eq (on_self (usable_of_element found)), front]
  exact congrArg some (congrArg Header.tag spells.header).symm

end Cursor

/-! ### The two forms of a reader -/

namespace Reader

variable {reader : Reader} {c : Cursor} {failure : Failure} {e : Element}

theorem looksFor_iff (reader : Reader) (tag : Tag) :
    reader.LooksFor tag ↔ reader.rule.accepts tag = true := by
  cases reader with
  | child kind => cases kind <;> exact beq_iff_eq.symm
  | range kind => cases kind <;> exact beq_iff_eq.symm

/-- What the error of the raising form tells is that of the failure. -/
theorem Refused.of_performs (get : c.perform reader.get = (.nothing, c))
    (expect : c.perform reader.expect = (.raised ⟨reader.expectName, failure⟩, c)) :
    reader.Refused c failure := by
  refine ⟨get, expect, ?_⟩
  rw [expect]
  rfl

theorem refused_of_error (h : c.element reader.rule = .error failure) : reader.Refused c failure := by
  cases reader with
  | child kind =>
    have refused : c.enter kind = .error failure := map_eq_error_iff.mpr h
    apply Refused.of_performs
    · rw [get, Cursor.perform, refused]
    · rw [expect, Cursor.perform, Cursor.expectEnter, refused]
      rfl
  | range kind =>
    have refused : c.content kind = .error failure := map_eq_error_iff.mpr h
    apply Refused.of_performs
    · rw [get, Cursor.perform, refused]
    · rw [expect, Cursor.perform, Cursor.expectContent, refused]
      rfl

theorem handsOut_of_ok (h : c.element reader.rule = .ok e) : reader.HandsOut c e.header := by
  have fills := Cursor.fills_of_element h
  cases reader with
  | child kind =>
    obtain ⟨d, entered, opened⟩ : ∃ d, c.enter kind = .ok d ∧ d = ⟨e.content, kind.contextOf e.tag, true⟩ :=
      ⟨_, map_eq_ok_iff.mpr ⟨e, h, rfl⟩, rfl⟩
    refine ⟨.opened d, ⟨d, rfl, ?_⟩, ?_, ?_⟩
    · subst opened
      refine ⟨fills.contentOrigin, fills.contentStart, rfl, rfl, ?_⟩
      cases kind <;> rfl
    · rw [get, Cursor.perform, entered]
    · rw [expect, Cursor.perform, Cursor.expectEnter, entered]
      rfl
  | range kind =>
    have read : c.content kind = .ok e.content := map_eq_ok_iff.mpr ⟨e, h, rfl⟩
    refine ⟨.range e.content, ⟨_, rfl, fills.contentOrigin, fills.contentStart, rfl⟩, ?_, ?_⟩
    · rw [get, Cursor.perform, read]
    · rw [expect, Cursor.perform, Cursor.expectContent, read]
      rfl

/-- A reader is refused or hands something out, and of its two forms one does just what the other does. -/
theorem get_nothing_iff_expect_raised (reader : Reader) (c : Cursor) :
    (c.perform reader.get).1 = .nothing ↔ ∃ error, (c.perform reader.expect).1 = .raised error := by
  cases found : c.element reader.rule with
  | error failure =>
    have refused := refused_of_error found
    rw [refused.get, refused.expect]
    exact ⟨fun _ => ⟨_, rfl⟩, fun _ => rfl⟩
  | ok e =>
    obtain ⟨answer, shows, get, expect⟩ := handsOut_of_ok found
    rw [get, expect]
    cases reader with
    | child kind =>
      obtain ⟨d, rfl, -⟩ := shows
      simp
    | range kind =>
      obtain ⟨w, rfl, -⟩ := shows
      simp

end Reader

/-! ### Agreement -/

namespace Cursor

variable {c : Cursor}

theorem perform_header_of_error {failure : Failure} (h : c.element .any = .error failure) :
    (c.perform .header).1 = .failed failure := by
  have refused : c.header = .error failure := map_eq_error_iff.mpr h
  rw [perform, refused]

theorem perform_header_of_ok {e : Element} (h : c.element .any = .ok e) :
    (c.perform .header).1 = .header e.header := by
  have read : c.header = .ok e.header := map_eq_ok_iff.mpr ⟨e, h, rfl⟩
  rw [perform, read]

/-- Every reader agrees with its twin, with the tag in front and with the header. -/
theorem readers_agree (c : Cursor) (reader : Reader) : c.Agrees reader := by
  refine ⟨?_, ?_, reader.get_nothing_iff_expect_raised c⟩
  · intro nothing
    have untagged := tag?_eq_none_iff.mpr nothing
    obtain ⟨failure, refused, refused'⟩ := element_of_tag?_none untagged reader.rule
    exact ⟨congrArg Outcome.tag untagged, failure, perform_header_of_error refused',
      Reader.refused_of_error refused⟩
  · intro usable tagLeft
    cases found : c.tag? with
    | none =>
      rcases tag?_eq_none_iff.mp found with unusable | empty
      · exact absurd (usable.symm.trans unusable) Bool.noConfusion
      · omega
    | some tag =>
      refine ⟨tag, congrArg Outcome.tag found, ?_, ?_⟩
      · intro other
        rw [reader.looksFor_iff, Bool.not_eq_true] at other
        exact ⟨_, Reader.refused_of_error (element_of_rejects found other), rfl, rfl⟩
      · intro same
        have alike := element_of_accepts found ((reader.looksFor_iff tag).mp same)
        cases read : c.element .any with
        | error failure =>
          exact .inl ⟨failure, perform_header_of_error read, Reader.refused_of_error (alike.trans read)⟩
        | ok e =>
          have tagged : e.tag = tag := Option.some.inj ((tag?_of_element read).symm.trans found)
          exact .inr ⟨e.header, perform_header_of_ok read, tagged, Reader.handsOut_of_ok (alike.trans read)⟩

end Cursor
end Ber
