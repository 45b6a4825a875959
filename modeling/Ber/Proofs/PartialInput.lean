import Ber.Proofs.HeaderAnswers
import Ber.Proofs.ReaderAgreement

/-!
# Answers on a part of the input

A caller who receives an input piece by piece may ask for the element in front before all of it has arrived. What
was found stays found, and a tag that is not accepted or a length field that is malformed stays refused, with
the same failure. The two other failures say how far the input is from an answer: it is truncated as long as
the header is not complete, and out of bounds as long as the content is not, and of every element that is found
each shorter beginning is refused in one of these two ways.

So the order of the checks can be relied on. All of this is shown of the list of the bytes, one lemma for each
way in which `Header.scan` can go (`Header.scan_append_of_ok`, `Header.scan_append_of_final`,
`Header.scan_of_form`, `Header.exists_scan_take_bytes`), and holds of the readers because each of them is a scan
of what is left to its cursor (`Inspection.finds_ofBytes_iff`, `Inspection.fails_ofBytes_iff`).
-/

namespace Ber

/-! ### Scanning more or less of an input -/

/-- More input does not mend the defect. -/
def Defect.isFinal : Defect → Bool
  | .unexpectedTag _ _ => true
  | .tooManyOctets _ => true
  | .lengthTooLarge => true
  | _ => false

namespace LengthField

variable {readable readable' : Rat} {bytes : List UInt8} {field : LengthField} {defect : Defect}

theorem scan_append_of_ok (h : scan readable bytes = .ok field) (readable' : Rat) (tail : List UInt8) :
    scan readable' (bytes ++ tail) = .ok field := by
  obtain ⟨form, ⟨rest, rfl⟩, rfl⟩ := exists_form_of_scan h
  rw [List.append_assoc]
  exact scan_octets form readable' (rest ++ tail)

theorem scan_append_of_final (h : scan readable bytes = .error defect) (final : defect.isFinal = true)
    (readable' : Rat) (tail : List UInt8) : scan readable' (bytes ++ tail) = .error defect := by
  cases bytes with
  | nil =>
    cases h
    cases final
  | cons first rest =>
    simp only [List.cons_append, scan] at h ⊢
    split at h
    · cases h
    · next long =>
      rw [if_neg long]
      split at h
      · next many =>
        rw [if_pos many]
        exact h
      · next few =>
        split at h
        · cases h
          cases final
        · next enough =>
          have complete : (first - longForm).toNat ≤ rest.length := Nat.not_lt.mp enough
          have still : ¬ (rest ++ tail).length < (first - longForm).toNat := by
            rw [List.length_append]
            omega
          rw [if_neg few, if_neg still, List.take_append_of_le_length complete]
          split at h
          · next large =>
            rw [if_pos large]
            exact h
          · cases h

/-- A form that is cut off is reported as truncated. -/
theorem exists_scan_take_octets (form : LengthForm) {k : Nat} (short : k < form.octets.length)
    (readable : Rat) :
    ∃ defect, scan readable (form.octets.take k) = .error defect ∧
      ∀ offset, Failure.code ⟨defect, offset⟩ = .truncatedInput := by
  cases k with
  | zero => exact ⟨.missingLength, rfl, fun _ => rfl⟩
  | succ k =>
    cases form with
    | short value small => exact absurd short (Nat.not_lt.mpr (Nat.succ_le_succ k.zero_le))
    | long digits few bounded =>
      have count : digits.length < 128 := by
        unfold lengthWordBytes at few
        omega
      have missing : (digits.take k).length < digits.length := by
        have inside : k < digits.length := Nat.lt_of_succ_lt_succ short
        rw [List.length_take]
        omega
      refine ⟨.missingOctets digits.length (.finite (readable - 1)), ?_, fun _ => rfl⟩
      rw [LengthForm.octets, List.take_succ_cons, scan, if_neg (LengthForm.not_longForm_or_lt count)]
      simp only [LengthForm.longForm_or_sub count, if_neg (Nat.not_le.mpr few), if_pos missing]

end LengthField

namespace Header

variable {rule : TagRule} {tag : Tag} {bytes : List UInt8} {h : Header} {defect : Defect} {ahead : Nat}

theorem scan_append_of_ok (found : scan rule bytes = .ok h) (tail : List UInt8) :
    scan rule (bytes ++ tail) = .ok h := by
  obtain ⟨x, accepted, front, rfl⟩ := scan_eq_ok_iff.mp found
  exact scan_eq_ok_iff.mpr ⟨x, accepted, front.trans (List.prefix_append bytes tail), rfl⟩

theorem scan_append_of_final (refused : scan rule bytes = .error (defect, ahead))
    (final : defect.isFinal = true) (tail : List UInt8) :
    scan rule (bytes ++ tail) = .error (defect, ahead) := by
  cases bytes with
  | nil =>
    cases refused
    cases final
  | cons tag rest =>
    simp only [List.cons_append, scan] at refused ⊢
    split at refused
    · next accepted =>
      rw [if_pos accepted]
      split at refused
      · next failed =>
        cases refused
        rw [LengthField.scan_append_of_final failed final]
      · split at refused
        · cases refused
          cases final
        · cases refused
    · next rejected =>
      rw [if_neg rejected]
      exact refused

/-- Behind a complete length field it is a matter of how much is left. -/
theorem scan_of_form (accepted : rule.accepts tag = true) (form : LengthForm) (rest : List UInt8) :
    scan rule (tag :: (form.octets ++ rest)) =
      if rest.length < form.length then .error (.contentTooLong form.length rest.length, 0)
      else .ok ⟨tag, 1 + form.octets.length, form.length⟩ := by
  have left : (form.octets ++ rest).length - form.octets.length = rest.length := by simp
  simp only [scan, accepted, if_true, LengthField.scan_octets, left]

/-- Content is too long only behind a complete length field. -/
theorem exists_form_of_contentTooLong {length left : Nat}
    (h : scan rule bytes = .error (.contentTooLong length left, ahead)) :
    ∃ tag form rest, bytes = tag :: (LengthForm.octets form ++ rest) ∧ rule.accepts tag = true ∧
      length = form.length ∧ left = rest.length := by
  cases bytes with
  | nil => cases h
  | cons tag rest =>
    simp only [scan] at h
    split at h
    · next accepted =>
      split at h
      · next failed =>
        cases h
        rcases LengthField.scan_eq_error failed with other | ⟨_, other⟩ | ⟨_, _, other⟩ | other
        all_goals cases other
      · next scanned =>
        obtain ⟨form, ⟨behind, rfl⟩, rfl⟩ := LengthField.exists_form_of_scan scanned
        split at h
        · cases h
          exact ⟨tag, form, behind, rfl, accepted, rfl, by simp⟩
        · cases h
    · cases h

/-- An element that is cut off is truncated inside its header and out of bounds behind it. -/
theorem exists_scan_take_bytes (x : Encoding) (accepted : rule.accepts x.tag = true) {k : Nat}
    (short : k < x.bytes.length) :
    ∃ defect ahead, scan rule (x.bytes.take k) = .error (defect, ahead) ∧
      ∀ offset, Failure.code ⟨defect, offset⟩ =
        if k < x.headerLength then .truncatedInput else .lengthOutOfBounds := by
  cases k with
  | zero =>
    have header : 0 < x.headerLength := Nat.lt_of_lt_of_le Nat.two_pos x.two_le_headerLength
    exact ⟨.missingTag, 0, rfl, fun _ => (if_pos header).symm⟩
  | succ k =>
    rw [Encoding.bytes, List.take_succ_cons]
    by_cases inHeader : k < x.form.octets.length
    · have header : k + 1 < x.headerLength := by
        unfold Encoding.headerLength
        omega
      rw [List.take_append_of_le_length (Nat.le_of_lt inHeader)]
      obtain ⟨defect, scanned, code⟩ := LengthField.exists_scan_take_octets x.form inHeader
        (x.form.octets.take k).length
      refine ⟨defect, 1, ?_, fun offset => (code offset).trans (if_pos header).symm⟩
      simp only [scan, accepted, if_true, scanned]
    · have header : ¬ k + 1 < x.headerLength := by
        unfold Encoding.headerLength
        omega
      have missing : (x.content.take (k - x.form.octets.length)).length < x.form.length := by
        rw [Encoding.length_bytes, x.complete, Encoding.headerLength] at short
        rw [List.length_take]
        omega
      rw [List.take_append, List.take_of_length_le (Nat.not_lt.mp inHeader), scan_of_form accepted,
        if_pos missing]
      exact ⟨_, 0, rfl, fun _ => (if_neg header).symm⟩

end Header

/-! ### Inspections -/

/-- An answer shows one header only, the tag apart. -/
theorem Reader.Shows.unique {reader : Reader} {c : Cursor} {h g : Header} {answer : Outcome}
    (shown : reader.Shows c h answer) (shown' : reader.Shows c g answer) (tag : h.tag = g.tag) : h = g := by
  have parts : h.headerLength = g.headerLength ∧ h.length = g.length := by
    cases reader with
    | child kind =>
      obtain ⟨d, rfl, -, position, remaining, -⟩ := shown
      obtain ⟨d', same, -, position', remaining', -⟩ := shown'
      cases same
      exact ⟨Nat.add_left_cancel (position.symm.trans position'), remaining.symm.trans remaining'⟩
    | range kind =>
      obtain ⟨w, rfl, -, start, size⟩ := shown
      obtain ⟨w', same, -, start', size'⟩ := shown'
      cases same
      exact ⟨Nat.add_left_cancel (start.symm.trans start'), size.symm.trans size'⟩
  obtain ⟨hTag, headerLength, length⟩ := h
  obtain ⟨gTag, headerLength', length'⟩ := g
  obtain rfl : hTag = gTag := tag
  obtain ⟨rfl, rfl⟩ := parts
  rfl

/-- What can be asked of the element in front: its header, or its content with a reader. -/
inductive Inspection where
  | header
  | content (reader : Reader)
deriving DecidableEq, Repr

namespace Inspection

def rule : Inspection → TagRule
  | header => .any
  | content reader => reader.rule

/-- The actions that ask it. -/
def actions : Inspection → List Action
  | header => [.header]
  | content reader => [reader.get, reader.expect]

/-- The inspection succeeds at an element with this header. -/
def Finds : Inspection → Cursor → Header → Prop
  | header, c, h => c.perform .header = (.header h, c)
  | content reader, c, h => c.tag? = some h.tag ∧ reader.HandsOut c h

/-- The inspection fails with this failure. -/
def Fails : Inspection → Cursor → Failure → Prop
  | header, c, failure => c.perform .header = (.failed failure, c)
  | content reader, c, failure => reader.Refused c failure

variable {q : Inspection} {c : Cursor} {h g : Header} {failure failure' : Failure} {b s : ByteArray}

theorem finds_of_element {e : Element} (found : c.element q.rule = .ok e) : q.Finds c e.header := by
  cases q with
  | header =>
    have read : c.header = .ok e.header := map_eq_ok_iff.mpr ⟨e, found, rfl⟩
    rw [Finds, Cursor.perform, read]
  | content reader => exact ⟨Cursor.tag?_of_element found, Reader.handsOut_of_ok found⟩

theorem fails_of_element (refused : c.element q.rule = .error failure) : q.Fails c failure := by
  cases q with
  | header =>
    have unread : c.header = .error failure := map_eq_error_iff.mpr refused
    rw [Fails, Cursor.perform, unread]
  | content reader => exact Reader.refused_of_error refused

theorem Finds.not_fails (found : q.Finds c h) : ¬ q.Fails c failure := by
  intro refused
  cases q with
  | header => cases (Prod.mk.inj (found.symm.trans refused)).1
  | content reader =>
    obtain ⟨-, answer, shown, get, -⟩ := found
    have nothing : answer = .nothing := (Prod.mk.inj (get.symm.trans refused.get)).1
    subst nothing
    cases reader with
    | child kind =>
      obtain ⟨d, opened, -⟩ := shown
      cases opened
    | range kind =>
      obtain ⟨w, handed, -⟩ := shown
      cases handed

theorem Finds.unique (found : q.Finds c h) (found' : q.Finds c g) : h = g := by
  cases q with
  | header => exact Outcome.header.inj (Prod.mk.inj (found.symm.trans found')).1
  | content reader =>
    obtain ⟨tag, answer, shown, get, -⟩ := found
    obtain ⟨tag', answer', shown', get', -⟩ := found'
    obtain rfl : answer = answer' := (Prod.mk.inj (get.symm.trans get')).1
    exact shown.unique shown' (Option.some.inj (tag.symm.trans tag'))

theorem Fails.unique (refused : q.Fails c failure) (refused' : q.Fails c failure') : failure = failure' := by
  cases q with
  | header => exact Outcome.failed.inj (Prod.mk.inj (refused.symm.trans refused')).1
  | content reader =>
    have raised := (Prod.mk.inj (refused.expect.symm.trans refused'.expect)).1
    exact congrArg DecodeError.failure (Outcome.raised.inj raised)

theorem finds_iff : q.Finds c h ↔ ∃ e, c.element q.rule = .ok e ∧ e.header = h := by
  constructor
  · intro found
    cases read : c.element q.rule with
    | ok e => exact ⟨e, rfl, (finds_of_element read).unique found⟩
    | error failure => exact absurd (fails_of_element read) found.not_fails
  · rintro ⟨e, found, rfl⟩
    exact finds_of_element found

theorem fails_iff : q.Fails c failure ↔ c.element q.rule = .error failure := by
  refine ⟨fun refused => ?_, fails_of_element⟩
  cases read : c.element q.rule with
  | ok e => exact absurd refused (finds_of_element read).not_fails
  | error failure' => rw [(fails_of_element read).unique refused]

/-! ### Inspections at the front of an input -/

theorem element_ofBytes (b : ByteArray) (rule : TagRule) :
    (Cursor.ofBytes b).element rule =
      match Header.scan rule b.data.toList with
      | .ok h => .ok (h.elementIn (.ofBytes b))
      | .error (defect, ahead) => .error ⟨defect, (ahead : Nat)⟩ := by
  show Element.read rule (Window.ofBytes b) = _
  rw [Element.read_eq_scan, Window.toList_ofBytes]
  cases Header.scan rule b.data.toList with
  | ok h => rfl
  | error failed =>
    have front : (Window.ofBytes b).start + failed.2 = failed.2 := Nat.zero_add failed.2
    simp only [front]

theorem finds_ofBytes_iff : q.Finds (.ofBytes b) h ↔ Header.scan q.rule b.data.toList = .ok h := by
  rw [finds_iff, element_ofBytes]
  cases scanned : Header.scan q.rule b.data.toList with
  | ok g =>
    have same : (g.elementIn (.ofBytes b)).header = g :=
      Header.header_elementIn (by rw [Window.toList_ofBytes, scanned])
    simp [same]
  | error failed => simp

theorem fails_ofBytes_iff :
    q.Fails (.ofBytes b) failure ↔ ∃ defect ahead,
      Header.scan q.rule b.data.toList = .error (defect, ahead) ∧ failure = ⟨defect, (ahead : Nat)⟩ := by
  rw [fails_iff, element_ofBytes]
  cases scanned : Header.scan q.rule b.data.toList with
  | ok g => simp
  | error failed =>
    obtain ⟨defect, ahead⟩ := failed
    constructor
    · intro refused
      exact ⟨defect, ahead, rfl, (Except.error.inj refused).symm⟩
    · rintro ⟨_, _, same, rfl⟩
      cases same
      rfl

end Inspection

/-! ### More bytes and fewer -/

/-- The bytes begin with the tag and with a length field that declare this header. -/
def Header.DeclaredBy (h : Header) (b : ByteArray) : Prop :=
  ∃ form : LengthForm, h.tag :: form.octets <+: b.data.toList ∧ h.headerLength = 1 + form.octets.length ∧
    h.length = form.length

theorem Header.DeclaredBy.append {h : Header} {b : ByteArray} (declared : h.DeclaredBy b) (s : ByteArray) :
    h.DeclaredBy (b ++ s) := by
  obtain ⟨form, front, parts⟩ := declared
  refine ⟨form, ?_, parts⟩
  rw [ByteArray.toList_data_append]
  exact front.trans (List.prefix_append b.data.toList s.data.toList)

/-- A caller sees the same of both answers, the bytes of a range included. -/
structure Outcome.IsLike (one other : Outcome) : Prop where
  view : one.view = other.view
  bytes : one.bytes = other.bytes

/-- What an inspection at the front of `b` tells of longer inputs and of shorter ones. -/
structure Inspection.AnswersInParts (q : Inspection) (b : ByteArray) : Prop where
  found : ∀ h, q.Finds (.ofBytes b) h → ∀ s, q.Finds (.ofBytes (b ++ s)) h ∧
    ∀ action ∈ q.actions,
      ((Cursor.ofBytes b).perform action).1.IsLike ((Cursor.ofBytes (b ++ s)).perform action).1
  refused : ∀ failure, q.Fails (.ofBytes b) failure →
    failure.code = .tagMismatch ∨ failure.code = .malformedLength →
      ∀ s, q.Fails (.ofBytes (b ++ s)) failure
  declared : ∀ failure, q.Fails (.ofBytes b) failure → failure.code = .lengthOutOfBounds →
    ∃ h : Header, h.DeclaredBy b ∧
      failure.detail = "declared length " ++ toString h.length ++ " exceeds "
        ++ toString (b.size - h.headerLength) ++ " remaining bytes"
  outOfBounds : ∀ failure, q.Fails (.ofBytes b) failure → failure.code = .lengthOutOfBounds →
    ∀ h : Header, h.DeclaredBy b → ∀ s,
      (q.Finds (.ofBytes (b ++ s)) h ↔ h.headerLength + h.length ≤ b.size + s.size) ∧
        (b.size + s.size < h.headerLength + h.length →
          ∃ failure, q.Fails (.ofBytes (b ++ s)) failure ∧ failure.code = .lengthOutOfBounds)
  cutOff : ∀ h, q.Finds (.ofBytes b) h → ∀ k < h.headerLength + h.length,
    ∃ failure, q.Fails (.ofBytes (b.extract 0 k)) failure ∧
      (failure.code = .truncatedInput ↔ k < h.headerLength) ∧
      (failure.code = .lengthOutOfBounds ↔ h.headerLength ≤ k)

theorem Failure.isFinal_of_code {failure : Failure}
    (h : failure.code = .tagMismatch ∨ failure.code = .malformedLength) : failure.defect.isFinal = true := by
  obtain ⟨defect, offset⟩ := failure
  cases defect with
  | unexpectedTag rule found => rfl
  | tooManyOctets count => rfl
  | lengthTooLarge => rfl
  | _ => rcases h with h | h <;> cases h

theorem Failure.contentTooLong_of_code {failure : Failure} (h : failure.code = .lengthOutOfBounds) :
    ∃ length left, failure.defect = .contentTooLong length left := by
  obtain ⟨defect, offset⟩ := failure
  cases defect with
  | contentTooLong length left => exact ⟨length, left, rfl⟩
  | _ => cases h

/-- An element that is found is there as a whole. -/
theorem Header.size_le_of_scan {rule : TagRule} {bytes : List UInt8} {h : Header}
    (found : scan rule bytes = .ok h) : h.headerLength + h.length ≤ bytes.length := by
  obtain ⟨x, -, front, rfl⟩ := scan_eq_ok_iff.mp found
  have size : x.header.headerLength + x.header.length = x.bytes.length := x.length_bytes.symm
  rw [size]
  exact front.length_le

theorem Reader.Shows.isLike {reader : Reader} {b s : ByteArray} {h : Header} {one other : Outcome}
    (shown : reader.Shows (.ofBytes b) h one) (shown' : reader.Shows (.ofBytes (b ++ s)) h other)
    (fits : h.headerLength + h.length ≤ b.data.toList.length) : one.IsLike other := by
  cases reader with
  | child kind =>
    obtain ⟨d, rfl, -, position, remaining, usable, context⟩ := shown
    obtain ⟨d', rfl, -, position', remaining', usable', context'⟩ := shown'
    refine ⟨congrArg View.opened ?_, rfl⟩
    rw [Cursor.view, Cursor.view, position, position', remaining, remaining', usable, usable', context,
      context']
    rfl
  | range kind =>
    obtain ⟨w, rfl, origin, start, size⟩ := shown
    obtain ⟨w', rfl, origin', start', size'⟩ := shown'
    constructor
    · show View.range w.start w.size = .range w'.start w'.size
      rw [start, start', size, size']
      rfl
    · show w.toList = w'.toList
      have front (bytes : ByteArray) : (Cursor.ofBytes bytes).position + h.headerLength = h.headerLength :=
        Nat.zero_add _
      have inside : h.length ≤ (b.data.toList.drop h.headerLength).length := by
        rw [List.length_drop]
        omega
      rw [Window.toList_eq, Window.toList_eq, origin, origin', start, start', size, size', front, front]
      show _ = ((b ++ s).data.toList.drop h.headerLength).take h.length
      rw [ByteArray.toList_data_append, List.drop_append_of_le_length (by omega),
        List.take_append_of_le_length inside]
      rfl

namespace Inspection

variable {q : Inspection} {b s : ByteArray} {h : Header} {failure : Failure}

theorem finds_append (found : q.Finds (.ofBytes b) h) (s : ByteArray) : q.Finds (.ofBytes (b ++ s)) h := by
  rw [finds_ofBytes_iff] at found ⊢
  rw [ByteArray.toList_data_append]
  exact Header.scan_append_of_ok found s.data.toList

/-- The answers to an inspection that finds something do not change with what follows. -/
theorem isLike_append (found : q.Finds (.ofBytes b) h) (s : ByteArray) {action : Action}
    (asked : action ∈ q.actions) :
    ((Cursor.ofBytes b).perform action).1.IsLike ((Cursor.ofBytes (b ++ s)).perform action).1 := by
  have fits := Header.size_le_of_scan (finds_ofBytes_iff.mp found)
  have again := finds_append found s
  cases q with
  | header =>
    obtain rfl := List.mem_singleton.mp asked
    rw [show Cursor.perform .header (.ofBytes b) = _ from found,
      show Cursor.perform .header (.ofBytes (b ++ s)) = _ from again]
    exact ⟨rfl, rfl⟩
  | content reader =>
    obtain ⟨-, one, shown, get, expect⟩ := found
    obtain ⟨-, other, shown', get', expect'⟩ := again
    have alike := shown.isLike shown' fits
    rcases List.mem_cons.mp asked with rfl | asked
    · rw [get, get']
      exact alike
    · obtain rfl := List.mem_singleton.mp asked
      rw [expect, expect']
      exact alike

theorem fails_append (refused : q.Fails (.ofBytes b) failure) (final : failure.defect.isFinal = true)
    (s : ByteArray) : q.Fails (.ofBytes (b ++ s)) failure := by
  obtain ⟨defect, ahead, scanned, rfl⟩ := fails_ofBytes_iff.mp refused
  refine fails_ofBytes_iff.mpr ⟨defect, ahead, ?_, rfl⟩
  rw [ByteArray.toList_data_append]
  exact Header.scan_append_of_final scanned final s.data.toList

/-- Where content is too long, the header is there as a whole, with a tag that is accepted. -/
theorem exists_form_of_outOfBounds (refused : q.Fails (.ofBytes b) failure)
    (code : failure.code = .lengthOutOfBounds) :
    ∃ tag form rest, b.data.toList = tag :: (LengthForm.octets form ++ rest) ∧ q.rule.accepts tag = true ∧
      failure.defect = .contentTooLong form.length rest.length := by
  obtain ⟨length, left, tooLong⟩ := Failure.contentTooLong_of_code code
  obtain ⟨defect, ahead, scanned, rfl⟩ := fails_ofBytes_iff.mp refused
  obtain rfl : defect = .contentTooLong length left := tooLong
  obtain ⟨tag, form, rest, shown, accepted, rfl, rfl⟩ := Header.exists_form_of_contentTooLong scanned
  exact ⟨tag, form, rest, shown, accepted, rfl⟩

theorem accepts_of_outOfBounds (refused : q.Fails (.ofBytes b) failure)
    (code : failure.code = .lengthOutOfBounds) (declared : h.DeclaredBy b) :
    q.rule.accepts h.tag = true := by
  obtain ⟨tag, form, rest, shown, accepted, -⟩ := exists_form_of_outOfBounds refused code
  obtain ⟨form', ⟨rest', front⟩, -⟩ := declared
  rw [(List.cons.inj (front.trans shown)).1]
  exact accepted

/-- A declared header is found if there is room for the content, and otherwise out of bounds. -/
theorem finds_or_fails_of_declaredBy (declared : h.DeclaredBy b) (accepted : q.rule.accepts h.tag = true) :
    (h.headerLength + h.length ≤ b.size → q.Finds (.ofBytes b) h) ∧
      (b.size < h.headerLength + h.length →
        ∃ failure, q.Fails (.ofBytes b) failure ∧ failure.code = .lengthOutOfBounds) := by
  obtain ⟨tag, headerLength, length⟩ := h
  obtain ⟨form, ⟨rest, front⟩, rfl, rfl⟩ := declared
  have scanned := Header.scan_of_form accepted form rest
  have size : b.size = 1 + form.octets.length + rest.length := by
    show b.data.toList.length = _
    rw [← front, List.length_append, List.length_cons]
    omega
  rw [← List.cons_append, front] at scanned
  constructor
  · intro enough
    have room : ¬ rest.length < form.length := by
      simp only at enough
      omega
    rw [if_neg room] at scanned
    exact finds_ofBytes_iff.mpr scanned
  · intro short
    have missing : rest.length < form.length := by
      simp only at short
      omega
    rw [if_pos missing] at scanned
    exact ⟨_, fails_ofBytes_iff.mpr ⟨_, _, scanned, rfl⟩, rfl⟩

/-- Every beginning of an element that is found is refused, in a way that tells which part is missing. -/
theorem exists_fails_extract (found : q.Finds (.ofBytes b) h) {k : Nat}
    (short : k < h.headerLength + h.length) :
    ∃ failure, q.Fails (.ofBytes (b.extract 0 k)) failure ∧
      failure.code = if k < h.headerLength then .truncatedInput else .lengthOutOfBounds := by
  obtain ⟨x, accepted, ⟨tail, front⟩, rfl⟩ := Header.scan_eq_ok_iff.mp (finds_ofBytes_iff.mp found)
  have inside : k < x.bytes.length := by
    rw [Encoding.length_bytes]
    exact short
  have beginning : (b.extract 0 k).data.toList = x.bytes.take k := by
    rw [toList_extract_zero, ← front, List.take_append_of_le_length (Nat.le_of_lt inside)]
  obtain ⟨defect, ahead, scanned, code⟩ := Header.exists_scan_take_bytes x accepted inside
  rw [← beginning] at scanned
  exact ⟨_, fails_ofBytes_iff.mpr ⟨defect, ahead, scanned, rfl⟩, code _⟩

/-- Answers on a part of an input tell what there is to know of the whole. -/
theorem answers_in_parts (q : Inspection) (b : ByteArray) : q.AnswersInParts b := by
  refine ⟨fun h found s => ⟨finds_append found s, fun action => isLike_append found s⟩, ?_, ?_, ?_, ?_⟩
  · intro failure refused code s
    exact fails_append refused (Failure.isFinal_of_code code) s
  · intro failure refused code
    obtain ⟨tag, form, rest, shown, -, tooLong⟩ := exists_form_of_outOfBounds refused code
    have front : tag :: form.octets <+: b.data.toList := ⟨rest, by rw [shown, List.cons_append]⟩
    have left : b.size - (1 + form.octets.length) = rest.length := by
      show b.data.toList.length - _ = _
      rw [shown, List.length_cons, List.length_append]
      omega
    refine ⟨⟨tag, 1 + form.octets.length, form.length⟩, ⟨form, front, rfl, rfl⟩, ?_⟩
    simp only [Failure.detail, tooLong, left]
  · intro failure refused code h declared s
    obtain ⟨enough, short⟩ := finds_or_fails_of_declaredBy (declared.append s)
      (accepts_of_outOfBounds refused code declared)
    rw [ByteArray.size_append] at enough short
    refine ⟨⟨fun found => ?_, enough⟩, short⟩
    rcases Nat.lt_or_ge (b.size + s.size) (h.headerLength + h.length) with missing | room
    · obtain ⟨failure, refused, -⟩ := short missing
      exact absurd refused found.not_fails
    · exact room
  · intro h found k short
    obtain ⟨failure, refused, code⟩ := exists_fails_extract found short
    refine ⟨failure, refused, ?_⟩
    rw [code]
    by_cases inHeader : k < h.headerLength
    · simp [inHeader]
    · simp [inHeader, Nat.not_lt.mp inHeader]

end Inspection
end Ber
