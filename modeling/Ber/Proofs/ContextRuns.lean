import Ber.Proofs.HeaderAnswers
import Ber.Proofs.Poisoning
import Ber.Proofs.Progress
import Ber.Proofs.View

/-!
# Runs of context-specific elements

`skipContext` passes over optional fields, whose number is not known, and whoever calls it relies on none
of them being left in front. What it passes over is the longest row of `[n]` elements that stands there, a
`ContextRun`. Every list of bytes begins with one, if it be empty (`exists_contextRun`), and with just one,
since an encoding tells its own end.

Behind the run the loop has come to its end in one of two ways. Where no `[n]` tag stands, it stops, and no
`[n]` element can be opened (`enter_context_of_no_tag`). Where one stands, no element can begin with it, or
the run would be longer; so there is no header to read (`exists_header_error`), and the move fails at the
tag. Both ends are such that skipping again does nothing (`skipContext_again`).

The loop is written out once more as `skipWithin`, which gives up after a number of turns: it does not, if it
may take more turns than half as many as there are bytes left.
-/

namespace Ber

/-- The tag of an `[n]` element, by its place among the tags. -/
def Tag.InContextRange (tag : Tag) : Prop := 0xa0 ≤ tag ∧ tag ≤ 0xbf

/-- `row` is the longest row of `[n]` elements in front of some bytes, and `tail` stands behind it. -/
structure ContextRun (bytes : List UInt8) (row : List Encoding) (tail : List UInt8) : Prop where
  cut : bytes = Encoding.rowBytes row ++ tail
  tagged : ∀ x ∈ row, x.tag.InContextRange
  /-- Every other such row in front is a part of this one. -/
  longest : ∀ other rest, bytes = Encoding.rowBytes other ++ rest →
    (∀ x ∈ other, x.tag.InContextRange) → other <+: row

namespace ContextRun

variable {bytes rest tail : List UInt8} {row : List Encoding} {x : Encoding}

theorem nil (stop : ∀ x : Encoding, x.tag.InContextRange → ¬ x.bytes <+: bytes) :
    ContextRun bytes [] bytes := by
  refine ⟨rfl, by simp, ?_⟩
  intro other rest same tagged
  cases other with
  | nil => exact List.nil_prefix
  | cons y other =>
    rw [Encoding.rowBytes_cons, List.append_assoc] at same
    exact absurd ⟨_, same.symm⟩ (stop y (tagged y List.mem_cons_self))

theorem cons (h : ContextRun rest row tail) (tagged : x.tag.InContextRange) :
    ContextRun (x.bytes ++ rest) (x :: row) tail := by
  refine ⟨?_, List.forall_mem_cons.mpr ⟨tagged, h.tagged⟩, ?_⟩
  · rw [Encoding.rowBytes_cons, List.append_assoc, ← h.cut]
  · intro other rest' same others
    cases other with
    | nil => exact List.nil_prefix
    | cons y other =>
      rw [Encoding.rowBytes_cons, List.append_assoc] at same
      obtain ⟨rfl, later⟩ := Encoding.append_inj same
      have further := h.longest other rest' later fun z mem => others z (List.mem_cons_of_mem _ mem)
      exact List.cons_prefix_cons.mpr ⟨rfl, further⟩

/-- No `[n]` element begins behind the run. -/
theorem not_isPrefix (h : ContextRun bytes row tail) (tagged : x.tag.InContextRange) :
    ¬ x.bytes <+: tail := by
  rintro ⟨rest, rfl⟩
  have longer : row ++ [x] <+: row := by
    refine h.longest _ rest ?_ ?_
    · rw [h.cut]
      simp [Encoding.rowBytes]
    · intro y mem
      rcases List.mem_append.mp mem with mem | mem
      · exact h.tagged y mem
      · rw [List.mem_singleton.mp mem]
        exact tagged
  have length := longer.length_le
  simp at length

end ContextRun

/-- All bytes begin with a run: elements are taken off in front for as long as there are some. -/
theorem exists_contextRun (bytes : List UInt8) : ∃ row tail, ContextRun bytes row tail := by
  by_cases more : ∃ x : Encoding, x.tag.InContextRange ∧ x.bytes <+: bytes
  · obtain ⟨x, tagged, rest, cut⟩ := more
    obtain ⟨row, tail, run⟩ := exists_contextRun rest
    exact ⟨x :: row, tail, cut ▸ run.cons tagged⟩
  · exact ⟨[], bytes, .nil fun x tagged front => more ⟨x, tagged, front⟩⟩
termination_by bytes.length
decreasing_by
  rw [← cut, List.length_append, Encoding.length_bytes]
  have := x.two_le_headerLength
  omega

namespace Cursor

variable {c d : Cursor} {origin : ByteArray} {start : Nat} {bytes tail : List UInt8} {row : List Encoding}

/-! ### What stands behind a run -/

theorem tagContext_nexts (n : Nat) (c : Cursor) : (c.nexts n).tagContext = c.tagContext := by
  induction n generalizing c with
  | zero => rfl
  | succ n ih =>
    rw [nexts, ih, next]
    cases advanced : c.advance with
    | ok d => exact tagContext_of_advance advanced
    | error failure => rfl

/-- A tag is refused with what is wrong behind it. -/
theorem code_of_header_error {failure : Failure} {tag : Tag} {rest : List UInt8}
    (usable : c.usable = true) (shown : c.window.toList = tag :: rest) (refused : c.header = .error failure) :
    failure.code = .truncatedInput ∨ failure.code = .malformedLength ∨ failure.code = .lengthOutOfBounds := by
  rw [header_eq_scan usable, shown] at refused
  cases scanned : LengthField.scan rest.length rest with
  | error defect =>
    rw [Header.scan_of_defect scanned] at refused
    cases refused
    rcases LengthField.scan_eq_error scanned with rfl | ⟨count, rfl⟩ | ⟨count, left, rfl⟩ | rfl
    · exact .inl rfl
    · exact .inr (.inl rfl)
    · exact .inl rfl
    · exact .inr (.inl rfl)
  | ok field =>
    rw [Header.scan_of_field scanned] at refused
    by_cases tooLong : rest.length - field.octets < field.length
    · rw [if_pos tooLong] at refused
      cases refused
      exact .inr (.inr rfl)
    · rw [if_neg tooLong] at refused
      cases refused

/-- Skipping passes over a row of `[n]` elements as moving over each of them does. -/
theorem skipContext_eq_nexts (h : c.On origin start (Encoding.rowBytes row ++ tail))
    (tagged : ∀ x ∈ row, x.tag.InContextRange) : c.skipContext = (c.nexts row.length).skipContext := by
  have tags : ∀ x ∈ row, x.tag.isContext = true := fun x mem => (Tag.isContext_iff x.tag).mpr (tagged x mem)
  obtain ⟨d, skipped, on, context⟩ := exists_skipContext_eq row h tags
  have behind := (nexts_rowBytes row h).1
  rw [skipped, on.unique behind (context.trans (tagContext_nexts row.length c).symm)]

theorem atContext_eq_true_iff (h : c.On origin start bytes) :
    c.atContext = true ↔ ∃ tag : Tag, bytes.head? = some tag ∧ tag.InContextRange := by
  rw [atContext_iff, tag?_eq h]
  rfl

/-- Where no `[n]` tag stands, no `[n]` element is opened. -/
theorem enter_context_of_no_tag (h : c.On origin start bytes) (stop : c.atContext = false) :
    (c.perform (.enter .context)).1 = .nothing := by
  cases entered : c.enter .context with
  | ok d =>
    obtain ⟨x, tail, rfl, accepted, -⟩ := (enter_eq_ok_iff h).mp entered
    have front : c.atContext = true :=
      (atContext_eq_true_iff h).mpr ⟨x.tag, rfl, (Tag.isContext_iff x.tag).mp accepted⟩
    exact absurd (front.symm.trans stop) Bool.noConfusion
  | error failure => rw [perform, entered]

/-- Where an `[n]` tag stands and no `[n]` element, there is no header to read. -/
theorem exists_header_error (h : c.On origin start bytes) (front : c.atContext = true)
    (none_begins : ∀ x : Encoding, x.tag.InContextRange → ¬ x.bytes <+: bytes) :
    ∃ failure, c.header = .error failure := by
  obtain ⟨tag, head, tagged⟩ := (atContext_eq_true_iff h).mp front
  cases found : c.header with
  | error failure => exact ⟨failure, rfl⟩
  | ok header =>
    obtain ⟨x, tail, rfl, -⟩ := (header_eq_ok_iff h).mp found
    have same : x.tag = tag := by simpa [Encoding.bytes] using head
    exact absurd (List.prefix_append _ _) (none_begins x (same ▸ tagged))

/-- Skipping once more does nothing. -/
theorem skipContext_again (c : Cursor) : c.skipContext.2.skipContext = c.skipContext := by
  fun_induction skipContext c with
  | case1 c front moved advanced ih => exact ih
  | case2 c front failure refused => exact skipContext_of_not_atContext rfl
  | case3 c front => exact skipContext_of_not_atContext (Bool.eq_false_iff.mpr front)

/-! ### The loop -/

/-- The loop of `skipContext`, given up after so many turns. -/
def skipWithin : (turns : Nat) → Cursor → Option (Bool × Cursor)
  | 0, _ => none
  | turns + 1, c =>
    if c.atContext then
      match c.next with
      | (true, moved) => skipWithin turns moved
      | (false, failed) => some (false, failed)
    else some (c.usable, c)

/-- Every turn but the last passes over a header of two bytes at least. -/
theorem skipWithin_eq {turns : Nat} (enough : c.remaining / 2 < turns) :
    c.skipWithin turns = some c.skipContext := by
  induction turns generalizing c with
  | zero => exact absurd enough (Nat.not_lt_zero _)
  | succ turns ih =>
    rw [skipWithin]
    split
    · next front =>
      cases advanced : c.advance with
      | ok moved =>
        have less := (move_iff.mpr (.inl advanced)).remaining_add_two_le
        rw [next_of_advance advanced, skipContext_of_advance front advanced]
        exact ih (by omega)
      | error failure =>
        rw [skipContext_of_error front advanced, next, advanced]
    · next stop => rw [skipContext_of_not_atContext (Bool.eq_false_iff.mpr stop)]

/-! ### Every cursor -/

/-- What skipping does to a usable cursor with the run `row` in front and `tail` behind it. -/
structure SkipsRun (c : Cursor) (row : List Encoding) (tail : List UInt8) : Prop where
  run : ContextRun c.window.toList row tail
  passes : (∀ tag : Tag, tail.head? = some tag → ¬ tag.InContextRange) →
    ∃ d, c.perform .skipContext = (.flag true, d) ∧
      d.view = ⟨c.position + (Encoding.rowBytes row).length, c.remaining - (Encoding.rowBytes row).length,
        true, c.tagContext⟩ ∧
      d.window.toList = tail ∧ (row = [] → d = c) ∧ (d.perform (.enter .context)).1 = .nothing
  fails : ∀ tag : Tag, tail.head? = some tag → tag.InContextRange →
    ∃ d, c.perform .skipContext = (.flag false, d) ∧
      d.view = ⟨c.position + (Encoding.rowBytes row).length, 0, false, c.tagContext⟩ ∧
      -- moving over the elements of the run leads to the place of the failure
      ∃ failure, (c.nexts row.length).position = d.position ∧
        (c.nexts row.length).header = .error failure ∧ (failure.code = .truncatedInput ∨
          failure.code = .malformedLength ∨ failure.code = .lengthOutOfBounds)

/-- What skipping does to a cursor. -/
structure SkipsLongestRun (c : Cursor) : Prop where
  ends : ∀ turns, c.remaining / 2 < turns → c.skipWithin turns = some c.skipContext
  unusable : c.usable = false → c.perform .skipContext = (.flag false, c)
  usable : c.usable = true → ∃ row tail, c.SkipsRun row tail
  again : (c.perform .skipContext).2.perform .skipContext = c.perform .skipContext

/-- Behind the run the cursor is the one that moving over its elements leads to. -/
theorem on_nexts_of_run (usable : c.usable = true) (run : ContextRun c.window.toList row tail) :
    (c.nexts row.length).On c.window.origin (c.position + (Encoding.rowBytes row).length) tail ∧
      c.skipContext = (c.nexts row.length).skipContext := by
  have on : c.On c.window.origin c.position (Encoding.rowBytes row ++ tail) := run.cut ▸ on_self usable
  exact ⟨(nexts_rowBytes row on).1, skipContext_eq_nexts on run.tagged⟩

theorem skipsRun (usable : c.usable = true) (run : ContextRun c.window.toList row tail) :
    c.SkipsRun row tail := by
  obtain ⟨behind, skipped⟩ := on_nexts_of_run usable run
  have context := tagContext_nexts row.length c
  have place : (c.nexts row.length).position = c.position + (Encoding.rowBytes row).length :=
    behind.window.start
  refine ⟨run, ?_, ?_⟩
  · intro untagged
    have stop : (c.nexts row.length).atContext = false := by
      rw [Bool.eq_false_iff]
      intro front
      obtain ⟨tag, head, tagged⟩ := (atContext_eq_true_iff behind).mp front
      exact untagged tag head tagged
    have left : (c.nexts row.length).remaining = c.remaining - (Encoding.rowBytes row).length := by
      have whole := congrArg List.length run.cut
      rw [List.length_append, c.window.length_toList] at whole
      rw [remaining_eq behind, remaining]
      omega
    rw [skipContext_of_not_atContext stop, behind.usable] at skipped
    refine ⟨c.nexts row.length, ?_, ?_, behind.window.toList, ?_, enter_context_of_no_tag behind stop⟩
    · rw [perform, skipped]
    · rw [view, place, left, behind.usable, context]
    · rintro rfl
      rfl
  · intro tag head tagged
    have front := (atContext_eq_true_iff behind).mpr ⟨tag, head, tagged⟩
    obtain ⟨failure, refused⟩ := exists_header_error behind front fun x => run.not_isPrefix
    obtain ⟨rest, rfl⟩ := List.head?_eq_some_iff.mp head
    rw [skipContext_of_error front (advance_eq_error_iff.mpr refused)] at skipped
    refine ⟨(c.nexts row.length).poisoned, ?_, ?_, failure, rfl, refused, ?_⟩
    · rw [perform, skipped]
    · rw [view, ← place, ← context]
      show (⟨_, min 0 _, _, _⟩ : CursorView) = _
      rw [Nat.zero_min]
      rfl
    · exact code_of_header_error behind.usable behind.window.toList refused

/-- Skipping passes over the longest row of `[n]` elements, at every cursor, and stops or fails behind it. -/
theorem skips_longest_run (c : Cursor) : c.SkipsLongestRun := by
  refine ⟨fun turns => skipWithin_eq, ?_, ?_, ?_⟩
  · intro unusable
    have stop : c.atContext = false := by
      rw [atContext, tag?, unusable]
      rfl
    rw [perform, skipContext_of_not_atContext stop, unusable]
  · intro usable
    obtain ⟨row, tail, run⟩ := exists_contextRun c.window.toList
    exact ⟨row, tail, skipsRun usable run⟩
  · simp only [perform, skipContext_again]

end Cursor

end Ber
