import Ber.Proofs.Independence
import Ber.Proofs.LengthDecoding
import Ber.Proofs.Siblings

/-!
# Where cursors come from

The context number of a cursor is set once, when the cursor is made, and callers take it as the number of
the `[n]` element that they are reading. They are right to: a cursor with the number `n` stands in the
content of an element with the tag `0xa0 + n`, however it has been moved or forked since, and while it is
usable its region ends where that content does (`Cursor.StandsIn`).

How a cursor was made is noted from the steps of a session and their answers (`openingOf`). Moves do not
change what is noted, a fork has what is noted of its source, and what a reader opens begins anew: on an
`[n]` element with its number, on a SEQUENCE or SET without one, in whatever elements it may lie.
-/

namespace Ber

/-! ### Elements in the array -/

/-- At `place` in the array stands the header of an `[n]` element, with this length field and with room for
the content behind it. -/
structure ContextAt (bytes : ByteArray) (n place : Nat) (field : LengthField) : Prop where
  number : n ≤ 31
  tag : bytes.data.toList[place]? = some (UInt8.ofNat (0xa0 + n))
  read : LengthField.read ((Window.ofBytes bytes).drop (place + 1)) (bytes.size - (place + 1) : Nat) =
    .ok field
  /-- Any caller decodes this length field there who may read its octets. A place above `maxExact` is no
  exact number, so nobody can ask for it. -/
  decoded : ∀ available : Quantity, place + 1 ≤ maxExact →
    field.octets ≤ available.wholeBytes (bytes.size - (place + 1)) →
    LengthField.decode bytes (place + 1 : Nat) available = .ok field
  fits : place + 1 + field.octets + field.length ≤ bytes.size

/-- The cursor stands in the content of the `[n]` element with this header. -/
structure Cursor.StandsIn (c : Cursor) (bytes : ByteArray) (n place : Nat) (field : LengthField) : Prop where
  header : ContextAt bytes n place field
  behind : place + 1 + field.octets ≤ c.position
  within : c.position ≤ place + 1 + field.octets + field.length
  stop : c.usable = true → c.position + c.remaining = place + 1 + field.octets + field.length

/-- The tag of an `[n]` element is told by its number. -/
theorem Tag.eq_of_isContext (tag : Tag) :
    tag.isContext = true → tag.contextNumber ≤ 31 ∧ tag = UInt8.ofNat (0xa0 + tag.contextNumber) := by
  revert tag
  exact forall_byte (by decide +kernel)

/-- An encoding with the tag of an `[n]` element is one. -/
theorem contextAt_of_drop {bytes : ByteArray} {place : Nat} {x : Encoding} {more : List UInt8}
    (stands : bytes.data.toList.drop place = x.bytes ++ more) (tagged : x.tag.isContext = true) :
    ContextAt bytes x.tag.contextNumber place ⟨x.form.length, x.form.octets.length⟩ := by
  obtain ⟨number, tag⟩ := x.tag.eq_of_isContext tagged
  have length := congrArg List.length stands
  rw [List.length_drop, List.length_append, x.length_bytes, x.complete] at length
  have size : bytes.data.toList.length = bytes.size := rfl
  have header : x.headerLength = 1 + x.form.octets.length := rfl
  have two := x.two_le_headerLength
  have behind : bytes.data.toList.drop (place + 1) = x.form.octets ++ (x.content ++ more) := by
    rw [← List.drop_drop, stands]
    simp [Encoding.bytes]
  refine ⟨number, ?_, ?_, ?_, ?_⟩
  · rw [← tag, ← List.head?_drop, stands]
    rfl
  · rw [LengthField.read_eq_scan, Window.toList_drop, Window.toList_ofBytes, behind]
    exact LengthField.scan_octets x.form _ _
  · intro available small room
    refine LengthField.decode_of_form x.form (Quantity.place?_natCast (by omega) small) room ?_
    rw [toList_extract, behind, List.take_left]
  · show place + 1 + x.form.octets.length + x.form.length ≤ bytes.size
    omega

namespace Cursor

variable {c d : Cursor} {bytes : ByteArray} {n place : Nat} {field : LengthField}

namespace StandsIn

theorem poisoned (h : c.StandsIn bytes n place field) : c.poisoned.StandsIn bytes n place field :=
  ⟨h.header, h.behind, h.within, fun usable => Bool.noConfusion usable⟩

theorem advance (h : c.StandsIn bytes n place field) (advanced : c.advance = .ok d) :
    d.StandsIn bytes n place field := by
  have whole := h.stop (usable_of_advance advanced)
  have behind := h.behind
  obtain ⟨e, found, rfl⟩ := map_eq_ok_iff.mp advanced
  have fills := fills_of_element found
  have start := fills.restStart
  have size := fills.size
  simp only [position, remaining] at whole behind
  refine ⟨h.header, ?_, ?_, fun _ => ?_⟩
  · show _ ≤ e.rest.start
    omega
  · show e.rest.start ≤ _
    omega
  · show e.rest.start + e.rest.size = _
    omega

end StandsIn

/-- The array has what a cursor has before it, at its place. -/
theorem On.exists_drop_eq {start : Nat} {shown : List UInt8} (h : c.On bytes start shown) :
    ∃ more, bytes.data.toList.drop start = shown ++ more := by
  have view := h.window.toList
  rw [Window.toList_eq, h.window.origin, h.window.start] at view
  exact ⟨_, by rw [← view, List.take_append_drop]⟩

/-- A cursor that was opened on an `[n]` element stands in its content. -/
theorem standsIn_of_enter (origin : c.window.origin = bytes) (entered : c.enter .context = .ok d) :
    ∃ tag : Tag, c.tag? = some tag ∧ d.tagContext = some tag.contextNumber ∧
      ∃ field, d.StandsIn bytes tag.contextNumber c.position field := by
  obtain ⟨e, found, -⟩ := map_eq_ok_iff.mp entered
  have on := on_self (usable_of_element found)
  rw [origin] at on
  obtain ⟨x, tail, cut, accepted, inside, context⟩ := (enter_eq_ok_iff on).mp entered
  obtain ⟨more, stands⟩ := on.exists_drop_eq
  rw [cut, List.append_assoc] at stands
  have header : x.headerLength = 1 + x.form.octets.length := rfl
  have place : d.position = c.position + x.headerLength := inside.window.start
  have left := remaining_eq inside
  rw [x.complete] at left
  refine ⟨x.tag, ?_, context, _, contextAt_of_drop stands accepted, ?_, ?_, fun _ => ?_⟩
  · rw [tag?_eq on, cut]
    rfl
  · show c.position + 1 + x.form.octets.length ≤ d.position
    omega
  · show d.position ≤ c.position + 1 + x.form.octets.length + x.form.length
    omega
  · show d.position + d.remaining = c.position + 1 + x.form.octets.length + x.form.length
    omega

theorem tagContext_of_enter {kind : Container} (entered : c.enter kind = .ok d) (plain : kind ≠ .context) :
    d.tagContext = none := by
  obtain ⟨e, -, rfl⟩ := map_eq_ok_iff.mp entered
  cases kind with
  | context => exact absurd rfl plain
  | sequence => rfl
  | set => rfl

end Cursor

/-! ### How cursors are made -/

/-- The kind of element that an action opens. -/
def Action.container? : Action → Option Container
  | .enter kind => some kind
  | .expectEnter kind => some kind
  | _ => none

theorem Action.container?_of_asked {action : Action} {kind : Container}
    (asked : action = .enter kind ∨ action = .expectEnter kind) : action.container? = some kind := by
  rcases asked with rfl | rfl
  · rfl
  · rfl

/-- How a cursor was made: on which kind of element it was opened, if it was, and with which number. -/
structure Opening where
  kind : Option Container
  tagContext : Option Nat

/-- How the cursors were made after some steps with these answers. A fork is made as its source was. -/
def openingOf {Name : Type} [DecidableEq Name] (steps : List (Step Name)) (answers : List (Option Outcome)) :
    Name → Opening :=
  Session.notesAfter
    (fun st openings opened =>
      match st.action.container? with
      | some kind => ⟨some kind, opened.tagContext⟩
      | none => openings st.on)
    (fun _ => ⟨none, none⟩) steps answers

/-- What the context number of a cursor tells of it. -/
structure Cursor.ComesFrom (bytes : ByteArray) (opening : Opening) (c : Cursor) : Prop where
  origin : c.window.origin = bytes
  /-- The number is the one that the cursor was made with. -/
  tagContext : c.tagContext = opening.tagContext
  numbered : opening.kind = some .context → ∃ n, c.tagContext = some n
  plain : opening.kind ≠ some .context → c.tagContext = none
  standsIn : ∀ n, c.tagContext = some n → ∃ place field, c.StandsIn bytes n place field

namespace Cursor.ComesFrom

variable {c d : Cursor} {bytes : ByteArray} {opening : Opening}

theorem perform (h : c.ComesFrom bytes opening) (action : Action) :
    (c.perform action).2.ComesFrom bytes opening := by
  refine perform_preserves ?_ ?_ h action
  · intro c d h advanced
    have same := tagContext_of_advance advanced
    refine ⟨(origin_of_advance advanced).trans h.origin, same.trans h.tagContext, ?_, ?_, ?_⟩
    · rw [same]
      exact h.numbered
    · rw [same]
      exact h.plain
    · intro n number
      obtain ⟨place, field, stands⟩ := h.standsIn n (same ▸ number)
      exact ⟨place, field, stands.advance advanced⟩
  · intro c h
    refine ⟨h.origin, h.tagContext, h.numbered, h.plain, ?_⟩
    intro n number
    obtain ⟨place, field, stands⟩ := h.standsIn n number
    exact ⟨place, field, stands.poisoned⟩

/-- What a reader opens begins anew. -/
theorem enter {kind : Container} (h : c.ComesFrom bytes opening) (entered : c.enter kind = .ok d) :
    d.ComesFrom bytes ⟨some kind, d.tagContext⟩ := by
  have origin : d.window.origin = bytes := (enter_inside entered).2.origin.trans h.origin
  by_cases context : kind = .context
  · subst context
    obtain ⟨tag, -, number, field, stands⟩ := standsIn_of_enter h.origin entered
    refine ⟨origin, rfl, fun _ => ⟨_, number⟩, fun plain => absurd rfl plain, ?_⟩
    intro n same
    cases number.symm.trans same
    exact ⟨_, field, stands⟩
  · have unnumbered := tagContext_of_enter entered context
    refine ⟨origin, rfl, fun same => absurd (Option.some.inj same) context, fun _ => unnumbered, ?_⟩
    intro n same
    cases unnumbered.symm.trans same

end Cursor.ComesFrom

namespace Session

variable {Name : Type} [DecidableEq Name]

/-- What a step does with context numbers. -/
structure KeepsContexts (s : Session Name) (st : Step Name) : Prop where
  /-- A step that puts no other cursor under a name leaves the number there. -/
  stays : ∀ name c d, s.find? name = some c → s.placed? st name = none →
    (s.step st).2.find? name = some d → d.tagContext = c.tagContext
  /-- A fork has the number of its source, and of the readers only one gives a number, that in the tag. -/
  opened : ∀ d, (s.step st).1 = some (.opened d) → ∃ c, s.find? st.on = some c ∧
    (st.action = .fork ∧ d.tagContext = c.tagContext ∨
      st.action.container? = some .context ∧
        (∃ tag : Tag, c.tag? = some tag ∧ d.tagContext = some (tag &&& 0x1f).toNat) ∨
      (st.action.container? = some .sequence ∨ st.action.container? = some .set) ∧ d.tagContext = none)

theorem keepsContexts (s : Session Name) (st : Step Name) : s.KeepsContexts st := by
  refine ⟨?_, ?_⟩
  · intro name c d found unplaced found'
    rw [find?_step_of_placed?_none unplaced, found] at found'
    split at found'
    · cases found'
      exact (c.perform_origin_and_tagContext st.action).2
    · cases found'
      rfl
  · intro d answered
    cases on : s.find? st.on with
    | none =>
      rw [step_of_find?_none on] at answered
      cases answered
    | some c =>
      rw [step_fst on] at answered
      refine ⟨c, rfl, ?_⟩
      rcases Cursor.perform_eq_opened_by (Option.some.inj answered) with ⟨fork, rfl⟩ | ⟨kind, asked, entered⟩
      · exact .inl ⟨fork, rfl⟩
      · have kinds := Action.container?_of_asked asked
        cases kind with
        | context =>
          obtain ⟨tag, front, number, -⟩ := Cursor.standsIn_of_enter rfl entered
          exact .inr (.inl ⟨kinds, tag, front, number⟩)
        | sequence => exact .inr (.inr ⟨.inl kinds, Cursor.tagContext_of_enter entered Container.noConfusion⟩)
        | set => exact .inr (.inr ⟨.inr kinds, Cursor.tagContext_of_enter entered Container.noConfusion⟩)

/-- Context numbers are true at every moment of a run. -/
theorem context_numbers_are_true (bytes : ByteArray) (root : Name) (steps : List (Step Name)) :
    let run := (ofCursor root (.ofBytes bytes)).run steps
    (∀ st, run.2.KeepsContexts st) ∧
      ∀ name c, run.2.find? name = some c → c.ComesFrom bytes (openingOf steps run.1 name) := by
  refine ⟨fun st => keepsContexts _ st, fun name c found => ?_⟩
  refine forall_find?_run (P := fun opening c => Cursor.ComesFrom bytes opening c) ?_ ?_ steps ?_ name found
  · exact fun opening c action h => h.perform action
  · intro st openings c d h answer
    rcases Cursor.perform_eq_opened_by answer with ⟨fork, rfl⟩ | ⟨kind, asked, entered⟩
    · rw [fork]
      exact h
    · simp only [Action.container?_of_asked asked]
      exact h.enter entered
  · intro other d start
    rw [find?_ofCursor] at start
    split at start
    · cases start
      refine ⟨rfl, rfl, fun same => ?_, fun _ => rfl, fun n same => ?_⟩
      · cases same
      · cases same
    · cases start

/-- A `[2]` element with a sequence in it, and a byte behind it. -/
def contextAndMore : ByteArray := ⟨#[0xa2, 0x81, 0x05, 0x30, 0x03, 0x04, 0x01, 0xaa, 0x00]⟩

/-- The cursor on the `[2]` element is forked when it has passed the sequence in it. -/
def stepsInContext : List (Step Nat) :=
  [⟨0, .expectEnter .context, some 1⟩, ⟨1, .enter .sequence, some 2⟩, ⟨1, .next, none⟩, ⟨1, .fork, some 3⟩]

theorem fork_stands_in_context :
    let found := ((ofCursor 0 (.ofBytes contextAndMore)).run stepsInContext).2.find?
    (∃ c, found 2 = some c ∧ c.tagContext = none) ∧
      ∃ c, found 3 = some c ∧ c.position = 8 ∧ c.tagContext = some 2 ∧
        ∃ place field, c.StandsIn contextAndMore 2 place field := by
  intro found
  have all := (context_numbers_are_true contextAndMore 0 stepsInContext).2
  have inSequence := all 2 ⟨⟨contextAndMore, 5, 3, by decide⟩, none, true⟩ (by decide)
  have forked := all 3 ⟨⟨contextAndMore, 8, 0, by decide⟩, some 2, true⟩ (by decide)
  exact ⟨⟨_, by decide, inSequence.plain (by decide)⟩, _, by decide, rfl, rfl, forked.standsIn 2 rfl⟩

end Session
end Ber
