import Ber.Proofs.Bounds
import Ber.Proofs.Nesting
import Ber.Proofs.ReaderAgreement
import Ber.Proofs.Siblings

/-!
# Into an element and past it

Two ways lead behind the header of an element: a reader goes into its content, and `next` goes past it. If they
did not count the header alike, a caller who has read the content to its end would not be at the next sibling,
and would take the middle of an element for its front.

Both ways start from the element that is found in front, whose content ends where the rest of the region begins
(`Element.Fills`). So what a reader hands out ends where `next` lands (`next_of_reader`). This stays so while
the content is read: as long as a cursor is usable, what is left to it ends where its region ended when it was
opened, whatever was done with it since (`Within.afterAll`). A child that is used up is therefore at the next
sibling of its parent.
-/

namespace Ber.Cursor

variable {c d : Cursor} {bytes : ByteArray} {stop : Nat} {rule : TagRule} {e : Element} {failure : Failure}

/-- The cursor after some actions on it. -/
def afterAll : List Action → Cursor → Cursor
  | [], c => c
  | action :: later, c => afterAll later (c.perform action).2

/-- The second cursor is the first one, `count` bytes further on in its region. -/
structure MovedBy (c d : Cursor) (count : Nat) : Prop where
  origin : d.window.origin = c.window.origin
  position : d.position = c.position + count
  remaining : d.remaining + count = c.remaining
  tagContext : d.tagContext = c.tagContext
  usable : d.usable = c.usable

/-- Going past the element at a cursor agrees with asking for its header and with going into it. -/
structure PassesWhatItEnters (c : Cursor) : Prop where
  next_iff : c.next.1 = true ↔ ∃ h, c.header = .ok h
  moved : ∀ h, c.header = .ok h → c.MovedBy c.next.2 (h.headerLength + h.length)
  raises_iff : (∃ error, c.expectNext.1 = .error error) ↔ c.next.1 = false
  raised : ∀ failure, c.header = .error failure → c.expectNext.1 = .error ⟨"expectNext", failure⟩
  leaves : c.expectNext.2 = c.next.2
  /-- Where the region of what a reader hands out ends, a fork of the cursor lands that goes on to the next
  element. -/
  entered : ∀ (reader : Reader) (w : Window), (c.perform reader.get).1.window? = some w →
    ∀ fork, (c.perform .fork).1 = .opened fork →
      fork.next.1 = true ∧ fork.next.2.position = w.start + w.size
  /-- A child that was used up, by whatever moves, is at the next sibling. -/
  usedUp : ∀ (kind : Container) (child : Cursor), (c.perform (.enter kind)).1 = .opened child →
    ∀ actions, (child.afterAll actions).usable = true → (child.afterAll actions).remaining = 0 →
      (child.afterAll actions).position = c.next.2.position

/-! ### Past an element -/

theorem element_any_of_element (h : c.element rule = .ok e) : c.element .any = .ok e := by
  rw [element, if_pos (usable_of_element h)]
  exact Element.read_any_of_read (read_of_element h)

theorem next_of_element (h : c.element rule = .ok e) : c.next = (true, { c with window := e.rest }) :=
  next_of_advance (map_eq_ok_iff.mpr ⟨e, element_any_of_element h, rfl⟩)

theorem movedBy_of_element (h : c.element rule = .ok e) :
    c.MovedBy c.next.2 (e.headerLength + e.content.size) := by
  have fills := fills_of_element h
  have size := fills.size
  rw [next_of_element h]
  refine ⟨fills.restOrigin, fills.restStart, ?_, rfl, rfl⟩
  show e.rest.size + (e.headerLength + e.content.size) = c.window.size
  omega

theorem next_fst_eq_true_iff : c.next.1 = true ↔ ∃ h, c.header = .ok h := by
  constructor
  · intro moved
    obtain ⟨d, advanced⟩ := exists_advance_of_next moved
    obtain ⟨e, found, -⟩ := map_eq_ok_iff.mp advanced
    exact ⟨e.header, map_eq_ok_iff.mpr ⟨e, found, rfl⟩⟩
  · rintro ⟨h, read⟩
    obtain ⟨e, found, -⟩ := map_eq_ok_iff.mp read
    rw [next_of_element found]

/-- The two forms of going past an element do the same, and one of them says why it cannot. -/
theorem expectNext_eq (c : Cursor) :
    c.expectNext = (c.advance.map (fun _ => ()) |>.mapError (⟨"expectNext", ·⟩), c.next.2) := by
  rw [expectNext, next]
  cases c.advance with
  | ok d => rfl
  | error failure => rfl

/-! ### Into an element -/

/-- What a reader hands out is the content of the element in front. -/
theorem exists_element_of_reader {reader : Reader} {w : Window}
    (h : (c.perform reader.get).1.window? = some w) :
    ∃ e, c.element reader.rule = .ok e ∧ e.content = w := by
  cases found : c.element reader.rule with
  | error failure =>
    rw [(Reader.refused_of_error found).get] at h
    cases h
  | ok e =>
    obtain ⟨answer, shown, get, -⟩ := Reader.handsOut_of_ok found
    have fills := fills_of_element found
    rw [get] at h
    refine ⟨e, rfl, ?_⟩
    cases reader with
    | child kind =>
      obtain ⟨d, rfl, origin, position, remaining, -⟩ := shown
      cases h
      exact Window.ext (fills.contentOrigin.trans origin.symm) (fills.contentStart.trans position.symm)
        remaining.symm
    | range kind =>
      obtain ⟨v, rfl, origin, start, size⟩ := shown
      cases h
      exact Window.ext (fills.contentOrigin.trans origin.symm) (fills.contentStart.trans start.symm)
        size.symm

/-- What a reader hands out ends where `next` lands. -/
theorem next_of_reader {reader : Reader} {w : Window} (h : (c.perform reader.get).1.window? = some w) :
    c.next.1 = true ∧ c.next.2.position = w.start + w.size := by
  obtain ⟨e, found, rfl⟩ := exists_element_of_reader h
  have moved := movedBy_of_element found
  have start := (fills_of_element found).contentStart
  refine ⟨by rw [next_of_element found], ?_⟩
  rw [moved.position, start, Nat.add_assoc]
  rfl

theorem Within.afterAll (h : c.Within bytes stop) (actions : List Action) :
    (c.afterAll actions).Within bytes stop := by
  induction actions generalizing c with
  | nil => exact h
  | cons action later ih => exact ih (h.perform action)

/-- A cursor that was opened has the whole of its region before it. -/
theorem within_of_enter {kind : Container} (h : c.enter kind = .ok d) :
    d.Within d.window.origin (d.position + d.remaining) := by
  refine ⟨rfl, fun _ => rfl, fun unusable => ?_⟩
  exact absurd ((enter_inside h).1.symm.trans unusable) Bool.noConfusion

/-- Going past an element agrees with going into it, at every cursor. -/
theorem passes_what_it_enters (c : Cursor) : c.PassesWhatItEnters := by
  refine ⟨next_fst_eq_true_iff, ?_, ?_, ?_, ?_, ?_, ?_⟩
  · intro h read
    obtain ⟨e, found, rfl⟩ := map_eq_ok_iff.mp read
    exact movedBy_of_element found
  · rw [expectNext_eq, next]
    cases c.advance with
    | ok d =>
      constructor
      · rintro ⟨error, raised⟩
        cases raised
      · intro stays
        cases stays
    | error failure => exact ⟨fun _ => rfl, fun _ => ⟨_, rfl⟩⟩
  · intro failure refused
    rw [expectNext_eq, advance_eq_error_iff.mpr refused]
    rfl
  · rw [expectNext_eq]
  · intro reader w handed fork forked
    cases forked
    exact next_of_reader handed
  · intro kind child opened actions usable empty
    have handed : (c.perform (Reader.child kind).get).1.window? = some child.window := by
      rw [Reader.get, opened]
      rfl
    obtain ⟨-, landing⟩ := next_of_reader handed
    rcases perform_eq_opened opened with ⟨fork, -⟩ | ⟨-, kind', entered⟩
    · cases fork
    · have stays := ((within_of_enter entered).afterAll actions).stop usable
      rw [empty, Nat.add_zero] at stays
      exact stays.trans landing.symm

end Ber.Cursor
