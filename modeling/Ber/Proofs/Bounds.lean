import Ber.Proofs.Actions
import Ber.Proofs.Inquiry
import Ber.Proofs.Sessions

/-!
# Bounds

No run leads out of the array, however malformed it is. Of a cursor `Within` says where its region
ends: a usable cursor has not lost a byte of it, and an unusable one has nothing left. Every move
preserves it (`Within.perform`), and what is opened lies behind the header of an element inside the
region of the cursor that it was opened on (`enter_inside`), so it holds at every moment of a run, with
the place where a region ends noted when the cursor is made (`regionEnd`).

Two things are said of reading itself. An action looks at no byte outside of what is left to its cursor
(from `CursorView.perform_holds`). And decoding a length field out of the whole array, as any caller
can, is reading it behind the tag in the region, so the check of the place never fails there
(`decode_behind_tag`).
-/

namespace Ber

/-! ### One action -/

/-- The cursor lies in `bytes`, and its region ends at `stop`. -/
structure Cursor.Within (bytes : ByteArray) (stop : Nat) (c : Cursor) : Prop where
  origin : c.window.origin = bytes
  stop : c.usable = true → c.position + c.remaining = stop
  empty : c.usable = false → c.remaining = 0

/-- The window lies behind the header of an element in what is left to the cursor. -/
structure Window.Inside (c : Cursor) (w : Window) : Prop where
  origin : w.origin = c.window.origin
  start : c.position + 2 ≤ w.start
  stop : w.start + w.size ≤ c.position + c.remaining

namespace Cursor

variable {c d : Cursor} {w : Window} {bytes : ByteArray} {stop : Nat}

theorem inside_of_element {rule : TagRule} {e : Element} (h : c.element rule = .ok e) :
    e.content.Inside c := by
  have fills := fills_of_element h
  have headerLength := fills.headerLength
  have start := fills.contentStart
  have size := fills.size
  refine ⟨fills.contentOrigin, ?_, ?_⟩
  · show c.window.start + 2 ≤ e.content.start
    omega
  · show e.content.start + e.content.size ≤ c.window.start + c.window.size
    omega

theorem enter_inside {kind : Container} (h : c.enter kind = .ok d) :
    d.usable = true ∧ d.window.Inside c := by
  obtain ⟨e, found, rfl⟩ := map_eq_ok_iff.mp h
  exact ⟨rfl, inside_of_element found⟩

theorem content_inside {kind : Primitive} (h : c.content kind = .ok w) : w.Inside c := by
  obtain ⟨e, found, rfl⟩ := map_eq_ok_iff.mp h
  exact inside_of_element found

namespace Within

theorem poisoned (h : c.Within bytes stop) : c.poisoned.Within bytes stop := by
  refine ⟨h.origin, fun usable => ?_, fun _ => Nat.zero_min _⟩
  cases usable

theorem advance (h : c.Within bytes stop) (advanced : c.advance = .ok d) : d.Within bytes stop := by
  have usable := usable_of_advance advanced
  obtain ⟨e, found, rfl⟩ := map_eq_ok_iff.mp advanced
  have fills := fills_of_element found
  refine ⟨fills.restOrigin.trans h.origin, fun _ => ?_, fun unusable => ?_⟩
  · have whole := h.stop usable
    have start := fills.restStart
    have size := fills.size
    show e.rest.start + e.rest.size = stop
    simp only [position, remaining] at whole
    omega
  · exact absurd (usable.symm.trans unusable) Bool.noConfusion

theorem perform (h : c.Within bytes stop) (action : Action) :
    (c.perform action).2.Within bytes stop :=
  perform_preserves (fun _ _ within => within.advance) (fun _ within => within.poisoned) h action

/-- A cursor that was opened begins with the whole of its region before it. -/
theorem opened (h : c.Within bytes stop) {action : Action} (answer : (c.perform action).1 = .opened d) :
    d.Within bytes (d.position + d.remaining) := by
  rcases perform_eq_opened answer with ⟨-, rfl⟩ | ⟨-, kind, entered⟩
  · exact ⟨h.origin, fun _ => rfl, h.empty⟩
  · obtain ⟨usable, inside⟩ := enter_inside entered
    refine ⟨inside.origin.trans h.origin, fun _ => rfl, fun unusable => ?_⟩
    exact absurd (usable.symm.trans unusable) Bool.noConfusion

end Within
end Cursor

/-! ### Decoding a length field in the array -/

theorem Quantity.place?_natCast {place size : Nat} (h : place ≤ size) (small : place ≤ maxExact) :
    (place : Quantity).place? size = some place := by
  have integer : (place : Quantity).exactInt? = some (place : Int) := by
    show (if (place : Rat).den = 1 ∧ (place : Rat).num.natAbs ≤ maxExact then
      some (place : Rat).num else none) = _
    rw [Rat.den_natCast, Rat.num_natCast, if_pos ⟨rfl, small⟩]
  rw [place?, integer]
  exact if_pos h

theorem Quantity.readable_natCast {amount left : Nat} (h : amount ≤ left) :
    (amount : Quantity).readable left = amount :=
  if_pos (Rat.natCast_le_natCast.mpr h)

/-- Decoding at the place behind the tag, for as many bytes as are left there, is reading the length
field in the region. -/
theorem Cursor.decode_behind_tag {c : Cursor} (tagged : 0 < c.remaining)
    (small : c.window.origin.size ≤ maxExact) :
    LengthField.decode c.window.origin (c.position + 1 : Nat) (c.remaining - 1 : Nat) =
      (LengthField.read (c.window.drop 1) (c.window.drop 1).size).mapError
        (⟨·, (c.position + 1 : Nat)⟩) := by
  have fits := c.window.fits
  simp only [remaining] at tagged
  have place : c.position + 1 ≤ c.window.origin.size := by
    show c.window.start + 1 ≤ _
    omega
  have amount : c.remaining - 1 ≤ c.window.origin.size - (c.position + 1) := by
    show c.window.size - 1 ≤ _ - (c.window.start + 1)
    omega
  have whole : ((c.remaining - 1 : Nat) : Rat).floor.toNat = c.remaining - 1 :=
    congrArg Int.toNat (Rat.floor_intCast (c.remaining - 1 : Nat))
  have cut : ((Window.ofBytes c.window.origin).drop (c.position + 1)).take (c.remaining - 1) =
      c.window.drop 1 := by
    apply Window.ext
    · rfl
    · show 0 + min (c.window.start + 1) c.window.origin.size = c.window.start + min 1 c.window.size
      omega
    · show min (c.window.size - 1) (c.window.origin.size - (c.window.start + 1)) = c.window.size - 1
      omega
  rw [LengthField.decode, Quantity.place?_natCast place (Nat.le_trans place small)]
  simp only [Quantity.readable_natCast amount, whole, cut]
  rfl

/-! ### Runs -/

section

variable {Name : Type} [DecidableEq Name]

/-- Where the regions of the cursors end after some steps with these answers, as it was when each of
them was made. -/
def regionEnd (bytes : ByteArray) (steps : List (Step Name)) (answers : List (Option Outcome)) :
    Name → Nat :=
  Session.notesAfter (fun _ _ opened => opened.position + opened.remaining) (fun _ => bytes.size) steps
    answers

theorem Session.within_of_run {bytes : ByteArray} {root name : Name} {steps : List (Step Name)}
    {c : Cursor} (found : ((ofCursor root (.ofBytes bytes)).run steps).2.find? name = some c) :
    c.Within bytes
      (regionEnd bytes steps ((ofCursor root (.ofBytes bytes)).run steps).1 name) := by
  refine forall_find?_run ?_ ?_ steps ?_ name found
  · exact fun stop c action h => h.perform action
  · exact fun st notes c d h answer => h.opened answer
  · intro other d start
    rw [find?_ofCursor] at start
    split at start
    · cases start
      exact ⟨rfl, fun _ => Nat.zero_add _, fun unusable => absurd unusable Bool.noConfusion⟩
    · cases start

/-- What the bounds of a cursor are: of itself, of what it hands out, and of what is read with it. -/
structure Cursor.InBounds (bytes : ByteArray) (stop : Nat) (c : Cursor) : Prop where
  fits : c.position + c.remaining ≤ bytes.size
  stop : c.usable = true → c.position + c.remaining = stop
  empty : c.usable = false → c.remaining = 0
  opened : ∀ action d, (c.perform action).1 = .opened d → action ≠ .fork →
    c.position + 2 ≤ d.position ∧ d.position + d.remaining ≤ c.position + c.remaining
  range : ∀ action w, (c.perform action).1 = .range w →
    c.position + 2 ≤ w.start ∧ w.start + w.size ≤ c.position + c.remaining ∧
      w.toList = (bytes.extract w.start (w.start + w.size)).data.toList
  /-- An action is an inquiry that asks only for bytes that are left to the cursor it asks for. -/
  reads : ∀ action,
    (c.view.perform bytes.size action).run bytes =
        ((c.perform action).1.view, (c.perform action).2.view) ∧
      (c.view.perform bytes.size action).Holds (CursorView.Reaches bytes.size) (fun _ => True)
  inside : ∀ rule failure size, c.element rule = .error failure →
    failure.defect ≠ .outsideArray size
  /-- The length field of an element can as well be decoded in the array. -/
  decode : 0 < c.remaining → bytes.size ≤ maxExact →
    LengthField.decode bytes (c.position + 1 : Nat) (c.remaining - 1 : Nat) =
      (LengthField.read (c.window.drop 1) (c.window.drop 1).size).mapError
        (⟨·, (c.position + 1 : Nat)⟩)

/-- Every cursor at every moment of a run stays in its bounds. -/
theorem Session.run_stays_in_bounds (bytes : ByteArray) (root : Name) (steps : List (Step Name)) :
    let run := (ofCursor root (.ofBytes bytes)).run steps
    ∀ name c, run.2.find? name = some c → c.InBounds bytes (regionEnd bytes steps run.1 name) := by
  intro run name c found
  have within := within_of_run found
  obtain rfl := within.origin
  refine ⟨c.window.fits, within.stop, within.empty, ?_, ?_, ?_, ?_, Cursor.decode_behind_tag⟩
  · intro action d answer unforked
    rcases Cursor.perform_eq_opened answer with ⟨fork, -⟩ | ⟨-, kind, entered⟩
    · exact absurd fork unforked
    · have inside := (Cursor.enter_inside entered).2
      exact ⟨inside.start, inside.stop⟩
  · intro action w answer
    obtain ⟨kind, read⟩ := Cursor.perform_eq_range answer
    have inside := Cursor.content_inside read
    refine ⟨inside.start, inside.stop, ?_⟩
    rw [← inside.origin]
    rfl
  · exact fun action => ⟨c.perform_run action, CursorView.perform_holds c.window.fits action⟩
  · intro rule failure size refused
    rw [Cursor.element] at refused
    split at refused
    · exact Element.read_ne_outsideArray refused size
    · cases refused
      exact Defect.noConfusion

/-- A sequence of one octet string, and a byte behind it. -/
def sequenceAndMore : ByteArray := ⟨#[0x30, 0x03, 0x04, 0x01, 0xaa, 0x00]⟩

theorem entered_cursor_stays_in_bounds :
    ∃ c : Cursor,
      ((Session.ofCursor 0 (.ofBytes sequenceAndMore)).run
        [⟨0, .enter .sequence, some 1⟩, ⟨1, .next, none⟩]).2.find? 1 = some c ∧
      c.position + c.remaining = 5 ∧ c.InBounds sequenceAndMore 5 := by
  have bounds := Session.run_stays_in_bounds sequenceAndMore 0
    [⟨0, .enter .sequence, some 1⟩, ⟨1, .next, none⟩] 1
    ⟨⟨sequenceAndMore, 5, 0, by decide⟩, none, true⟩ (by decide)
  exact ⟨_, by decide, bounds.stop rfl, bounds⟩

end
end Ber
