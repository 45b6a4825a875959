import Ber.Proofs.Reading
import Ber.Proofs.View

/-!
# Asking for bytes one at a time

Windows are read through a function that cannot leave them, so from `Cursor.perform` alone it does not
show which bytes an action looks at and in which order. An `Inquiry` makes every look at a byte a step
of its own: it asks for the byte at a place, on behalf of a cursor as it is at that moment, and goes on
with the answer. `CursorView.perform` carries out an action as an inquiry. It knows the numbers of the
cursor and the size of the array, and nothing of the bytes but what it is told; it takes the octets of
a length one by one, and bounds a length field both by the region and by the array.

* `perform_run`: with the bytes of the array as the answers, it does what `Cursor.perform` does;
* `perform_holds`: whatever the answers are, it asks only inside the region of the cursor it asks for.
-/

namespace Ber

/-- A computation that asks for bytes of an array. -/
inductive Inquiry (α : Type) where
  | done (answer : α)
  | ask (reader : CursorView) (place : Nat) (next : UInt8 → Inquiry α)

namespace Inquiry

variable {α β : Type}

def bind : Inquiry α → (α → Inquiry β) → Inquiry β
  | done answer, f => f answer
  | ask reader place next, f => ask reader place fun b => (next b).bind f

instance : Monad Inquiry where
  pure := done
  bind := bind

/-- The answer of an inquiry into an array; a place outside of it would be answered with zero. -/
def run (bytes : ByteArray) : Inquiry α → α
  | done answer => answer
  | ask _ place next => (next (bytes.data[place]?.getD 0)).run bytes

/-- Every question satisfies `P` and every answer `Q`, whatever the bytes are. -/
def Holds (P : CursorView → Nat → Prop) (Q : α → Prop) : Inquiry α → Prop
  | done answer => Q answer
  | ask reader place next => P reader place ∧ ∀ b, (next b).Holds P Q

@[simp] theorem run_pure (bytes : ByteArray) (answer : α) :
    (pure answer : Inquiry α).run bytes = answer := rfl

@[simp] theorem run_bind (bytes : ByteArray) (q : Inquiry α) (f : α → Inquiry β) :
    (q >>= f).run bytes = (f (q.run bytes)).run bytes := by
  show (q.bind f).run bytes = (f (q.run bytes)).run bytes
  induction q with
  | done answer => rfl
  | ask reader place next ih => exact ih _

theorem run_ite (bytes : ByteArray) (p : Prop) [Decidable p] (q r : Inquiry α) :
    (if p then q else r).run bytes = if p then q.run bytes else r.run bytes :=
  apply_ite (run bytes) p q r

theorem Holds.bind {P : CursorView → Nat → Prop} {Q : α → Prop} {R : β → Prop} {q : Inquiry α}
    {f : α → Inquiry β} (h : q.Holds P Q) (next : ∀ answer, Q answer → (f answer).Holds P R) :
    (q >>= f).Holds P R := by
  show (q.bind f).Holds P R
  induction q with
  | done answer => exact next answer h
  | ask reader place rest ih => exact ⟨h.1, fun b => ih b (h.2 b)⟩

end Inquiry

/-! ### Actions as inquiries -/

namespace CursorView

/-- The byte at a place, for this cursor. -/
def fetch (c : CursorView) (place : Nat) : Inquiry UInt8 := .ask c place .done

def poisoned (c : CursorView) : CursorView := { c with remaining := 0, usable := false }

def tag? (c : CursorView) : Inquiry (Option Tag) :=
  if c.usable = true ∧ 0 < c.remaining then do
    let tag ← c.fetch c.position
    return some tag
  else return none

/-- The length that `count` octets from `place` on write behind those that write `value`. The octet
that makes it too large is the last that is read. -/
def digits (c : CursorView) : (count place value : Nat) → Inquiry (Except Defect Nat)
  | 0, _, value => return .ok value
  | count + 1, place, value => do
    let b ← c.fetch place
    if maxExact < value * 256 + b.toNat then return .error .lengthTooLarge
    else c.digits count (place + 1) (value * 256 + b.toNat)

/-- The length field at `offset` of an array of `size` bytes, if `available` bytes may be read. -/
def lengthField (size : Nat) (c : CursorView) (offset available : Nat) :
    Inquiry (Except Defect LengthField) :=
  if size < offset then return .error (.outsideArray size)
  else
    let readable := min available (size - offset)
    if readable < 1 then return .error .missingLength
    else do
      let first ← c.fetch offset
      if first < LengthField.longForm then return .ok ⟨first.toNat, 1⟩
      else
        let count := (first - LengthField.longForm).toNat
        if lengthWordBytes ≤ count then return .error (.tooManyOctets count)
        else if readable - 1 < count then
          return .error (.missingOctets count (.finite ((readable : Rat) - 1)))
        else
          let length ← c.digits count (offset + 1) 0
          return length.map fun length => ⟨length, 1 + count⟩

/-- The header of the next element. The bytes behind it are counted with a sign. -/
def header (size : Nat) (rule : TagRule) (c : CursorView) : Inquiry (Except Failure Header) :=
  if c.usable = false then return .error ⟨.unusable, c.position⟩
  else if c.remaining < 1 then return .error ⟨.missingTag, c.position⟩
  else do
    let tag ← c.fetch c.position
    if rule.accepts tag then
      match ← c.lengthField size (c.position + 1) (c.remaining - 1) with
      | .error defect => return .error ⟨defect, (c.position + 1 : Nat)⟩
      | .ok field =>
        let available : Int := c.remaining - (1 + field.octets : Nat)
        if available < field.length then
          return .error ⟨.contentTooLong field.length available.toNat, c.position⟩
        else return .ok ⟨tag, 1 + field.octets, field.length⟩
    else return .error ⟨.unexpectedTag rule tag, c.position⟩

/-- The cursor on the content of an element with this header. -/
def child (kind : Container) (c : CursorView) (h : Header) : CursorView :=
  ⟨c.position + h.headerLength, h.length, true, kind.contextOf h.tag⟩

/-- The cursor behind an element with this header. -/
def behind (c : CursorView) (h : Header) : CursorView :=
  { c with
    position := c.position + (h.headerLength + h.length)
    remaining := c.remaining - (h.headerLength + h.length) }

def advance (size : Nat) (c : CursorView) : Inquiry (Except Failure CursorView) := do
  let header ← c.header size .any
  return header.map c.behind

/-- Moves over `[n]` elements for so many rounds. As many as there are bytes are enough. -/
def skipContext (size : Nat) : (rounds : Nat) → CursorView → Inquiry (Bool × CursorView)
  | 0, c => return (c.usable, c)
  | rounds + 1, c => do
    let tag ← c.tag?
    if tag.any Tag.isContext then
      match ← c.advance size with
      | .ok moved => moved.skipContext size rounds
      | .error _ => return (false, c.poisoned)
    else return (c.usable, c)

/-- What a read answers: `found` of its result, or `refused` of its failure. -/
def reply {α : Type} (found : α → View) (refused : Failure → View) : Except Failure α → View
  | .ok result => found result
  | .error failure => refused failure

/-- The cursor after a move. -/
def after (c : CursorView) : Except Failure CursorView → CursorView
  | .ok moved => moved
  | .error _ => c.poisoned

def perform (size : Nat) (action : Action) (c : CursorView) : Inquiry (View × CursorView) :=
  match action with
  | .fork => return (.opened c, c)
  | .tag => do
    let tag ← c.tag?
    return (.tag tag, c)
  | .header => do
    let header ← c.header size .any
    return (reply .header (fun failure => .failed failure.report) header, c)
  | .enter kind => do
    let header ← c.header size kind.rule
    return (reply (fun h => .opened (c.child kind h)) (fun _ => .nothing) header, c)
  | .expectEnter kind => do
    let header ← c.header size kind.rule
    return (reply (fun h => .opened (c.child kind h)) (Failure.raisedBy kind.expectName) header, c)
  | .content kind => do
    let header ← c.header size kind.rule
    return (reply (fun h => .range (c.position + h.headerLength) h.length) (fun _ => .nothing) header,
      c)
  | .expectContent kind => do
    let header ← c.header size kind.rule
    return (reply (fun h => .range (c.position + h.headerLength) h.length)
      (Failure.raisedBy kind.expectName) header, c)
  | .next => do
    let moved ← c.advance size
    return (reply (fun _ => .flag true) (fun _ => .flag false) moved, c.after moved)
  | .expectNext => do
    let moved ← c.advance size
    return (reply (fun _ => .flag true) (Failure.raisedBy "expectNext") moved, c.after moved)
  | .skipContext => do
    let (usable, moved) ← c.skipContext size c.remaining
    return (.flag usable, moved)

end CursorView

/-! ### The inquiries do what the actions do -/

namespace Window

/-- A byte in view is the byte of the array at its place. -/
theorem get?_eq_ite (w : Window) (i : Nat) :
    w.get? i = if i < w.size then some (w.origin.data[w.start + i]?.getD 0) else none := by
  rw [get?]
  split
  · next h =>
    have inside : w.start + i < w.origin.data.size := by
      have fits := w.fits
      exact Nat.lt_of_lt_of_le (Nat.add_lt_add_left h w.start) fits
    rw [Array.getElem?_eq_getElem inside]
    rfl
  · rfl

theorem toList_eq_cons {w : Window} (h : 0 < w.size) :
    w.toList = w.origin.data[w.start]?.getD 0 :: (w.drop 1).toList := by
  have front := w.get?_eq_getElem? 0
  rw [get?_eq_ite, if_pos h, Nat.add_zero] at front
  cases shown : w.toList with
  | nil =>
    rw [shown] at front
    cases front
  | cons first rest =>
    rw [shown] at front
    rw [toList_drop, shown, Option.some.inj front]
    rfl

end Window

theorem le_foldl_digits (octets : List UInt8) (value : Nat) :
    value ≤ octets.foldl (fun value b => value * 256 + b.toNat) value := by
  induction octets generalizing value with
  | nil => exact Nat.le_refl value
  | cons b rest ih =>
    have step := ih (value * 256 + b.toNat)
    rw [List.foldl_cons]
    omega

namespace CursorView

variable {size : Nat}

theorem fetch_bind_run {α : Type} (c : CursorView) (bytes : ByteArray) (place : Nat)
    (f : UInt8 → Inquiry α) :
    (c.fetch place >>= f).run bytes = (f (bytes.data[place]?.getD 0)).run bytes := rfl

/-- Giving up early is finding the whole length too large, since lengths only grow. -/
theorem digits_run (c : CursorView) (w : Window) {count value : Nat} (h : w.size = count)
    (small : value ≤ maxExact) :
    (c.digits count w.start value).run w.origin =
      let length := w.toList.foldl (fun value b => value * 256 + b.toNat) value
      if maxExact < length then .error .lengthTooLarge else .ok length := by
  induction count generalizing w value with
  | zero =>
    have nothing : w.toList = [] := List.eq_nil_of_length_eq_zero (w.length_toList.trans h)
    simp [digits, nothing, Nat.not_lt.mpr small]
  | succ count ih =>
    rw [Window.toList_eq_cons (by omega)]
    rw [digits, fetch_bind_run, List.foldl_cons]
    generalize w.origin.data[w.start]?.getD 0 = b
    simp only [Inquiry.run_ite]
    by_cases large : maxExact < value * 256 + b.toNat
    · have whole := le_foldl_digits (w.drop 1).toList (value * 256 + b.toNat)
      rw [if_pos large, if_pos (Nat.lt_of_lt_of_le large whole)]
      rfl
    · have rest : (w.drop 1).size = count := by
        rw [Window.size_drop]
        omega
      have place : (w.drop 1).start = w.start + 1 := Window.start_drop (by omega)
      have found := ih (w.drop 1) rest (Nat.not_lt.mp large)
      rw [place] at found
      rw [if_neg large]
      exact found

theorem lengthField_run (c : CursorView) (w : Window) :
    (c.lengthField w.origin.size w.start w.size).run w.origin = LengthField.read w w.size := by
  have fits := w.fits
  have room : ¬ w.origin.size < w.start := by omega
  have within : min w.size (w.origin.size - w.start) = w.size := by omega
  rw [lengthField, if_neg room, LengthField.read, Window.get?_eq_ite]
  simp only [within]
  by_cases empty : w.size < 1
  · rw [if_pos empty, if_neg (by omega)]
    rfl
  · rw [if_neg empty, if_pos (by omega)]
    rw [fetch_bind_run]
    simp only [Nat.add_zero]
    generalize w.origin.data[w.start]?.getD 0 = first
    simp only [Inquiry.run_ite, Inquiry.run_pure, Inquiry.run_bind]
    split
    · rfl
    · split
      · rfl
      · split
        · rfl
        · next enough =>
          generalize (first - LengthField.longForm).toNat = count at enough
          have taken : ((w.drop 1).take count).size = count := by
            rw [Window.size_take, Window.size_drop]
            omega
          have place : (w.drop 1).start = w.start + 1 := Window.start_drop (by omega)
          have read : (c.digits count (w.start + 1) 0).run w.origin =
              if maxExact < ofBigEndian ((w.drop 1).take count).toList then .error .lengthTooLarge
              else .ok (ofBigEndian ((w.drop 1).take count).toList) := by
            rw [← place]
            exact c.digits_run ((w.drop 1).take count) taken (Nat.zero_le maxExact)
          rw [read]
          by_cases large : maxExact < ofBigEndian ((w.drop 1).take count).toList
          · rw [if_pos large, if_pos large]
            rfl
          · rw [if_neg large, if_neg large]
            rfl

end CursorView

/-- A length field that was read lies in the window. -/
theorem LengthField.octets_le_size {w : Window} {readable : Rat} {field : LengthField}
    (h : read w readable = .ok field) : field.octets ≤ w.size := by
  rw [read_eq_scan] at h
  obtain ⟨form, front, rfl⟩ := exists_form_of_scan h
  rw [← Window.length_toList]
  exact front.length_le

namespace Cursor

variable (c : Cursor)

theorem view_position : c.view.position = c.window.start := rfl

theorem view_remaining : c.view.remaining = c.window.size := rfl

theorem view_usable : c.view.usable = c.usable := rfl

/-- Reading a header as an inquiry, behind the tag. -/
theorem lengthField_run_behind_tag (h : 0 < c.window.size) :
    (c.view.lengthField c.window.origin.size (c.window.start + 1) (c.window.size - 1)).run
        c.window.origin =
      LengthField.read (c.window.drop 1) (c.window.drop 1).size := by
  have place : (c.window.drop 1).start = c.window.start + 1 := Window.start_drop h
  rw [← place]
  exact c.view.lengthField_run (c.window.drop 1)

theorem header_run (rule : TagRule) :
    (c.view.header c.window.origin.size rule).run c.window.origin =
      (c.element rule).map Element.header := by
  rw [CursorView.header, view_usable, view_position, view_remaining, element]
  by_cases usable : c.usable = true
  · rw [if_neg (by simp [usable]), if_pos usable, Element.read, Window.get?_eq_ite]
    by_cases empty : c.window.size < 1
    · rw [if_pos empty, if_neg (by omega)]
      rfl
    · rw [if_neg empty, if_pos (by omega), CursorView.fetch_bind_run, Nat.add_zero]
      generalize c.window.origin.data[c.window.start]?.getD 0 = tag
      by_cases accepted : rule.accepts tag
      · simp only [if_pos accepted, Inquiry.run_bind, c.lengthField_run_behind_tag (by omega)]
        cases found : LengthField.read (c.window.drop 1) (c.window.drop 1).size with
        | error defect => rfl
        | ok field =>
          have octets := LengthField.octets_le_size found
          have left : (c.window.drop (1 + field.octets)).size
              = c.window.size - (1 + field.octets) := Window.size_drop _ _
          have sign : ((c.window.size : Int) - (1 + field.octets : Nat)).toNat
              = (c.window.drop (1 + field.octets)).size := by omega
          rw [Window.size_drop] at octets
          dsimp only
          by_cases long : (c.window.drop (1 + field.octets)).size < field.length
          · rw [if_pos long, if_pos (by omega), sign]
            rfl
          · rw [if_neg long, if_neg (by omega)]
            have whole : min field.length (c.window.drop (1 + field.octets)).size = field.length :=
              Nat.min_eq_left (Nat.not_lt.mp long)
            show Except.ok (⟨_, _, field.length⟩ : Header) = .ok ⟨_, _, min field.length _⟩
            rw [whole]
      · simp only [if_neg accepted]
        rfl
  · rw [if_pos (by simp [usable]), if_neg usable]
    rfl

theorem tag?_run : c.view.tag?.run c.window.origin = c.tag? := by
  rw [CursorView.tag?, view_usable, view_remaining, view_position, tag?, Window.get?_eq_ite]
  by_cases usable : c.usable = true
  · by_cases filled : 0 < c.window.size
    · rw [if_pos ⟨usable, filled⟩, if_pos usable, if_pos filled]
      rfl
    · rw [if_neg (fun both => filled both.2), if_pos usable, if_neg filled]
      rfl
  · rw [if_neg (fun both => usable both.1), if_neg usable]
    rfl

/-- The numbers of the cursor behind an element are those that its header gives. -/
theorem view_behind {e : Element} (h : e.Fills c.window) :
    view { c with window := e.rest } = c.view.behind e.header := by
  have left : e.rest.size = c.window.size - (e.headerLength + e.content.size) := by
    have size := h.size
    omega
  show (⟨e.rest.start, e.rest.size, _, _⟩ : CursorView) = _
  rw [h.restStart, left]
  rfl

theorem view_opened {e : Element} (kind : Container) (h : e.Fills c.window) :
    Outcome.view (.opened { window := e.content, tagContext := kind.contextOf e.tag }) =
      .opened (c.view.child kind e.header) := by
  show View.opened ⟨e.content.start, _, _, _⟩ = _
  rw [h.contentStart]
  rfl

theorem view_range {e : Element} (h : e.Fills c.window) :
    Outcome.view (.range e.content) =
      .range (c.view.position + e.header.headerLength) e.header.length := by
  show View.range e.content.start _ = _
  rw [h.contentStart]
  rfl

theorem advance_run :
    (c.view.advance c.window.origin.size).run c.window.origin = c.advance.map view := by
  rw [CursorView.advance, Inquiry.run_bind, header_run, advance]
  cases found : c.element .any with
  | error failure => rfl
  | ok e => exact congrArg Except.ok (c.view_behind (fills_of_element found)).symm

/-- No more rounds are needed than there are bytes. -/
theorem skipContext_run {rounds : Nat} (h : c.window.size ≤ rounds) :
    (c.view.skipContext c.window.origin.size rounds).run c.window.origin =
      (c.skipContext.1, c.skipContext.2.view) := by
  induction rounds generalizing c with
  | zero =>
    have nothing : c.atContext = false := by
      rw [atContext, tag?, Window.get?_eq_ite, if_neg (Nat.not_lt.mpr h)]
      split
      · rfl
      · rfl
    rw [skipContext_of_not_atContext nothing]
    rfl
  | succ rounds ih =>
    rw [CursorView.skipContext, Inquiry.run_bind, tag?_run, ← atContext]
    by_cases front : c.atContext = true
    · rw [if_pos front, Inquiry.run_bind, advance_run]
      cases advanced : c.advance with
      | error failure =>
        rw [skipContext_of_error front advanced]
        rfl
      | ok moved =>
        have less : moved.window.size ≤ rounds :=
          Nat.le_of_lt_succ (Nat.lt_of_lt_of_le (remaining_advance_lt advanced) h)
        rw [skipContext_of_advance front advanced]
        have later := ih moved less
        rw [origin_of_advance advanced] at later
        exact later
    · rw [if_neg front, skipContext_of_not_atContext (Bool.eq_false_iff.mpr front)]
      rfl

/-- With the bytes of the array, the inquiry does what the action does. -/
theorem perform_run (action : Action) :
    (c.view.perform c.window.origin.size action).run c.window.origin =
      ((c.perform action).1.view, (c.perform action).2.view) := by
  cases action with
  | fork => rfl
  | tag =>
    rw [CursorView.perform, Inquiry.run_bind, tag?_run]
    rfl
  | header =>
    rw [CursorView.perform, Inquiry.run_bind, header_run, perform, header]
    cases c.element .any with
    | error failure => rfl
    | ok e => rfl
  | enter kind =>
    rw [CursorView.perform, Inquiry.run_bind, header_run, perform, enter]
    cases found : c.element kind.rule with
    | error failure => rfl
    | ok e => exact congrArg (·, c.view) (c.view_opened kind (fills_of_element found)).symm
  | expectEnter kind =>
    rw [CursorView.perform, Inquiry.run_bind, header_run, perform, expectEnter, enter]
    cases found : c.element kind.rule with
    | error failure => rfl
    | ok e => exact congrArg (·, c.view) (c.view_opened kind (fills_of_element found)).symm
  | content kind =>
    rw [CursorView.perform, Inquiry.run_bind, header_run, perform, content]
    cases found : c.element kind.rule with
    | error failure => rfl
    | ok e => exact congrArg (·, c.view) (c.view_range (fills_of_element found)).symm
  | expectContent kind =>
    rw [CursorView.perform, Inquiry.run_bind, header_run, perform, expectContent, content]
    cases found : c.element kind.rule with
    | error failure => rfl
    | ok e => exact congrArg (·, c.view) (c.view_range (fills_of_element found)).symm
  | next =>
    rw [CursorView.perform, Inquiry.run_bind, advance_run, perform, next]
    cases c.advance with
    | error failure => rfl
    | ok moved => rfl
  | expectNext =>
    rw [CursorView.perform, Inquiry.run_bind, advance_run, perform, expectNext]
    cases c.advance with
    | error failure => rfl
    | ok moved => rfl
  | skipContext =>
    rw [CursorView.perform, Inquiry.run_bind, view_remaining, skipContext_run c (Nat.le_refl _)]
    rfl

end Cursor

/-! ### The inquiries stay in the region -/

namespace CursorView

/-- The place lies in what is left of the region of the cursor, and that in an array of `size` bytes. -/
structure Reaches (size : Nat) (c : CursorView) (place : Nat) : Prop where
  position_le : c.position ≤ place
  lt_stop : place < c.position + c.remaining
  fits : c.position + c.remaining ≤ size

variable {size : Nat} {c : CursorView}

theorem holds_fetch {α : Type} {P : CursorView → Nat → Prop} {Q : α → Prop} {place : Nat}
    {f : UInt8 → Inquiry α} (reach : P c place) (next : ∀ b, (f b).Holds P Q) :
    (c.fetch place >>= f).Holds P Q := ⟨reach, next⟩

theorem tag?_holds (fits : c.position + c.remaining ≤ size) :
    c.tag?.Holds (Reaches size) (fun _ => True) := by
  rw [tag?]
  split
  · next live => exact holds_fetch ⟨Nat.le_refl _, by omega, fits⟩ fun _ => trivial
  · trivial

theorem digits_holds (fits : c.position + c.remaining ≤ size) {count place : Nat} (value : Nat)
    (start : c.position ≤ place) (stop : place + count ≤ c.position + c.remaining) :
    (c.digits count place value).Holds (Reaches size) (fun _ => True) := by
  induction count generalizing place value with
  | zero => trivial
  | succ count ih =>
    refine holds_fetch ⟨start, by omega, fits⟩ fun b => ?_
    split
    · trivial
    · exact ih _ (by omega) (by omega)

/-- Behind the tag, the length field and its octets lie in the region. -/
theorem lengthField_holds (fits : c.position + c.remaining ≤ size) (tagged : 0 < c.remaining) :
    (c.lengthField size (c.position + 1) (c.remaining - 1)).Holds (Reaches size)
      (fun result => ∀ field, result = .ok field → 1 + field.octets ≤ c.remaining) := by
  rw [lengthField]
  split
  · intro field found
    cases found
  · dsimp only
    split
    · intro field found
      cases found
    · next lengthLeft =>
      refine holds_fetch ⟨by omega, by omega, fits⟩ fun first => ?_
      split
      · rintro field ⟨⟩
        show 1 + 1 ≤ c.remaining
        omega
      · split
        · intro field found
          cases found
        · split
          · intro field found
            cases found
          · next enough =>
            refine (digits_holds fits 0 (by omega) (by omega)).bind fun result _ => ?_
            cases result with
            | error defect =>
              intro field found
              cases found
            | ok length =>
              rintro field ⟨⟩
              show 1 + (1 + (first - LengthField.longForm).toNat) ≤ c.remaining
              omega

theorem header_holds (fits : c.position + c.remaining ≤ size) (rule : TagRule) :
    (c.header size rule).Holds (Reaches size)
      (fun result => ∀ h, result = .ok h → h.headerLength + h.length ≤ c.remaining) := by
  rw [header]
  split
  · intro h found
    cases found
  · split
    · intro h found
      cases found
    · next tagged =>
      refine holds_fetch ⟨Nat.le_refl _, by omega, fits⟩ fun tag => ?_
      split
      · refine (lengthField_holds fits (by omega)).bind fun result bound => ?_
        cases result with
        | error defect =>
          intro h found
          cases found
        | ok field =>
          have octets := bound field rfl
          dsimp only
          split
          · intro h found
            cases found
          · rintro h ⟨⟩
            dsimp only
            omega
      · intro h found
        cases found

theorem advance_holds (fits : c.position + c.remaining ≤ size) :
    (c.advance size).Holds (Reaches size)
      (fun result => ∀ moved, result = .ok moved → moved.position + moved.remaining ≤ size) := by
  refine (header_holds fits .any).bind fun result bound => ?_
  cases result with
  | error failure =>
    intro moved found
    cases found
  | ok h =>
    have inside := bound h rfl
    rintro moved ⟨⟩
    show c.position + (h.headerLength + h.length) + (c.remaining - (h.headerLength + h.length)) ≤ size
    omega

/-- Every question is asked for the cursor as far as it has moved. -/
theorem skipContext_holds (fits : c.position + c.remaining ≤ size) (rounds : Nat) :
    (c.skipContext size rounds).Holds (Reaches size) (fun _ => True) := by
  induction rounds generalizing c with
  | zero => trivial
  | succ rounds ih =>
    refine (tag?_holds fits).bind fun tag _ => ?_
    split
    · refine (advance_holds fits).bind fun result bound => ?_
      cases result with
      | error failure => trivial
      | ok moved => exact ih (bound moved rfl)
    · trivial

/-- Whatever bytes an action meets, it looks at none outside of the region. -/
theorem perform_holds (fits : c.position + c.remaining ≤ size) (action : Action) :
    (c.perform size action).Holds (Reaches size) (fun _ => True) := by
  cases action with
  | fork => trivial
  | tag => exact (tag?_holds fits).bind fun _ _ => trivial
  | header => exact (header_holds fits .any).bind fun _ _ => trivial
  | enter kind => exact (header_holds fits kind.rule).bind fun _ _ => trivial
  | expectEnter kind => exact (header_holds fits kind.rule).bind fun _ _ => trivial
  | content kind => exact (header_holds fits kind.rule).bind fun _ _ => trivial
  | expectContent kind => exact (header_holds fits kind.rule).bind fun _ _ => trivial
  | next => exact (advance_holds fits).bind fun _ _ => trivial
  | expectNext => exact (advance_holds fits).bind fun _ _ => trivial
  | skipContext => exact (skipContext_holds fits c.remaining).bind fun _ _ => trivial

end CursorView
end Ber
