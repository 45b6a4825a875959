import Ber.Element

/-!
# Cursors

A `Cursor` reads the elements of a region one after another. It is a window, from the next element to
the end of the region, together with a flag and the number of the `[n]` element whose content it
reads, if it reads one.

Readers answer without moving: `tag?`, `header`, `enter` for the content of a container, `content` for
that of a primitive element. `next` moves over an element of any tag, and `skipContext` over all `[n]`
elements in front. A move that fails leaves the cursor where it was with nothing left to read and no
longer usable, and from then on every operation on it fails.
-/

namespace Ber

/-- A place in a region of an array, and what is left of the region. -/
structure Cursor where
  window : Window
  /-- The number of the `[n]` element whose content this cursor was opened on. -/
  tagContext : Option Nat := none
  /-- No move of this cursor has failed. -/
  usable : Bool := true
deriving DecidableEq

/-- The elements that a cursor can be opened on. -/
inductive Container where
  | context
  | sequence
  | set
deriving DecidableEq, Repr

/-- The elements whose content is handed out as a range of bytes. -/
inductive Primitive where
  | objectIdentifier
  | octetString
deriving DecidableEq, Repr

namespace Container

def rule : Container → TagRule
  | context => .context
  | sequence => .sequence
  | set => .set

/-- The context number of a cursor opened on an element with this tag. -/
def contextOf : Container → Tag → Option Nat
  | context, tag => some tag.contextNumber
  | sequence, _ => none
  | set, _ => none

end Container

def Primitive.rule : Primitive → TagRule
  | objectIdentifier => .objectIdentifier
  | octetString => .octetString

namespace Cursor

/-- The cursor on the whole of an array. -/
def ofBytes (bytes : ByteArray) : Cursor := { window := .ofBytes bytes }

/-- The index of the next byte in the array. -/
def position (c : Cursor) : Nat := c.window.start

/-- How many bytes are left in the region. -/
def remaining (c : Cursor) : Nat := c.window.size

/-- The cursor after a failed move. -/
def poisoned (c : Cursor) : Cursor := { c with window := c.window.take 0, usable := false }

/-- The tag of the next element. -/
def tag? (c : Cursor) : Option Tag := if c.usable then c.window.get? 0 else none

/-- The next element, if `rule` accepts its tag. -/
def element (rule : TagRule) (c : Cursor) : Except Failure Element :=
  if c.usable then Element.read rule c.window else .error ⟨.unusable, c.position⟩

/-- The header of the next element. -/
def header (c : Cursor) : Except Failure Header := (c.element .any).map Element.header

/-- A cursor on the content of the next element. -/
def enter (kind : Container) (c : Cursor) : Except Failure Cursor :=
  (c.element kind.rule).map fun e => { window := e.content, tagContext := kind.contextOf e.tag }

/-- The content of the next element. -/
def content (kind : Primitive) (c : Cursor) : Except Failure Window :=
  (c.element kind.rule).map Element.content

/-- The cursor on the next sibling, if there is a well-formed element to pass over. -/
def advance (c : Cursor) : Except Failure Cursor :=
  (c.element .any).map fun e => { c with window := e.rest }

/-- Moves over the next element. -/
def next (c : Cursor) : Bool × Cursor :=
  match c.advance with
  | .ok moved => (true, moved)
  | .error _ => (false, c.poisoned)

/-- The cursor stands on an `[n]` element. -/
def atContext (c : Cursor) : Bool := c.tag?.any Tag.isContext

theorem remaining_advance_lt {c moved : Cursor} (h : c.advance = .ok moved) :
    moved.remaining < c.remaining := by
  unfold advance element at h
  split at h
  · cases read : Element.read .any c.window with
    | error failure => simp [read, Except.map] at h
    | ok e =>
      simp only [read, Except.map, Except.ok.injEq] at h
      subst h
      exact Element.size_rest_lt read
  · simp [Except.map] at h

/-- Moves over all `[n]` elements in front. The answer is whether the cursor is usable afterwards. -/
def skipContext (c : Cursor) : Bool × Cursor :=
  if c.atContext then
    match _h : c.advance with
    | .ok moved => moved.skipContext
    | .error _ => (false, c.poisoned)
  else (c.usable, c)
termination_by c.remaining
decreasing_by exact remaining_advance_lt _h

theorem skipContext_of_advance {c moved : Cursor} (front : c.atContext = true)
    (h : c.advance = .ok moved) : c.skipContext = moved.skipContext := by
  rw [skipContext, if_pos front]
  split
  · next moved' h' =>
    rw [h] at h'
    cases h'
    rfl
  · next failure refused =>
    rw [h] at refused
    cases refused

theorem skipContext_of_error {c : Cursor} {failure : Failure} (front : c.atContext = true)
    (h : c.advance = .error failure) : c.skipContext = (false, c.poisoned) := by
  rw [skipContext, if_pos front]
  split
  · next moved advanced =>
    rw [h] at advanced
    cases advanced
  · rfl

theorem skipContext_of_not_atContext {c : Cursor} (front : c.atContext = false) :
    c.skipContext = (c.usable, c) := by
  rw [skipContext, front]
  rfl

/-! ### Readers and moves that answer with an option -/

def enter? (kind : Container) (c : Cursor) : Option Cursor := (c.enter kind).toOption

def content? (kind : Primitive) (c : Cursor) : Option Window := (c.content kind).toOption

def next? (c : Cursor) : Option Cursor := c.advance.toOption

def skipContext? (c : Cursor) : Option Cursor :=
  match c.skipContext with
  | (true, moved) => some moved
  | (false, _) => none

end Cursor
end Ber
