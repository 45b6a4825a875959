import Ber.Cursor

/-!
# Sessions

A `Session` holds cursors under names and carries out actions on them one at a time. `Cursor.perform`
is one action on one cursor: what it answers, and the cursor afterwards. A session step performs an
action on the cursor of a name, puts the cursor back, and keeps a cursor that the action opened if the
step gives a name for it.
-/

namespace Ber

/-- What can be asked of a cursor. An action `expect…` answers as its twin does, but raises an error
where the twin answers that there is nothing. -/
inductive Action where
  | fork
  | tag
  | header
  | enter (kind : Container)
  | expectEnter (kind : Container)
  | content (kind : Primitive)
  | expectContent (kind : Primitive)
  | next
  | expectNext
  | skipContext
deriving DecidableEq, Repr

/-- What an action answers. -/
inductive Outcome where
  | opened (cursor : Cursor)
  | range (content : Window)
  | tag (found : Option Tag)
  | header (header : Header)
  | failed (failure : Failure)
  | flag (value : Bool)
  | nothing
  | raised (error : DecodeError)
deriving DecidableEq

/-- The cursor that an action opened. -/
def Outcome.cursor? : Outcome → Option Cursor
  | opened cursor => some cursor
  | _ => none

/-- The name under which a refused action is reported. -/
def Container.expectName : Container → String
  | context => "expectConstructed"
  | sequence => "expectSequence"
  | set => "expectSet"

/-- The name under which a refused action is reported. -/
def Primitive.expectName : Primitive → String
  | objectIdentifier => "expectOid"
  | octetString => "expectOctetString"

namespace Cursor

def expectEnter (kind : Container) (c : Cursor) : Except DecodeError Cursor :=
  (c.enter kind).mapError (⟨kind.expectName, ·⟩)

def expectContent (kind : Primitive) (c : Cursor) : Except DecodeError Window :=
  (c.content kind).mapError (⟨kind.expectName, ·⟩)

/-- Moves over the next element and says why if it cannot. -/
def expectNext (c : Cursor) : Except DecodeError Unit × Cursor :=
  match c.advance with
  | .ok moved => (.ok (), moved)
  | .error failure => (.error ⟨"expectNext", failure⟩, c.poisoned)

/-- One action on a cursor: the answer, and the cursor afterwards. -/
def perform (action : Action) (c : Cursor) : Outcome × Cursor :=
  match action with
  | .fork => (.opened c, c)
  | .tag => (.tag c.tag?, c)
  | .header =>
    match c.header with
    | .ok header => (.header header, c)
    | .error failure => (.failed failure, c)
  | .enter kind =>
    match c.enter kind with
    | .ok child => (.opened child, c)
    | .error _ => (.nothing, c)
  | .expectEnter kind =>
    match c.expectEnter kind with
    | .ok child => (.opened child, c)
    | .error error => (.raised error, c)
  | .content kind =>
    match c.content kind with
    | .ok content => (.range content, c)
    | .error _ => (.nothing, c)
  | .expectContent kind =>
    match c.expectContent kind with
    | .ok content => (.range content, c)
    | .error error => (.raised error, c)
  | .next => let (moved, after) := c.next; (.flag moved, after)
  | .expectNext =>
    match c.expectNext with
    | (.ok (), after) => (.flag true, after)
    | (.error error, after) => (.raised error, after)
  | .skipContext => let (usable, after) := c.skipContext; (.flag usable, after)

end Cursor

/-- An action on the cursor of a name; a cursor that it opens is kept under `keepAs`. -/
structure Step (Name : Type) where
  on : Name
  action : Action
  keepAs : Option Name := none
deriving DecidableEq, Repr

/-- Cursors under names, in the order in which the names were first used. -/
structure Session (Name : Type) where
  entries : List (Name × Cursor)
deriving DecidableEq

namespace Session

variable {Name : Type} [DecidableEq Name]

/-- The session with one cursor. -/
def ofCursor (name : Name) (c : Cursor) : Session Name := ⟨[(name, c)]⟩

def find? (s : Session Name) (name : Name) : Option Cursor :=
  (s.entries.find? fun entry => entry.1 = name).map (·.2)

/-- Puts a cursor under a name, in the place of the one that has it, or at the end. -/
def keep (s : Session Name) (name : Name) (c : Cursor) : Session Name := ⟨go s.entries⟩
where
  go : List (Name × Cursor) → List (Name × Cursor)
    | [] => [(name, c)]
    | entry :: rest => if entry.1 = name then (name, c) :: rest else entry :: go rest

/-- Carries out one step. There is no answer if no cursor has the name. -/
def step (s : Session Name) (step : Step Name) : Option Outcome × Session Name :=
  match s.find? step.on with
  | none => (none, s)
  | some c =>
    let (outcome, after) := c.perform step.action
    let moved := s.keep step.on after
    match outcome.cursor?, step.keepAs with
    | some opened, some name => (some outcome, moved.keep name opened)
    | _, _ => (some outcome, moved)

/-- Carries out steps one after another. -/
def run (s : Session Name) : List (Step Name) → List (Option Outcome) × Session Name
  | [] => ([], s)
  | first :: rest =>
    let (outcome, after) := s.step first
    let (outcomes, final) := run after rest
    (outcome :: outcomes, final)

end Session
end Ber
