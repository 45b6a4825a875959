import Ber.Proofs.Scan
import Ber.Proofs.Sessions
import Ber.Proofs.View

/-!
# Relocation

A cursor sees its own region and nothing else. Whatever is done with a usable cursor that stands at `p`
with `n` bytes left is answered as if it were done with a new cursor on a copy of these `n` bytes,
except that `p` is added to every place, also to the place that a message names.

The two runs are compared step by step. What they hold at one moment is related by `Relocates`, for
windows, failures, elements, cursors and sessions. One action keeps it (`Cursor.Relocates.perform`), so
one step does (`Session.step_relocates`), and a run by induction on its steps
(`Session.run_relocates`).

The context number needs care. A new cursor has none, but the cursor that it stands for may have one,
and so may its forks. These are its kin, and the runs are followed with a note of which names hold kin
(`kinAfter`). A cursor that a reader opened takes its number from the tag that was read, which is the
same in both runs.
-/

namespace Ber

/-! ### Places moved ahead -/

def Quantity.shift (ahead : Nat) : Quantity → Quantity
  | .finite value => .finite (ahead + value)
  | other => other

theorem Quantity.shift_natCast (ahead place : Nat) :
    (place : Quantity).shift ahead = (ahead + place : Nat) := by
  show Quantity.finite (ahead + place) = .finite ((ahead + place : Nat) : Rat)
  rw [Rat.natCast_add]

def Report.shift (ahead : Nat) (r : Report) : Report := { r with offset := r.offset.shift ahead }

/-- The view of a cursor of the copy, as the cursor in the place of `base` shows it. Kin of the base
have its context number. -/
def CursorView.relocate (base : Cursor) (kin : Bool) (v : CursorView) : CursorView :=
  { v with
    position := base.position + v.position
    tagContext := if kin then base.tagContext else v.tagContext }

/-- The view of an answer on the copy, as it is answered in the place of `base`. A message is written
with the place that it has there. -/
def View.relocate (base : Cursor) (kin : Bool) : View → View
  | .opened cursor => .opened (cursor.relocate base kin)
  | .range offset length => .range (base.position + offset) length
  | .failed report => .failed (report.shift base.position)
  | .raised operation report _ =>
    .raised operation (report.shift base.position)
      ((report.shift base.position).message operation)
  | other => other

/-! ### Windows and failures -/

/-- `w` shows the bytes of `v`, and lies `ahead` bytes further on in its array. -/
structure Window.Relocates (ahead : Nat) (w v : Window) : Prop where
  start : w.start = ahead + v.start
  toList : w.toList = v.toList

namespace Window.Relocates

variable {ahead : Nat} {v w : Window}

theorem size (h : w.Relocates ahead v) : w.size = v.size := by
  rw [← length_toList w, ← length_toList v, h.toList]

theorem take (h : w.Relocates ahead v) (n : Nat) : (w.take n).Relocates ahead (v.take n) :=
  ⟨h.start, by rw [toList_take, toList_take, h.toList]⟩

theorem drop (h : w.Relocates ahead v) (n : Nat) : (w.drop n).Relocates ahead (v.drop n) := by
  have start := h.start
  have size := h.size
  refine ⟨?_, by rw [toList_drop, toList_drop, h.toList]⟩
  show w.start + min n w.size = ahead + (v.start + min n v.size)
  omega

end Window.Relocates

/-- `f` is the failure `g`, `ahead` bytes further on. -/
structure Failure.Relocates (ahead : Nat) (f g : Failure) : Prop where
  defect : f.defect = g.defect
  offset : f.offset = g.offset.shift ahead
  /-- The one defect whose detail names the place. -/
  inside : ∀ size, g.defect ≠ .outsideArray size

theorem Failure.Relocates.report_eq {ahead : Nat} {f g : Failure} (h : f.Relocates ahead g) :
    f.report = g.report.shift ahead := by
  obtain ⟨defect, offset⟩ := f
  obtain ⟨sameDefect, sameOffset, inside⟩ := h
  simp only at sameDefect sameOffset
  subst sameDefect sameOffset
  have detail : Failure.detail ⟨g.defect, g.offset.shift ahead⟩ = g.detail := by
    obtain ⟨defect, offset⟩ := g
    cases defect with
    | outsideArray size => exact absurd rfl (inside size)
    | _ => rfl
  show (⟨_, _, _⟩ : Report) = _
  rw [detail]
  rfl

/-- Both reads succeed, with related results, or both fail alike. -/
inductive Agree {α β : Type} (ahead : Nat) (R : α → β → Prop) :
    Except Failure α → Except Failure β → Prop where
  | ok {a : α} {b : β} (related : R a b) : Agree ahead R (.ok a) (.ok b)
  | error {f g : Failure} (related : f.Relocates ahead g) : Agree ahead R (.error f) (.error g)

theorem Agree.ok_or_error {α β : Type} {ahead : Nat} {R : α → β → Prop} {r : Except Failure α}
    {s : Except Failure β} (h : Agree ahead R r s) :
    (∃ a b, r = .ok a ∧ s = .ok b ∧ R a b) ∨
      ∃ f g, r = .error f ∧ s = .error g ∧ f.Relocates ahead g := by
  cases h with
  | ok related => exact .inl ⟨_, _, rfl, rfl, related⟩
  | error related => exact .inr ⟨_, _, rfl, rfl, related⟩

theorem Agree.map {α β γ δ : Type} {ahead : Nat} {R : α → β → Prop} {S : γ → δ → Prop}
    {r : Except Failure α} {s : Except Failure β} {f : α → γ} {g : β → δ} (h : Agree ahead R r s)
    (related : ∀ a b, R a b → S (f a) (g b)) : Agree ahead S (r.map f) (s.map g) := by
  cases h with
  | ok found => exact .ok (related _ _ found)
  | error failed => exact .error failed

/-! ### Elements -/

structure Element.Relocates (ahead : Nat) (e f : Element) : Prop where
  tag : e.tag = f.tag
  header : e.header = f.header
  content : e.content.Relocates ahead f.content
  rest : e.rest.Relocates ahead f.rest

theorem Element.read_relocates {ahead : Nat} {v w : Window} (rule : TagRule)
    (h : w.Relocates ahead v) :
    Agree ahead (Element.Relocates ahead) (read rule w) (read rule v) := by
  rw [read_eq_scan, read_eq_scan, h.toList]
  cases scanned : Header.scan rule v.toList with
  | ok header =>
    have content : (header.elementIn w).content.Relocates ahead (header.elementIn v).content :=
      (h.drop header.headerLength).take header.length
    refine .ok ⟨rfl, ?_, content, h.drop _⟩
    show (⟨_, _, _⟩ : Header) = ⟨_, _, _⟩
    rw [content.size]
    rfl
  | error failed =>
    obtain ⟨defect, place⟩ := failed
    refine .error ⟨rfl, ?_, Header.scan_ne_outsideArray scanned⟩
    rw [Quantity.shift_natCast, h.start, Nat.add_assoc]

/-! ### Cursors and actions -/

namespace Cursor

/-- `c` does in the array of `base` what `d` does in the copy of the region of `base`. -/
structure Relocates (base : Cursor) (kin : Bool) (c d : Cursor) : Prop where
  window : c.window.Relocates base.position d.window
  usable : c.usable = d.usable
  tagContext : c.tagContext = if kin then base.tagContext else d.tagContext

namespace Relocates

variable {base c d : Cursor} {kin : Bool}

theorem view_eq (h : base.Relocates kin c d) : c.view = d.view.relocate base kin := by
  show (⟨c.window.start, c.window.size, c.usable, c.tagContext⟩ : CursorView) = _
  rw [h.window.start, h.window.size, h.usable, h.tagContext]
  rfl

theorem poisoned (h : base.Relocates kin c d) : base.Relocates kin c.poisoned d.poisoned :=
  ⟨h.window.take 0, rfl, h.tagContext⟩

theorem tag?_eq (h : base.Relocates kin c d) : c.tag? = d.tag? := by
  rw [Cursor.tag?, Cursor.tag?, Window.get?_eq_getElem?, Window.get?_eq_getElem?, h.usable,
    h.window.toList]

theorem atContext_eq (h : base.Relocates kin c d) : c.atContext = d.atContext := by
  rw [atContext, atContext, h.tag?_eq]

theorem element (h : base.Relocates kin c d) (rule : TagRule) :
    Agree base.position (Element.Relocates base.position) (c.element rule) (d.element rule) := by
  have usable := h.usable
  by_cases live : d.usable = true
  · rw [Cursor.element, Cursor.element, if_pos live, if_pos (usable.trans live)]
    exact Element.read_relocates rule h.window
  · rw [Cursor.element, Cursor.element, if_neg live, if_neg (fun other => live (usable ▸ other))]
    refine .error ⟨rfl, ?_, fun size => Defect.noConfusion⟩
    rw [Quantity.shift_natCast]
    exact congrArg (fun place : Nat => (place : Quantity)) h.window.start

theorem header (h : base.Relocates kin c d) : Agree base.position Eq c.header d.header :=
  (h.element .any).map fun _ _ found => found.header

theorem enter (h : base.Relocates kin c d) (kind : Container) :
    Agree base.position (base.Relocates false) (c.enter kind) (d.enter kind) :=
  (h.element kind.rule).map fun e f found =>
    ⟨found.content, rfl, show kind.contextOf e.tag = kind.contextOf f.tag by rw [found.tag]⟩

theorem content (h : base.Relocates kin c d) (kind : Primitive) :
    Agree base.position (Window.Relocates base.position) (c.content kind) (d.content kind) :=
  (h.element kind.rule).map fun _ _ found => found.content

theorem advance (h : base.Relocates kin c d) :
    Agree base.position (base.Relocates kin) c.advance d.advance :=
  (h.element .any).map fun _ _ found => ⟨found.rest, h.usable, h.tagContext⟩

theorem skipContext (h : base.Relocates kin c d) :
    c.skipContext.1 = d.skipContext.1 ∧ base.Relocates kin c.skipContext.2 d.skipContext.2 := by
  -- along the recursion of the run on the copy; the other run takes the same turns
  fun_induction Cursor.skipContext d generalizing c with
  | case1 d front moved advanced ih =>
    rcases h.advance.ok_or_error with ⟨c', d', found, found', next⟩ | ⟨f, g, -, refused, -⟩
    · rw [advanced] at found'
      cases found'
      rw [skipContext_of_advance (h.atContext_eq.trans front) found]
      exact ih next
    · rw [advanced] at refused
      cases refused
  | case2 d front failure refused =>
    rcases h.advance.ok_or_error with ⟨c', d', -, found', -⟩ | ⟨f, g, refused', -, -⟩
    · rw [refused] at found'
      cases found'
    · rw [skipContext_of_error (h.atContext_eq.trans front) refused']
      exact ⟨rfl, h.poisoned⟩
  | case3 d front =>
    have behind : c.atContext = false := h.atContext_eq.trans (Bool.eq_false_iff.mpr front)
    rw [skipContext_of_not_atContext behind]
    exact ⟨h.usable, h⟩

end Relocates
end Cursor

/-- The answers of the two runs are the same up to their places. -/
structure Outcome.Relocates (base : Cursor) (kin : Bool) (a b : Outcome) : Prop where
  view : a.view = b.view.relocate base kin
  bytes : a.bytes = b.bytes
  cursor? : Option.Rel (base.Relocates kin) a.cursor? b.cursor?

namespace Outcome.Relocates

variable {base c d : Cursor} {kin : Bool}

theorem opened (h : base.Relocates kin c d) :
    Outcome.Relocates base kin (.opened c) (.opened d) :=
  ⟨congrArg View.opened h.view_eq, rfl, .some h⟩

theorem range {v w : Window} (h : w.Relocates base.position v) :
    Outcome.Relocates base kin (.range w) (.range v) := by
  refine ⟨?_, h.toList, .none⟩
  show View.range w.start w.size = .range (base.position + v.start) v.size
  rw [h.start, h.size]

theorem failed {f g : Failure} (h : f.Relocates base.position g) :
    Outcome.Relocates base kin (.failed f) (.failed g) :=
  ⟨congrArg View.failed h.report_eq, rfl, .none⟩

theorem raised {f g : Failure} (operation : String) (h : f.Relocates base.position g) :
    Outcome.Relocates base kin (.raised ⟨operation, f⟩) (.raised ⟨operation, g⟩) := by
  refine ⟨?_, rfl, .none⟩
  show f.raisedBy operation = (g.raisedBy operation).relocate base kin
  rw [Failure.raisedBy, h.report_eq]
  rfl

end Outcome.Relocates

/-- Whether a cursor that an action opened is kin of the base. Only a fork of kin is. -/
def Action.opensKin (kin : Bool) : Action → Bool
  | .fork => kin
  | _ => false

/-- One action, in both runs. -/
theorem Cursor.Relocates.perform {base c d : Cursor} {kin : Bool} (h : base.Relocates kin c d)
    (action : Action) :
    Outcome.Relocates base (action.opensKin kin) (c.perform action).1 (d.perform action).1 ∧
      base.Relocates kin (c.perform action).2 (d.perform action).2 := by
  cases action with
  | fork => exact ⟨.opened h, h⟩
  | tag => exact ⟨⟨congrArg View.tag h.tag?_eq, rfl, .none⟩, h⟩
  | header =>
    rcases h.header.ok_or_error with ⟨a, b, read, read', same⟩ | ⟨f, g, read, read', failed⟩
    · simp only [Cursor.perform, read, read']
      exact ⟨⟨congrArg View.header same, rfl, .none⟩, h⟩
    · simp only [Cursor.perform, read, read']
      exact ⟨.failed failed, h⟩
  | enter kind =>
    rcases (h.enter kind).ok_or_error with ⟨a, b, read, read', child⟩ | ⟨f, g, read, read', failed⟩
    · simp only [Cursor.perform, read, read']
      exact ⟨.opened child, h⟩
    · simp only [Cursor.perform, read, read']
      exact ⟨⟨rfl, rfl, .none⟩, h⟩
  | expectEnter kind =>
    rcases (h.enter kind).ok_or_error with ⟨a, b, read, read', child⟩ | ⟨f, g, read, read', failed⟩
    · simp only [Cursor.perform, expectEnter, read, read']
      exact ⟨.opened child, h⟩
    · simp only [Cursor.perform, expectEnter, read, read']
      exact ⟨.raised kind.expectName failed, h⟩
  | content kind =>
    rcases (h.content kind).ok_or_error with ⟨v, w, read, read', shown⟩ | ⟨f, g, read, read', failed⟩
    · simp only [Cursor.perform, read, read']
      exact ⟨.range shown, h⟩
    · simp only [Cursor.perform, read, read']
      exact ⟨⟨rfl, rfl, .none⟩, h⟩
  | expectContent kind =>
    rcases (h.content kind).ok_or_error with ⟨v, w, read, read', shown⟩ | ⟨f, g, read, read', failed⟩
    · simp only [Cursor.perform, expectContent, read, read']
      exact ⟨.range shown, h⟩
    · simp only [Cursor.perform, expectContent, read, read']
      exact ⟨.raised kind.expectName failed, h⟩
  | next =>
    rcases h.advance.ok_or_error with ⟨a, b, read, read', moved⟩ | ⟨f, g, read, read', failed⟩
    · simp only [Cursor.perform, Cursor.next, read, read']
      exact ⟨⟨rfl, rfl, .none⟩, moved⟩
    · simp only [Cursor.perform, Cursor.next, read, read']
      exact ⟨⟨rfl, rfl, .none⟩, h.poisoned⟩
  | expectNext =>
    rcases h.advance.ok_or_error with ⟨a, b, read, read', moved⟩ | ⟨f, g, read, read', failed⟩
    · simp only [Cursor.perform, Cursor.expectNext, read, read']
      exact ⟨⟨rfl, rfl, .none⟩, moved⟩
    · simp only [Cursor.perform, Cursor.expectNext, read, read']
      exact ⟨.raised "expectNext" failed, h.poisoned⟩
  | skipContext =>
    obtain ⟨flag, moved⟩ := h.skipContext
    exact ⟨⟨congrArg View.flag flag, rfl, .none⟩, moved⟩

/-! ### Sessions -/

section

variable {Name : Type} [DecidableEq Name]

/-- Whether a cursor that a step opens is kin of the base, if `kin` notes which names hold kin. -/
def Step.opensKin (st : Step Name) (kin : Name → Bool) : Bool := st.action.opensKin (kin st.on)

/-- Which names hold kin of the base after some steps with these answers; at first all names do. -/
def kinAfter (steps : List (Step Name)) (answers : List (Option Outcome)) : Name → Bool :=
  Session.notesAfter (fun st kin _ => st.opensKin kin) (fun _ => true) steps answers

/-- The views of some answers on the copy, as they are answered in the place of `base`. -/
def relocated (base : Cursor) (kin : Name → Bool) :
    List (Step Name) → List (Option Outcome) → List (Option View)
  | st :: steps, answer :: answers =>
    answer.map (fun outcome => outcome.view.relocate base (st.opensKin kin)) ::
      relocated base (Session.renew (fun _ => st.opensKin kin) st answer kin) steps answers
  | _, _ => []

theorem map_eq_of_rel {α β γ : Type} {R : α → β → Prop} {f : α → γ} {g : β → γ} {x : Option α}
    {y : Option β} (h : Option.Rel R x y) (same : ∀ a b, R a b → f a = g b) :
    x.map f = y.map g := by
  cases h with
  | some related => exact congrArg some (same _ _ related)
  | none => rfl

namespace Session

variable {base : Cursor} {kin : Name → Bool} {s t : Session Name}

/-- Under each name the sessions have related cursors, or none. -/
def Relocates (base : Cursor) (kin : Name → Bool) (s t : Session Name) : Prop :=
  ∀ name, Option.Rel (base.Relocates (kin name)) (s.find? name) (t.find? name)

theorem step_relocates (h : Relocates base kin s t) (st : Step Name) :
    Option.Rel (Outcome.Relocates base (st.opensKin kin)) (s.step st).1 (t.step st).1 ∧
      Relocates base (renew (fun _ => st.opensKin kin) st (t.step st).1 kin) (s.step st).2
        (t.step st).2 := by
  have here := h st.on
  generalize found : s.find? st.on = x at here
  generalize found' : t.find? st.on = y at here
  cases here with
  | none =>
    rw [step_of_find?_none found, step_of_find?_none found']
    exact ⟨.none, h⟩
  | @some c d related =>
    obtain ⟨answer, after⟩ := related.perform st.action
    rw [step_fst found, step_fst found']
    refine ⟨.some answer, ?_⟩
    intro name
    rw [find?_step found, find?_step found']
    have kept : Option.Rel (base.Relocates (st.opensKin kin))
        (kept? (c.perform st.action).1 st name) (kept? (d.perform st.action).1 st name) := by
      rw [kept?, kept?]
      split
      · exact answer.cursor?
      · exact .none
    simp only [renew, Option.bind_some]
    generalize kept? (c.perform st.action).1 st name = x at kept
    generalize kept? (d.perform st.action).1 st name = y at kept
    cases kept with
    | some opened => exact .some opened
    | none =>
      simp only [Option.none_or]
      by_cases same : name = st.on
      · rw [if_pos same, if_pos same, same]
        exact .some after
      · rw [if_neg same, if_neg same]
        exact h name

theorem run_relocates (steps : List (Step Name)) (h : Relocates base kin s t) :
    (s.run steps).1.map (Option.map Outcome.view) = relocated base kin steps (t.run steps).1 ∧
      (s.run steps).1.map (Option.map Outcome.bytes) = (t.run steps).1.map (Option.map Outcome.bytes) ∧
      Relocates base (notesAfter (fun st kin _ => st.opensKin kin) kin steps (t.run steps).1)
        (s.run steps).2 (t.run steps).2 := by
  induction steps generalizing s t kin with
  | nil => exact ⟨rfl, rfl, h⟩
  | cons st rest ih =>
    obtain ⟨answer, after⟩ := step_relocates h st
    obtain ⟨views, bytes, final⟩ := ih after
    rw [run_cons, run_cons]
    refine ⟨?_, ?_, final⟩
    · rw [List.map_cons, views, relocated, map_eq_of_rel answer fun _ _ same => same.view]
    · rw [List.map_cons, List.map_cons, bytes, map_eq_of_rel answer fun _ _ same => same.bytes]

end Session

/-! ### The copy of a region -/

/-- A usable cursor is relocated by a new cursor on a copy of its region. -/
theorem Cursor.relocates_ofBytes {base c : Cursor} {bytes : ByteArray} (usable : c.usable = true)
    (position : c.position = base.position) (context : c.tagContext = base.tagContext)
    (shown : c.window.toList = bytes.data.toList) : base.Relocates true c (.ofBytes bytes) :=
  ⟨⟨position, shown.trans (Window.toList_ofBytes bytes).symm⟩, usable, context⟩

theorem Session.relocates_ofCursor {base c d : Cursor} (h : base.Relocates true c d) (first : Name) :
    Relocates base (fun _ => true) (ofCursor first c) (ofCursor first d) := by
  intro name
  rw [find?_ofCursor, find?_ofCursor]
  split
  · exact .some h
  · exact .none

/-- Windows at one place of two arrays show the same if the arrays agree there. -/
theorem Window.toList_eq_of_agree {v w : Window} (start : v.start = w.start) (size : v.size = w.size)
    (agree : ∀ i, v.start ≤ i → i < v.start + v.size → v.origin.data[i]? = w.origin.data[i]?) :
    v.toList = w.toList := by
  apply List.ext_getElem?
  intro i
  rw [toList_eq, toList_eq, ← start, ← size]
  by_cases inside : i < v.size
  · have there := agree (v.start + i) (by omega) (by omega)
    simpa [List.getElem?_take_of_lt inside] using there
  · have past : v.size ≤ i := Nat.not_lt.mp inside
    rw [List.getElem?_eq_none (Nat.le_trans (List.length_take_le _ _) past),
      List.getElem?_eq_none (Nat.le_trans (List.length_take_le _ _) past)]

/-- A run in the array of `base` goes as the run `there` on the copy of its region. -/
structure IsRelocated (base : Cursor) (steps : List (Step Name))
    (here there : List (Option Outcome) × Session Name) : Prop where
  views : here.1.map (Option.map Outcome.view) = relocated base (fun _ => true) steps there.1
  bytes : here.1.map (Option.map Outcome.bytes) = there.1.map (Option.map Outcome.bytes)
  cursors : ∀ name, (here.2.find? name).map Cursor.view =
    (there.2.find? name).map fun c => c.view.relocate base (kinAfter steps there.1 name)

/-- A caller who sees one of the runs cannot tell it from the other. -/
structure LookAlike (one other : List (Option Outcome) × Session Name) : Prop where
  views : one.1.map (Option.map Outcome.view) = other.1.map (Option.map Outcome.view)
  bytes : one.1.map (Option.map Outcome.bytes) = other.1.map (Option.map Outcome.bytes)
  cursors : ∀ name, (one.2.find? name).map Cursor.view = (other.2.find? name).map Cursor.view

theorem Cursor.Relocates.run {base c d : Cursor} (h : base.Relocates true c d) (first : Name)
    (steps : List (Step Name)) :
    IsRelocated base steps ((Session.ofCursor first c).run steps)
      ((Session.ofCursor first d).run steps) := by
  obtain ⟨views, bytes, final⟩ := Session.run_relocates steps (Session.relocates_ofCursor h first)
  exact ⟨views, bytes, fun name => map_eq_of_rel (final name) fun _ _ found => found.view_eq⟩

theorem IsRelocated.lookAlike {base : Cursor} {steps : List (Step Name)}
    {one other there : List (Option Outcome) × Session Name} (h : IsRelocated base steps one there)
    (h' : IsRelocated base steps other there) : LookAlike one other :=
  ⟨h.views.trans h'.views.symm, h.bytes.trans h'.bytes.symm,
    fun name => (h.cursors name).trans (h'.cursors name).symm⟩

/-- Any steps with a usable cursor go as they go with a new cursor on a copy of its region, up to the
places; so two arrays that agree on the region cannot be told apart with the cursor. -/
theorem Cursor.sees_only_its_region (first : Name) (steps : List (Step Name)) :
    (∀ c : Cursor, c.usable = true →
      IsRelocated c steps ((Session.ofCursor first c).run steps)
        ((Session.ofCursor first (.ofBytes c.window.bytes)).run steps)) ∧
    (∀ c d : Cursor, c.usable = true → d.usable = true → c.position = d.position →
      c.remaining = d.remaining → c.tagContext = d.tagContext →
      (∀ i, c.position ≤ i → i < c.position + c.remaining →
        c.window.origin.data[i]? = d.window.origin.data[i]?) →
      LookAlike ((Session.ofCursor first c).run steps) ((Session.ofCursor first d).run steps)) := by
  constructor
  · intro c usable
    exact (relocates_ofBytes usable rfl rfl rfl).run first steps
  · intro c d usable usable' position remaining context agree
    -- both runs are compared with the one on the copy of the region of `d`
    have shown : c.window.toList = d.window.toList :=
      Window.toList_eq_of_agree position remaining agree
    have one := (relocates_ofBytes usable position context shown).run first steps
    have other := (relocates_ofBytes usable' rfl rfl rfl).run first steps
    exact one.lookAlike other

/-- The content of a `[3]` element: an octet string, and the tag of an element that is cut off. -/
def inContext : Cursor :=
  ⟨⟨⟨#[0xa3, 0x04, 0x04, 0x01, 0xaa, 0x30]⟩, 2, 4, by decide⟩, some 3, true⟩

def inOtherArray : Cursor :=
  ⟨⟨⟨#[0xff, 0xff, 0x04, 0x01, 0xaa, 0x30, 0x00]⟩, 2, 4, by decide⟩, some 3, true⟩

def stepsWithFork : List (Step Bool) :=
  [⟨false, .fork, some true⟩, ⟨true, .content .octetString, none⟩, ⟨true, .next, none⟩,
    ⟨true, .expectNext, none⟩]

theorem sees_only_its_region_with_fork :
    relocated inContext (fun _ => true) stepsWithFork
        ((Session.ofCursor false (.ofBytes inContext.window.bytes)).run stepsWithFork).1 =
      [some (.opened ⟨2, 4, true, some 3⟩), some (.range 4 1), some (.flag true),
        some (.raised "expectNext" ⟨"TruncatedInput", .finite 6, "missing length octet"⟩
          "expectNext failed at offset 6: missing length octet")] ∧
    ((Session.ofCursor false inContext).run stepsWithFork).1.map (Option.map Outcome.view) =
      ((Session.ofCursor false inOtherArray).run stepsWithFork).1.map (Option.map Outcome.view) := by
  have agree : ∀ i, 2 ≤ i → i < 2 + 4 →
      inContext.window.origin.data[i]? = inOtherArray.window.origin.data[i]? := by
    intro i low high
    obtain rfl | rfl | rfl | rfl : i = 2 ∨ i = 3 ∨ i = 4 ∨ i = 5 := by omega
    all_goals rfl
  have relocation := (Cursor.sees_only_its_region false stepsWithFork).1 inContext rfl
  have agreement := (Cursor.sees_only_its_region false stepsWithFork).2 inContext inOtherArray rfl rfl
    rfl rfl rfl agree
  exact ⟨relocation.views.symm.trans (by decide +kernel), agreement.views⟩

end
end Ber
